import TileViewer.Painter.Overlay
import TileViewer.Proofs.Picture.Pixels

/-!
Drawing an overlay never looks at what is below: it colours the same pixels and adds the same text
whatever the surface shows.
-/
namespace TileViewer

variable {α : Type} {f g : Surface → Except Overflow Surface} {s t : Surface}

/-- What a drawing adds to every surface: colours for some of the pixels, and text. -/
structure Ink where
  color : Nat → Nat → Option Color
  labels : Array Label

namespace Ink

/-- `t` is `s` with the ink on it. -/
structure On (ink : Ink) (s t : Surface) : Prop where
  width : t.width = s.width
  height : t.height = s.height
  labels : t.labels = s.labels ++ ink.labels
  pixel : ∀ px py, t.image.pixel? px py =
    (s.image.pixel? px py).map fun under => (ink.color px py).getD under

/-- One ink over another. -/
def onTop (top bottom : Ink) : Ink where
  color px py := (top.color px py).or (bottom.color px py)
  labels := bottom.labels ++ top.labels

theorem On.onTop {top bottom : Ink} {u : Surface} (h : bottom.On s t) (h' : top.On t u) :
    (top.onTop bottom).On s u where
  width := h'.width.trans h.width
  height := h'.height.trans h.height
  labels := by rw [h'.labels, h.labels, Ink.onTop, Array.append_assoc]
  pixel px py := by
    rw [h'.pixel, h.pixel, Option.map_map]
    congr 1
    funext under
    simp only [Function.comp_apply, Ink.onTop]
    cases top.color px py <;> rfl

end Ink

/-- Drawings that add the same ink to every surface, or fail on every surface. -/
def Stamps (f : Surface → Except Overflow Surface) : Prop :=
  (∃ e, ∀ s, f s = .error e) ∨ ∃ ink : Ink, ∀ s, ∃ t, f s = .ok t ∧ ink.On s t

namespace Stamps

theorem ok : Stamps .ok :=
  .inr ⟨⟨fun _ _ => none, #[]⟩, fun s => ⟨s, rfl, rfl, rfl, by simp, by simp⟩⟩

theorem bind (hf : Stamps f) (hg : Stamps g) : Stamps fun s => f s >>= g := by
  rcases hf with ⟨e, hf⟩ | ⟨bottom, hf⟩
  · exact .inl ⟨e, fun s => by simp only [hf]; rfl⟩
  · rcases hg with ⟨e, hg⟩ | ⟨top, hg⟩
    · refine .inl ⟨e, ?_⟩
      intro s
      obtain ⟨t, ht, -⟩ := hf s
      simp only [ht]
      exact hg t
    · refine .inr ⟨top.onTop bottom, ?_⟩
      intro s
      obtain ⟨t, ht, hon⟩ := hf s
      obtain ⟨u, hu, hon'⟩ := hg t
      refine ⟨u, ?_, hon.onTop hon'⟩
      simp only [ht]
      exact hu

/-- What is computed beside the surface has no part in it. -/
theorem of_value {x : Except Overflow α} {h : α → Surface → Except Overflow Surface}
    (hh : ∀ a, Stamps (h a)) : Stamps fun s => x >>= fun a => h a s := by
  cases x with
  | error e => exact .inl ⟨e, fun s => rfl⟩
  | ok a => exact hh a

theorem foldlM {f : Surface → α → Except Overflow Surface} (hf : ∀ a, Stamps fun s => f s a)
    (as : List α) : Stamps fun s => as.foldlM f s := by
  induction as with
  | nil => exact ok
  | cons a as ih =>
    simp only [List.foldlM_cons]
    exact bind (hf a) ih

theorem fillRect (x y : Int32) (width height : UInt32) (c : Color) :
    Stamps fun s => .ok (s.fillRect x y width height c) := by
  refine .inr ⟨⟨fun px py => if Surface.Inside x y width height px py then some c else none, #[]⟩,
    fun s => ⟨_, rfl, rfl, rfl, by simp, ?_⟩⟩
  intro px py
  rw [Surface.pixel?_fillRect]
  by_cases h : Surface.Inside x y width height px py <;> simp [h]

theorem pushLabel (l : Label) : Stamps fun s => .ok (s.pushLabel l) :=
  .inr ⟨⟨fun _ _ => none, #[l]⟩, fun s => ⟨_, rfl, rfl, rfl, by simp [Surface.pushLabel], by simp⟩⟩

theorem ok_fillRect {k : Surface → Surface} (hk : Stamps fun s => .ok (k s)) (x y : Int32)
    (width height : UInt32) (c : Color) :
    Stamps fun s => .ok ((k s).fillRect x y width height c) :=
  bind hk (fillRect x y width height c)

theorem strokeRect (x y : Int32) (width height line : UInt32) (c : Color) :
    Stamps fun s => s.strokeRect x y width height line c := by
  unfold Surface.strokeRect
  dsimp only
  by_cases h : min (min line width) height = 0
  · simp only [if_pos h]
    exact ok
  · simp only [if_neg h]
    exact of_value fun _ => of_value fun _ => ok_fillRect (ok_fillRect (ok_fillRect
      (fillRect _ _ _ _ _) _ _ _ _ _) _ _ _ _ _) _ _ _ _ _

theorem size (h : Stamps f) (hf : f s = .ok t) : t.width = s.width ∧ t.height = s.height := by
  rcases h with ⟨e, h⟩ | ⟨ink, h⟩
  · rw [h] at hf
    cases hf
  · obtain ⟨u, hu, hon⟩ := h s
    cases hu.symm.trans hf
    exact ⟨hon.width, hon.height⟩

theorem exists_ok (h : Stamps f) (hf : f s = .ok t) (s' : Surface) : ∃ t', f s' = .ok t' := by
  rcases h with ⟨e, h⟩ | ⟨ink, h⟩
  · rw [h] at hf
    cases hf
  · obtain ⟨t', ht', -⟩ := h s'
    exact ⟨t', ht'⟩

end Stamps

namespace Overlay

variable {view : View} {window : Window} {sprite : UInt32}

theorem stamps_drawBar (creature : Creature) (column row : Int32) (sprite : UInt32) :
    Stamps fun s => drawBar s creature column row sprite :=
  .of_value fun _ => .of_value fun _ => .of_value fun _ => .of_value fun _ => .of_value fun _ =>
    .of_value fun _ => .ok_fillRect (.fillRect _ _ _ _ _) _ _ _ _ _

theorem stamps_drawCreature (creature : Creature) :
    Stamps fun s => drawCreature view window sprite s creature := by
  refine .of_value fun column => .of_value fun row => .of_value ?_
  intro bottom
  by_cases h : bottom ≤ row
  · simp only [if_pos h]
    exact .ok
  · simp only [if_neg h]
    refine .bind (stamps_drawBar _ _ _ _) ?_
    cases creature.name with
    | none => exact .ok
    | some name => exact .of_value fun _ => .pushLabel _

theorem stamps_drawNumber (n : DamageNumber) :
    Stamps fun s => drawNumber window sprite s n := by
  refine .of_value ?_
  intro p
  cases p with
  | none => exact .ok
  | some p => exact .of_value fun _ => .pushLabel _

theorem stamps_drawOutline (r : TileRect) :
    Stamps fun s => drawOutline window sprite s r :=
  .of_value fun _ => .of_value fun _ => .of_value fun _ => .of_value fun _ => .of_value fun _ =>
    .of_value fun _ => .strokeRect _ _ _ _ _ _

theorem stamps_drawBorders (o : Overlay) : Stamps fun s => drawBorders o window sprite s := by
  unfold drawBorders
  cases o.tracked with
  | none => exact .fillRect _ _ _ _ _
  | some r => exact .bind (stamps_drawOutline r) (.fillRect 0 0 1 2000 Palette.black)

theorem stamps_draw (o : Overlay) (view : View) (window : Window) (sprite : UInt32) :
    Stamps fun s => o.draw view window sprite s := by
  have hnumbers : Stamps fun s =>
      o.numbers.foldlM (drawNumber window sprite) (s.pushLabel (seqLabel o.seq)) :=
    .bind (.pushLabel (seqLabel o.seq)) (.foldlM stamps_drawNumber o.numbers)
  refine .bind (.foldlM stamps_drawCreature o.creatures) (.bind hnumbers ?_)
  cases view with
  | world => exact stamps_drawBorders o
  | follow => exact .ok

/-- Whether a pixel looks the same under the overlay whatever is below. -/
def Hides (o : Overlay) (view : View) (window : Window) (sprite : UInt32) (px py : Nat) : Prop :=
  ∀ s t s' t', s.width = t.width → s.height = t.height → o.draw view window sprite s = .ok s' →
    o.draw view window sprite t = .ok t' → s'.image.pixel? px py = t'.image.pixel? px py

/-- Under the overlay two pictures agree on exactly the pixels that it hides and those on which
they agree anyway. -/
theorem pixel?_draw_eq_iff {o : Overlay} {s t s' t' : Surface} {px py : Nat}
    (hw : s.width = t.width) (hh : s.height = t.height)
    (hs : o.draw view window sprite s = .ok s') (ht : o.draw view window sprite t = .ok t') :
    s'.image.pixel? px py = t'.image.pixel? px py ↔
      o.Hides view window sprite px py ∨ s.image.pixel? px py = t.image.pixel? px py := by
  rcases stamps_draw o view window sprite with ⟨e, he⟩ | ⟨ink, hink⟩
  · cases hs.symm.trans (he s)
  have hon : ∀ {a b : Surface}, o.draw view window sprite a = .ok b → ink.On a b := by
    intro a b hab
    obtain ⟨b', hb', hon⟩ := hink a
    cases hb'.symm.trans hab
    exact hon
  constructor
  · intro heq
    rw [(hon hs).pixel, (hon ht).pixel] at heq
    cases hcolor : ink.color px py with
    | none => exact .inr (by simpa [hcolor] using heq)
    | some c =>
      refine .inl ?_
      intro a b a' b' hw' hh' ha hb
      rw [(hon ha).pixel, (hon hb).pixel, hcolor]
      exact Image.map_pixel?_const hw' hh' c
  · rintro (hides | heq)
    · exact hides s t s' t' hw hh hs ht
    · rw [(hon hs).pixel, (hon ht).pixel, heq]

/-- A pixel that the overlay does not hide looks as it does below. -/
theorem pixel?_of_not_hides {o : Overlay} {s t : Surface} {px py : Nat}
    (hfree : ¬ o.Hides view window sprite px py) (hs : o.draw view window sprite s = .ok t) :
    t.image.pixel? px py = s.image.pixel? px py := by
  rcases stamps_draw o view window sprite with ⟨e, he⟩ | ⟨ink, hink⟩
  · cases hs.symm.trans (he s)
  obtain ⟨u, hu, hon⟩ := hink s
  cases hu.symm.trans hs
  cases hcolor : ink.color px py with
  | none => simp [hon.pixel, hcolor]
  | some c =>
    refine absurd (fun a b a' b' hw hh ha hb => ?_) hfree
    obtain ⟨v, hv, hona⟩ := hink a
    cases hv.symm.trans ha
    obtain ⟨v', hv', honb⟩ := hink b
    cases hv'.symm.trans hb
    rw [hona.pixel, honb.pixel, hcolor]
    exact Image.map_pixel?_const hw hh c

/-- With no more on top than the number of the frame and the line at the left edge, what is below is
seen next to that. -/
theorem not_hides_empty (seq : UInt64) {w h : UInt32} {px py : Nat} (hleft : 0 < px)
    (hx : px < w.toNat) (hy : py < h.toNat) :
    ¬ ({ seq } : Overlay).Hides view window sprite px py := by
  intro hides
  have hline : ¬ Surface.Inside 0 0 1 2000 px py := by
    rintro ⟨⟨-, hright⟩, -⟩
    simp at hright
    omega
  have hpixel (c : Color) : ∃ t, ({ seq } : Overlay).draw view window sprite
      { image := .filled w h c } = .ok t ∧ t.image.pixel? px py = some c := by
    have hbelow : (Image.filled w h c).pixel? px py = some c := by
      rw [Image.pixel?_filled, if_pos ⟨hx, hy⟩]
    cases view with
    | world =>
      refine ⟨_, rfl, ?_⟩
      rw [Surface.pixel?_fillRect, if_neg hline]
      exact hbelow
    | follow => exact ⟨_, rfl, hbelow⟩
  obtain ⟨t, ht, htop⟩ := hpixel Palette.playArea
  obtain ⟨t', ht', htop'⟩ := hpixel Palette.sidebar
  have heq := hides { image := .filled w h Palette.playArea }
    { image := .filled w h Palette.sidebar } t t' rfl rfl ht ht'
  rw [htop, htop'] at heq
  exact absurd heq (by decide)

theorem draw_eq_iff {o : Overlay} {s t s' t' : Surface} (hw : s.width = t.width)
    (hh : s.height = t.height) (hl : s.labels = t.labels)
    (hs : o.draw view window sprite s = .ok s') (ht : o.draw view window sprite t = .ok t') :
    s' = t' ↔ ∀ px py, o.Hides view window sprite px py ∨
      s.image.pixel? px py = t.image.pixel? px py := by
  simp only [← pixel?_draw_eq_iff hw hh hs ht]
  constructor
  · rintro rfl px py
    rfl
  · rcases stamps_draw o view window sprite with ⟨e, he⟩ | ⟨ink, hink⟩
    · cases hs.symm.trans (he s)
    obtain ⟨u, hu, hon⟩ := hink s
    cases hu.symm.trans hs
    obtain ⟨w, hw', hon'⟩ := hink t
    cases hw'.symm.trans ht
    refine Surface.eq_of_pixel? ?_ ?_ ?_
    · rw [hon.width, hon'.width, hw]
    · rw [hon.height, hon'.height, hh]
    · rw [hon.labels, hon'.labels, hl]

end Overlay

end TileViewer
