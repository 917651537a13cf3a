import TileViewer.Proofs.Picture.Pixels

/-!
Rectangles on a surface, whole and outlined, wherever they lie: which pixels get the colour, and
that nothing else changes. An outline is four rectangles that overlap in the corners.
-/
namespace TileViewer

namespace Surface

variable {s t u : Surface} {x y : Int32} {width height line : UInt32} {c : Color}
  {P Q : Nat → Nat → Prop}

/-- `t` is `s` with the pixels of an area in one colour, as far as the surface has them. -/
structure Coloured (s t : Surface) (c : Color) (P : Nat → Nat → Prop) : Prop where
  covered : ∀ px py, px < s.width.toNat → py < s.height.toNat → P px py →
    t.image.pixel? px py = some c
  kept : ∀ px py, ¬ P px py → t.image.pixel? px py = s.image.pixel? px py
  labels : t.labels = s.labels
  width : t.width = s.width
  height : t.height = s.height

theorem Coloured.refl (h : ∀ px py, ¬ P px py) : Coloured s s c P where
  covered px py _ _ hp := (h px py hp).elim
  kept _ _ _ := rfl
  labels := rfl
  width := rfl
  height := rfl

theorem Coloured.trans (hs : Coloured s t c P) (ht : Coloured t u c Q) :
    Coloured s u c fun px py => P px py ∨ Q px py where
  covered := by
    intro px py hx hy h
    by_cases hq : Q px py
    · apply ht.covered px py _ _ hq
      · rwa [hs.width]
      · rwa [hs.height]
    · rw [ht.kept px py hq]
      exact hs.covered px py hx hy (h.resolve_right hq)
  kept := by
    intro px py h
    rw [ht.kept px py fun hq => h (.inr hq), hs.kept px py fun hp => h (.inl hp)]
  labels := ht.labels.trans hs.labels
  width := ht.width.trans hs.width
  height := ht.height.trans hs.height

theorem Coloured.congr (h : Coloured s t c P) (hPQ : ∀ px py, P px py ↔ Q px py) :
    Coloured s t c Q where
  covered px py hx hy hq := h.covered px py hx hy ((hPQ px py).2 hq)
  kept px py hq := h.kept px py (mt (hPQ px py).1 hq)
  labels := h.labels
  width := h.width
  height := h.height

theorem coloured_fillRect (s : Surface) (x y : Int32) (width height : UInt32) (c : Color) :
    Coloured s (s.fillRect x y width height c) c (Inside x y width height) where
  covered := by
    intro px py hx hy h
    rw [pixel?_fillRect, if_pos h, Image.pixel?_eq_some hx hy]
    rfl
  kept := by
    intro px py h
    rw [pixel?_fillRect, if_neg h]
  labels := rfl
  width := rfl
  height := rfl

/-- Whether a pixel lies in the rectangle with fewer than `line` pixels between it and one of the
four edges. -/
def OnRing (x y : Int32) (width height : UInt32) (line : Nat) (px py : Nat) : Prop :=
  Inside x y width height px py ∧
    ((px : Int) - x.toInt < line ∨ x.toInt + width.toNat - 1 - px < line ∨
      (py : Int) - y.toInt < line ∨ y.toInt + height.toNat - 1 - py < line)

instance (x y : Int32) (width height : UInt32) (line px py : Nat) :
    Decidable (OnRing x y width height line px py) :=
  inferInstanceAs (Decidable (_ ∧ _))

/-- A line that is no thicker than the rectangle: the strips along its four edges are the ring. -/
theorem strips_iff_onRing {x' y' : Int32} {px py : Nat} (hw : line.toNat ≤ width.toNat)
    (hh : line.toNat ≤ height.toNat) (hx : x'.toInt = x.toInt + width.toNat - line.toNat)
    (hy : y'.toInt = y.toInt + height.toNat - line.toNat) :
    (((Inside x y width line px py ∨ Inside x y' width line px py) ∨
      Inside x y line height px py) ∨ Inside x' y line height px py) ↔
    OnRing x y width height line.toNat px py := by
  unfold OnRing Inside
  omega

/-- A word moved by what is left of a length after its last part. -/
theorem gives_plus_left {z : Int32} {n m : UInt32} (hm : m.toNat ≤ n.toNat)
    (hn : n.toNat < 2 ^ 31) (h : z.toInt + n.toNat < 2 ^ 31) :
    Gives (Word.plus z (n - m).toInt32) fun z' => z'.toInt = z.toInt + n.toNat - m.toNat := by
  have hz := z.le_toInt
  have hleft : (n - m).toNat = n.toNat - m.toNat :=
    UInt32.toNat_sub_of_le _ _ (UInt32.le_iff_toNat_le.2 hm)
  have hint := toInt_toInt32 (n := n - m) (by omega)
  refine (gives_plus (by omega) (by omega)).mono ?_
  intro z' hz'
  omega

theorem gives_strokeRect_coloured (s : Surface) (line : UInt32) (c : Color)
    (hw : width.toNat < 2 ^ 31) (hh : height.toNat < 2 ^ 31)
    (hx : x.toInt + width.toNat < 2 ^ 31) (hy : y.toInt + height.toNat < 2 ^ 31) :
    Gives (s.strokeRect x y width height line c) fun t => Coloured s t c
      (OnRing x y width height (min line.toNat (min width.toNat height.toNat))) := by
  have hline : (min (min line width) height).toNat =
      min line.toNat (min width.toNat height.toNat) := by
    rw [toNat_min, toNat_min]
    omega
  rw [← hline]
  unfold strokeRect
  dsimp only
  generalize min (min line width) height = line' at hline ⊢
  split
  · next hzero =>
    apply Gives.ok
    apply Coloured.refl
    intro px py hring
    have hnone : (0 : UInt32).toNat = 0 := rfl
    rw [hzero, hnone] at hring
    unfold OnRing Inside at hring
    omega
  · refine .bind (gives_plus_left (by omega) hh hy) ?_
    intro y' hy'
    refine .bind (gives_plus_left (by omega) hw hx) ?_
    intro x' hx'
    apply Gives.ok
    -- The four strips overlap in the corners, where the colour is the same.
    have hring := (((coloured_fillRect s x y width line' c).trans
      (coloured_fillRect _ x y' width line' c)).trans
      (coloured_fillRect _ x y line' height c)).trans (coloured_fillRect _ x' y line' height c)
    exact hring.congr fun px py => strips_iff_onRing (by omega) (by omega) hx' hy'

/-- A rectangle anywhere, of any size, colours exactly its pixels on the surface. An outline whose
far edges are words does not overflow and colours exactly the pixels of the surface on its ring,
which is as thick as the line unless the rectangle is smaller. Nothing else changes. -/
theorem rectangles_clipped (s : Surface) (x y : Int32) (width height line : UInt32) (c : Color) :
    Coloured s (s.fillRect x y width height c) c (Inside x y width height) ∧
    (width.toNat < 2 ^ 31 → height.toNat < 2 ^ 31 → x.toInt + width.toNat < 2 ^ 31 →
      y.toInt + height.toNat < 2 ^ 31 →
      Gives (s.strokeRect x y width height line c) fun t => Coloured s t c
        (OnRing x y width height (min line.toNat (min width.toNat height.toNat)))) := by
  refine ⟨coloured_fillRect s x y width height c, ?_⟩
  intro hw hh hx hy
  exact gives_strokeRect_coloured s line c hw hh hx hy

/-- The outline of a rectangle that begins above and left of the surface: a corner of the ring, the
inside and the outside. -/
theorem rectangles_clipped_corner (c : Color) :
    ∃ t, (blank 5 4).strokeRect (-1) (-1) 4 4 1 c = .ok t ∧ t.image.pixel? 2 2 = some c ∧
      t.image.pixel? 1 1 = some .clear ∧ t.image.pixel? 3 3 = some .clear ∧ t.labels = #[] := by
  have houtline := (rectangles_clipped (blank 5 4) (-1) (-1) 4 4 1 c).2
  obtain ⟨t, ht, hring⟩ := houtline (by decide) (by decide) (by decide) (by decide)
  have hcorner := hring.covered 2 2 (by decide) (by decide) (by decide)
  have hmiddle := hring.kept 1 1 (by decide)
  have houtside := hring.kept 3 3 (by decide)
  exact ⟨t, ht, hcorner, hmiddle, houtside, hring.labels⟩

end Surface

end TileViewer
