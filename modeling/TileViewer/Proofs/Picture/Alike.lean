import TileViewer.Painter
import TileViewer.Proofs.Exact
import TileViewer.Proofs.Picture.Board
import TileViewer.Proofs.Picture.Overlay

/-!
Painters that differ in what their sheets remember and in what their surfaces show. They paint the
same pictures, and a picture that covers the surface makes the surfaces the same too.
-/
namespace TileViewer

/-- Computations that fail with the same overflow, or give results that belong together. -/
inductive Agree {α β : Type} (R : α → β → Prop) : Except Overflow α → Except Overflow β → Prop
  | ok {a : α} {b : β} (h : R a b) : Agree R (.ok a) (.ok b)
  | error (e : Overflow) : Agree R (.error e) (.error e)

namespace Agree

variable {α β γ δ : Type} {R : α → β → Prop} {S : γ → δ → Prop}

theorem bind {x : Except Overflow α} {y : Except Overflow β} {f : α → Except Overflow γ}
    {g : β → Except Overflow δ} (h : Agree R x y) (hfg : ∀ a b, R a b → Agree S (f a) (g b)) :
    Agree S (x >>= f) (y >>= g) := by
  cases h with
  | ok h => exact hfg _ _ h
  | error e => exact .error e

/-- What both compute from the same values is the same. -/
theorem of_value {x : Except Overflow α} {f : α → Except Overflow γ} {g : α → Except Overflow δ}
    (hfg : ∀ a, x = .ok a → Agree S (f a) (g a)) : Agree S (x >>= f) (x >>= g) := by
  cases x with
  | ok a => exact hfg a rfl
  | error e => exact .error e

end Agree

/-- A sheet that gives out the images of another one, at its size. -/
structure SpriteSheet.Shares (sheet s : SpriteSheet) : Prop where
  built : s.BuiltFor sheet.sprite
  images : ∀ id : UInt32, s.images[id]? = sheet.images[id]?

namespace SpriteSheet.Shares

variable {sheet s : SpriteSheet}

theorem tile (h : sheet.Shares s) (id : UInt32) (turn : Rotation) :
    (s.tile id turn).1 = sheet.imageOf id turn ∧ sheet.Shares (s.tile id turn).2 := by
  refine ⟨?_, h.built.tile id turn, ?_⟩
  · rw [tile_eq_imageOf h.built, imageOf, imageOf, h.images, h.built.sprite_eq]
  · intro id'
    have := congrArg SpriteSheet.images (s.forgetScaled_tile id turn)
    exact (congrArg (·[id']?) this).trans (h.images id')

theorem forgetScaled (h : sheet.Shares s) : sheet.Shares s.forgetScaled :=
  ⟨h.built.forgetScaled, h.images⟩

end SpriteSheet.Shares

variable {sheet : SpriteSheet} {width height : UInt32} {scene : Scene} {scope : Scope}

/-- Two passes that have come to the same picture, of one size. -/
structure TilePass.Alike (sheet : SpriteSheet) (width height : UInt32) (p q : TilePass) : Prop where
  surface : p.surface = q.surface
  stats : p.stats = q.stats
  width_eq : q.surface.width = width
  height_eq : q.surface.height = height
  left : sheet.Shares p.sprites
  right : sheet.Shares q.sprites

namespace TilePass

variable {p q : TilePass}

theorem Alike.drawLayer (h : Alike sheet width height p q) (x y : Int32) (layer : Layer) :
    Alike sheet width height (drawLayer x y p layer) (drawLayer x y q layer) := by
  obtain ⟨himage, hleft⟩ := h.left.tile layer.image layer.rotation
  obtain ⟨himage', hright⟩ := h.right.tile layer.image layer.rotation
  obtain ⟨hsurface, hstats, hw, hh, -, -⟩ := h
  unfold TilePass.drawLayer
  generalize p.sprites.tile layer.image layer.rotation = out at himage hleft
  generalize q.sprites.tile layer.image layer.rotation = out' at himage' hright
  obtain ⟨image, sheet₁⟩ := out
  obtain ⟨image', sheet₂⟩ := out'
  cases himage.trans himage'.symm
  rw [hsurface, hstats]
  cases image <;> exact ⟨rfl, rfl, hw, hh, hleft, hright⟩

theorem Alike.foldl_drawLayer (h : Alike sheet width height p q) (x y : Int32)
    (stack : LayerStack) :
    Alike sheet width height (stack.foldl (TilePass.drawLayer x y) p)
      (stack.foldl (TilePass.drawLayer x y) q) := by
  induction stack generalizing p q with
  | nil => exact h
  | cons layer stack ih => exact ih (h.drawLayer x y layer)

theorem Alike.drawCell (h : Alike sheet width height p q) (column row : UInt32) (x y : Int32) :
    Agree (Alike sheet width height) (drawCell scene column row x y p)
      (drawCell scene column row x y q) := by
  refine .of_value fun wx _ => .of_value fun wy _ => .ok (.foldl_drawLayer ?_ x y _)
  obtain ⟨hsurface, hstats, hw, hh, hleft, hright⟩ := h
  simp only [hsurface, hstats]
  exact ⟨rfl, rfl, hw, hh, hleft, hright⟩

theorem Alike.drawRow (h : Alike sheet width height p q) (row : UInt32) (y : Int32) (count : Nat)
    (column : UInt32) :
    Agree (Alike sheet width height) (drawRow scene scope row y count column p)
      (drawRow scene scope row y count column q) := by
  induction count generalizing column p q with
  | zero => exact .ok h
  | succ count ih =>
    refine .of_value fun x _ => ?_
    simp only [h.surface]
    split
    · exact .ok h
    · refine .of_value fun included _ => ?_
      cases included with
      | true => exact .bind (h.drawCell column row x.toInt32 y) fun _ _ h' => ih h' (column + 1)
      | false => exact ih h (column + 1)

theorem Alike.drawRows (h : Alike sheet width height p q) (count : Nat) (row : UInt32) :
    Agree (Alike sheet width height) (drawRows scene scope count row p)
      (drawRows scene scope count row q) := by
  induction count generalizing row p q with
  | zero => exact .ok h
  | succ count ih =>
    refine .of_value fun y _ => ?_
    simp only [h.surface]
    split
    · exact .ok h
    · exact .bind (h.drawRow row y.toInt32 _ 0) fun _ _ h' => ih h' (row + 1)

end TilePass

theorem Scene.paint_agree {s t : SpriteSheet} (last : Option Surface) (hs : sheet.Shares s)
    (ht : sheet.Shares t) :
    Agree (TilePass.Alike sheet width height) (scene.paint last width height scope s)
      (scene.paint last width height scope t) := by
  have hfresh : TilePass.Alike sheet width height
      ⟨Ground.surface width height scene.sidebar, s, {}⟩
      ⟨Ground.surface width height scene.sidebar, t, {}⟩ :=
    ⟨rfl, rfl, Ground.size_surface.1, Ground.size_surface.2.1, hs, ht⟩
  unfold paint
  cases last with
  | none => exact hfresh.drawRows _ 0
  | some old =>
    by_cases hsize : old.width = width ∧ old.height = height
    · simp only [if_pos hsize]
      refine TilePass.Alike.drawRows ?_ _ 0
      exact ⟨rfl, rfl, hsize.1, hsize.2, hs, ht⟩
    · simp only [if_neg hsize]
      exact hfresh.drawRows _ 0

/-- A painter as `u`, apart from what it has painted and what its sheet remembers. -/
structure Painter.Alike (u p : Painter) : Prop where
  view : p.view = u.view
  sprite : p.sprite = u.sprite
  width : p.surface.width = u.surface.width
  height : p.surface.height = u.surface.height
  sprites : u.sprites.Shares p.sprites

namespace Surface

variable {s t : Surface}

/-- What the surface showed has no part in a window that covers it. -/
theorem blitWindow_eq (source : Surface) {x y : UInt32} (hw : s.width = t.width)
    (hh : s.height = t.height) (hx : x.toNat + t.width.toNat ≤ source.width.toNat)
    (hy : y.toNat + t.height.toNat ≤ source.height.toNat) :
    s.blitWindow source x y = t.blitWindow source x y := by
  unfold blitWindow
  rw [hw, hh]
  have himage : s.image.paint 0 0 (source.width.toNat - x.toNat) (source.height.toNat - y.toNat)
      (fun px py _ => source.image.pixelD (px + x.toNat) (py + y.toNat)) =
    t.image.paint 0 0 (source.width.toNat - x.toNat) (source.height.toNat - y.toNat)
      (fun px py _ => source.image.pixelD (px + x.toNat) (py + y.toNat)) := by
    refine Image.eq_of_pixel? hw hh fun px py => ?_
    rw [Image.pixel?_paint, Image.pixel?_paint]
    split
    · exact Image.map_pixel?_const hw hh _
    · next hout =>
      have hnone : ¬ (px < t.width.toNat ∧ py < t.height.toNat) := fun hin => hout (by omega)
      rw [Image.pixel?_eq_none hnone, Image.pixel?_eq_none]
      rw [← hw, ← hh] at hnone
      exact hnone
  rw [himage]

end Surface

theorem offset_le {surface room : UInt32} (h : surface ≤ room) (d : Int) :
    (UInt32.ofInt (max 0 (min d (room.toNat - surface.toNat : Nat)))).toNat + surface.toNat ≤
      room.toNat := by
  have hroom := room.toNat_lt
  have hle : surface.toNat ≤ room.toNat := UInt32.le_iff_toNat_le.1 h
  have hd := toNat_ofInt (z := max 0 (min d (room.toNat - surface.toNat : Nat))) (by omega)
    (by omega)
  omega

/-- The camera never leaves a picture that covers the surface. -/
theorem Camera.offsetIn_le (step : Point) {window : Window} {sprite : UInt32} {s picture : Surface}
    (hsize : window.sizePx sprite = (picture.width, picture.height)) (hw : s.width ≤ picture.width)
    (hh : s.height ≤ picture.height) :
    (offsetIn step window sprite s.width s.height).1.toNat + s.width.toNat ≤
        picture.width.toNat ∧
      (offsetIn step window sprite s.width s.height).2.toNat + s.height.toNat ≤
        picture.height.toNat := by
  simp only [offsetIn, hsize]
  exact ⟨offset_le hw _, offset_le hh _⟩

/-- As many sprites as fit and a margin of two cover the surface. -/
theorem le_timesSat_of_margin {surface sprite margin reach size : UInt32}
    (hpos : 0 < sprite.toNat) (hmargin : Word.plus (surface / sprite) 2 = .ok margin)
    (hsize : Word.plus margin reach = .ok size) : surface ≤ Word.timesSat size sprite := by
  have hdiv := toNat_of_plus hmargin
  rw [UInt32.toNat_div] at hdiv
  refine le_timesSat ?_
  calc
    surface.toNat ≤ (surface.toNat / sprite.toNat + 1) * sprite.toNat :=
      Nat.le_of_lt ((Nat.div_lt_iff_lt_mul hpos).1 (Nat.lt_succ_self _))
    _ ≤ size.toNat * sprite.toNat := by
      refine Nat.mul_le_mul_right _ ?_
      rw [toNat_of_plus hsize, hdiv, show (2 : UInt32).toNat = 2 from rfl]
      omega

/-- The window of a frame in the follow view covers the surface. -/
theorem Window.surface_le_sizePx {frame : Frame} {window : Window} {sprite : UInt32}
    (hpos : 0 < sprite.toNat) (h : ofFrame .follow frame width height sprite = .ok window) :
    width ≤ (window.sizePx sprite).1 ∧ height ≤ (window.sizePx sprite).2 := by
  rw [ofFrame, max_one hpos] at h
  obtain ⟨columns, hcolumns, h⟩ := bind_eq_ok h
  obtain ⟨w, hw, h⟩ := bind_eq_ok h
  obtain ⟨rows, hrows, h⟩ := bind_eq_ok h
  obtain ⟨t, ht, h⟩ := bind_eq_ok h
  obtain ⟨x, -, h⟩ := bind_eq_ok h
  obtain ⟨y, -, h⟩ := bind_eq_ok h
  cases h
  exact ⟨le_timesSat_of_margin hpos hcolumns hw, le_timesSat_of_margin hpos hrows ht⟩

namespace Painter

/-- Two painters of one kind with the same pictures. Their surfaces may differ. -/
structure Twins (u p q : Painter) : Prop where
  left : u.Alike p
  right : u.Alike q
  canvas : p.canvas = q.canvas

variable {u p q : Painter} {window : Window} {tiles : TileStore} {overlay : Overlay}

theorem Twins.draw_world {last : Option Surface} (h : Twins u p q) (hc : q.canvas = .world last) :
    Agree (fun a b => a.1 = b.1 ∧ Twins u a.2 b.2 ∧ a.2.surface = b.2.surface ∧
        ∃ last, b.2.canvas = .world last)
      (p.draw window tiles scope overlay) (q.draw window tiles scope overlay) := by
  obtain ⟨hp, hq, hcanvas⟩ := h
  simp only [draw, scene, hcanvas, hc, hp.view, hq.view, hp.sprite, hq.sprite, hp.width, hq.width,
    hp.height, hq.height]
  refine .bind (Scene.paint_agree last hp.sprites hq.sprites) fun pass pass' hpass => ?_
  rw [hpass.surface, hpass.stats]
  refine .of_value fun surface hsurface => .ok ?_
  obtain ⟨hw, hh⟩ := (Overlay.stamps_draw overlay _ _ _).size hsurface
  have hwidth := hw.trans hpass.width_eq
  have hheight := hh.trans hpass.height_eq
  exact ⟨rfl, ⟨⟨rfl, rfl, hwidth, hheight, hpass.left⟩,
    ⟨rfl, rfl, hwidth, hheight, hpass.right⟩, rfl⟩, rfl, _, rfl⟩

theorem Twins.draw_follow {picture : Surface} {painted : Option (Window × Surface)}
    (h : Twins u p q) (hc : q.canvas = .follow picture painted) :
    Agree (fun a b => a.1 = b.1 ∧ Twins u a.2 b.2 ∧ a.2.surface = p.surface ∧
        b.2.surface = q.surface ∧ ∃ picture clean,
          b.2.canvas = .follow picture (some (window, clean)) ∧
          window.sizePx u.sprite = (picture.width, picture.height))
      (p.draw window tiles scope overlay) (q.draw window tiles scope overlay) := by
  obtain ⟨hp, hq, hcanvas⟩ := h
  simp only [draw, scene, hcanvas, hc, hp.view, hq.view, hp.sprite, hq.sprite]
  refine .bind (Scene.paint_agree _ hp.sprites hq.sprites) fun pass pass' hpass => ?_
  rw [hpass.surface, hpass.stats]
  refine .of_value fun picture hpicture => .ok ?_
  obtain ⟨hw, hh⟩ := (Overlay.stamps_draw overlay _ _ _).size hpicture
  refine ⟨rfl, ⟨⟨rfl, rfl, hp.width, hp.height, hpass.left⟩,
    ⟨rfl, rfl, hq.width, hq.height, hpass.right⟩, rfl⟩, rfl, rfl, _, _, rfl, ?_⟩
  rw [hw, hh, hpass.width_eq, hpass.height_eq]

/-- A picture that covers the surface is all that is seen of a camera step. -/
theorem Twins.present {picture clean : Surface} (h : Twins u p q)
    (hc : q.canvas = .follow picture (some (window, clean)))
    (hsize : window.sizePx u.sprite = (picture.width, picture.height))
    (hw : u.surface.width ≤ picture.width) (hh : u.surface.height ≤ picture.height)
    (step : Point) :
    Agree (fun a b => a.1 = b.1 ∧ Twins u a.2 b.2 ∧ a.2.surface = b.2.surface ∧
        b.2.canvas = q.canvas)
      (p.present step) (q.present step) := by
  obtain ⟨hp, hq, hcanvas⟩ := h
  have hwidth := hp.width.trans hq.width.symm
  have hheight := hp.height.trans hq.height.symm
  rw [← hq.width] at hw
  rw [← hq.height] at hh
  obtain ⟨hx, hy⟩ := Camera.offsetIn_le step hsize hw hh
  simp only [Painter.present, hcanvas, hc, hp.sprite, hq.sprite, hwidth, hheight]
  rw [Surface.blitWindow_eq picture hwidth hheight hx hy]
  refine .of_value fun surface hsurface => .ok ?_
  obtain ⟨hw', hh'⟩ := Surface.size_blitWindow hsurface
  exact ⟨rfl, ⟨⟨hp.view, rfl, hw'.trans hq.width, hh'.trans hq.height, hp.sprites⟩,
    ⟨hq.view, rfl, hw'.trans hq.width, hh'.trans hq.height, hq.sprites⟩, rfl⟩, rfl, rfl⟩

end Painter

end TileViewer
