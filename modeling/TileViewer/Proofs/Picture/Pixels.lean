import TileViewer.Surface
import TileViewer.Proofs.Exact

/-! Pictures seen pixel by pixel: equality, and what filling and drawing do to each pixel. -/
namespace TileViewer

namespace Image

variable {a b : Image} {x y : Nat}

theorem pixel?_eq_none (h : ¬ (x < a.width.toNat ∧ y < a.height.toNat)) : a.pixel? x y = none :=
  if_neg h

theorem pixel?_eq_some (hx : x < a.width.toNat) (hy : y < a.height.toNat) :
    a.pixel? x y = some (a.pixelD x y) := by
  have hp : a.pixel? x y = a.pixels[y * a.width.toNat + x]? := if_pos ⟨hx, hy⟩
  have hlt : y * a.width.toNat + x < a.pixels.size := a.size_eq ▸ place_lt hx hy
  rw [pixelD, hp, Array.getElem?_eq_getElem hlt, Option.getD_some]

theorem map_pixel?_const (hw : a.width = b.width) (hh : a.height = b.height) (c : Color) :
    (a.pixel? x y).map (fun _ => c) = (b.pixel? x y).map fun _ => c := by
  by_cases h : x < a.width.toNat ∧ y < a.height.toNat
  · rw [pixel?_eq_some h.1 h.2, pixel?_eq_some (hw ▸ h.1) (hh ▸ h.2)]
    rfl
  · rw [pixel?_eq_none h, pixel?_eq_none (by rwa [← hw, ← hh])]

theorem eq_of_pixel? (hw : a.width = b.width) (hh : a.height = b.height)
    (h : ∀ x y, a.pixel? x y = b.pixel? x y) : a = b := by
  obtain ⟨w, t, p, hp⟩ := a
  obtain ⟨w', t', q, hq⟩ := b
  cases hw
  cases hh
  have : p = q := by
    refine Array.ext (hp.trans hq.symm) ?_
    intro i hi hi'
    -- The pixel at place `i` is in column `i % w` and row `i / w`.
    have hiw : i < w.toNat * t.toNat := hp ▸ hi
    have hw : 0 < w.toNat := Nat.pos_of_mul_pos_right (Nat.zero_lt_of_lt hiw)
    have hx : i % w.toNat < w.toNat := Nat.mod_lt _ hw
    have hy : i / w.toNat < t.toNat := Nat.div_lt_of_lt_mul hiw
    have hplace : i / w.toNat * w.toNat + i % w.toNat = i := by
      rw [Nat.mul_comm]
      exact Nat.div_add_mod i w.toNat
    have hpx := h (i % w.toNat) (i / w.toNat)
    simp only [pixel?, hx, hy, and_self, if_true, hplace] at hpx
    rwa [Array.getElem?_eq_getElem hi, Array.getElem?_eq_getElem hi', Option.some_inj] at hpx
  subst this
  rfl

end Image

namespace Surface

variable {s t : Surface}

/-- Whether a pixel lies in the rectangle with this top left corner. -/
def Inside (x y : Int32) (width height : UInt32) (px py : Nat) : Prop :=
  (x.toInt ≤ px ∧ px < x.toInt + width.toNat) ∧ y.toInt ≤ py ∧ py < y.toInt + height.toNat

instance (x y : Int32) (width height : UInt32) (px py : Nat) :
    Decidable (Inside x y width height px py) :=
  inferInstanceAs (Decidable ((_ ∧ _) ∧ _ ∧ _))

theorem inside_iff {x y : Int32} {width height : UInt32} {px py : Nat} :
    ((x.toInt.toNat ≤ px ∧ px < (x.toInt + width.toNat).toNat) ∧
      y.toInt.toNat ≤ py ∧ py < (y.toInt + height.toNat).toNat) ↔
    Inside x y width height px py := by
  unfold Inside
  omega

theorem eq_of_pixel? (hw : s.width = t.width) (hh : s.height = t.height)
    (hl : s.labels = t.labels) (h : ∀ x y, s.image.pixel? x y = t.image.pixel? x y) : s = t := by
  obtain ⟨a, l⟩ := s
  obtain ⟨b, l'⟩ := t
  cases hl
  cases Image.eq_of_pixel? hw hh h
  rfl

@[simp] theorem labels_fillRect (x y : Int32) (w h : UInt32) (c : Color) :
    (s.fillRect x y w h c).labels = s.labels := rfl

theorem pixel?_fillRect (x y : Int32) (w h : UInt32) (c : Color) (px py : Nat) :
    (s.fillRect x y w h c).image.pixel? px py =
      if Inside x y w h px py then (s.image.pixel? px py).map fun _ => c
      else s.image.pixel? px py := by
  simp only [fillRect, Image.pixel?_paint, inside_iff]

theorem pixel?_drawImage (img : Image) (x y : Int32) (px py : Nat) :
    (s.drawImage img x y).image.pixel? px py =
      if Inside x y img.width img.height px py then
        (s.image.pixel? px py).map fun under =>
          (img.pixelD (px - x.toInt).toNat (py - y.toInt).toNat).onto under
      else s.image.pixel? px py := by
  simp only [drawImage, Image.pixel?_paint, inside_iff]

@[simp] theorem image_pushLabel (l : Label) : (s.pushLabel l).image = s.image := rfl

theorem size_blitWindow {source : Surface} {x y : UInt32}
    (h : s.blitWindow source x y = .ok t) : t.width = s.width ∧ t.height = s.height := by
  obtain ⟨labels, -, h⟩ := bind_eq_ok h
  cases h
  exact ⟨rfl, rfl⟩

end Surface

end TileViewer
