import TileViewer.Color

/-!
Rectangles of pixels, row by row from the top left. `paint` is the one way of changing pixels in
place; `pixel?_paint` says what it does to each of them.
-/
namespace TileViewer

/-- What lies inside a grid has a place in its row by row order. -/
theorem place_lt {width height x y : Nat} (hx : x < width) (hy : y < height) :
    y * width + x < width * height := by
  have : (y + 1) * width ≤ height * width := Nat.mul_le_mul_right _ hy
  rw [Nat.add_one_mul, Nat.mul_comm height] at this
  omega

structure Image where
  width : UInt32
  height : UInt32
  pixels : Array Color
  size_eq : pixels.size = width.toNat * height.toNat

namespace Image

/-- One colour everywhere. -/
def filled (width height : UInt32) (c : Color) : Image where
  width := width
  height := height
  pixels := Array.replicate (width.toNat * height.toNat) c
  size_eq := Array.size_replicate

/-- An image of untouched pixels. -/
def blank (width height : UInt32) : Image := filled width height Color.clear

/-- The image whose pixel in column `x` and row `y` is `f x y`. -/
def ofFn (width height : UInt32) (f : Nat → Nat → Color) : Image where
  width := width
  height := height
  pixels := Array.ofFn (n := width.toNat * height.toNat) fun i =>
    f (i.val % width.toNat) (i.val / width.toNat)
  size_eq := Array.size_ofFn

/-- The pixel in column `x` and row `y`, if the image has one there. -/
def pixel? (img : Image) (x y : Nat) : Option Color :=
  if x < img.width.toNat ∧ y < img.height.toNat then img.pixels[y * img.width.toNat + x]?
  else none

/-- The pixel in column `x` and row `y`; an untouched one outside the image. -/
def pixelD (img : Image) (x y : Nat) : Color := (img.pixel? x y).getD Color.clear

theorem pixel?_filled (width height : UInt32) (c : Color) (x y : Nat) :
    (filled width height c).pixel? x y =
      if x < width.toNat ∧ y < height.toNat then some c else none := by
  unfold pixel? filled
  by_cases h : x < width.toNat ∧ y < height.toNat
  · rw [if_pos h, if_pos h, Array.getElem?_replicate, if_pos (place_lt h.1 h.2)]
  · rw [if_neg h, if_neg h]

/-- Changes `count` pixels of the row that begins at `base`, from column `x` on. -/
def paintRow (f : Nat → Color → Color) (base : Nat) : Nat → Nat → Array Color → Array Color
  | 0, _, px => px
  | count + 1, x, px => paintRow f base count (x + 1) (px.modify (base + x) (f x))

/-- Changes `columns` pixels from column `x` on, in `count` rows from row `y` on. -/
def paintRows (f : Nat → Nat → Color → Color) (stride x columns : Nat) :
    Nat → Nat → Array Color → Array Color
  | 0, _, px => px
  | count + 1, y, px =>
    paintRows f stride x columns count (y + 1)
      (paintRow (fun x => f x y) (y * stride) columns x px)

theorem size_paintRow (f : Nat → Color → Color) (base count x : Nat) (px : Array Color) :
    (paintRow f base count x px).size = px.size := by
  induction count generalizing x px with
  | zero => rfl
  | succ count ih => rw [paintRow, ih, Array.size_modify]

theorem size_paintRows (f : Nat → Nat → Color → Color) (stride x columns count y : Nat)
    (px : Array Color) : (paintRows f stride x columns count y px).size = px.size := by
  induction count generalizing y px with
  | zero => rfl
  | succ count ih => rw [paintRows, ih, size_paintRow]

/-- Changes the pixels of columns `x0` to `x1` and rows `y0` to `y1`, ends excluded, as far as the
image reaches. -/
def paint (img : Image) (x0 y0 x1 y1 : Nat) (f : Nat → Nat → Color → Color) : Image :=
  match img with
  | ⟨width, height, pixels, size_eq⟩ =>
    { width, height
      pixels := paintRows f width.toNat x0 (min x1 width.toNat - x0) (min y1 height.toNat - y0) y0
        pixels
      size_eq := by rw [size_paintRows, size_eq] }

theorem getElem?_paintRow (f : Nat → Color → Color) (base count x i : Nat) (px : Array Color) :
    (paintRow f base count x px)[i]? =
      if base + x ≤ i ∧ i < base + x + count then px[i]?.map (f (i - base)) else px[i]? := by
  induction count generalizing x px with
  | zero => rw [paintRow, if_neg (by omega)]
  | succ count ih =>
    rw [paintRow, ih, Array.getElem?_modify]
    by_cases hi : base + x = i
    · subst hi
      rw [if_neg (by omega), if_pos rfl, if_pos (by omega), Nat.add_sub_cancel_left]
    · rw [if_neg hi]
      by_cases hin : base + x ≤ i ∧ i < base + x + (count + 1)
      · rw [if_pos (by omega), if_pos hin]
      · rw [if_neg (by omega), if_neg hin]

theorem getElem?_paintRows (f : Nat → Nat → Color → Color) {stride x columns cx : Nat}
    (hcx : cx < stride) (hfit : columns = 0 ∨ x + columns ≤ stride) (count y cy : Nat)
    (px : Array Color) :
    (paintRows f stride x columns count y px)[cy * stride + cx]? =
      if (x ≤ cx ∧ cx < x + columns) ∧ y ≤ cy ∧ cy < y + count then
        px[cy * stride + cx]?.map (f cx cy)
      else px[cy * stride + cx]? := by
  induction count generalizing y px with
  | zero => rw [paintRows, if_neg (by omega)]
  | succ count ih =>
    rw [paintRows, ih, getElem?_paintRow]
    rcases Nat.lt_trichotomy cy y with hlt | rfl | hgt
    · have : (cy + 1) * stride ≤ y * stride := Nat.mul_le_mul_right _ hlt
      rw [Nat.add_one_mul] at this
      rw [if_neg (by omega), if_neg (by omega), if_neg (by omega)]
    · rw [if_neg (by omega), Nat.add_sub_cancel_left]
      by_cases hx : x ≤ cx ∧ cx < x + columns
      · rw [if_pos (by omega), if_pos (by omega)]
      · rw [if_neg (by omega), if_neg (by omega)]
    · have : (y + 1) * stride ≤ cy * stride := Nat.mul_le_mul_right _ hgt
      rw [Nat.add_one_mul] at this
      rw [if_neg (c := _ ≤ _ ∧ _ < y * stride + x + columns) (by omega)]
      by_cases hx : (x ≤ cx ∧ cx < x + columns) ∧ y + 1 ≤ cy ∧ cy < y + 1 + count
      · rw [if_pos hx, if_pos (by omega)]
      · rw [if_neg hx, if_neg (by omega)]

/-- Painting changes the pixels of the rectangle by `f` and no others. -/
theorem pixel?_paint (img : Image) (x0 y0 x1 y1 : Nat) (f : Nat → Nat → Color → Color)
    (x y : Nat) :
    (img.paint x0 y0 x1 y1 f).pixel? x y =
      if (x0 ≤ x ∧ x < x1) ∧ y0 ≤ y ∧ y < y1 then (img.pixel? x y).map (f x y)
      else img.pixel? x y := by
  by_cases hin : x < img.width.toNat ∧ y < img.height.toNat
  · have painted : (img.paint x0 y0 x1 y1 f).pixel? x y =
        (paintRows f img.width.toNat x0 (min x1 img.width.toNat - x0)
          (min y1 img.height.toNat - y0) y0 img.pixels)[y * img.width.toNat + x]? := if_pos hin
    have before : img.pixel? x y = img.pixels[y * img.width.toNat + x]? := if_pos hin
    rw [painted, before, getElem?_paintRows f hin.1 (by omega)]
    by_cases hrect : (x0 ≤ x ∧ x < x1) ∧ y0 ≤ y ∧ y < y1
    · rw [if_pos hrect, if_pos (by omega)]
    · rw [if_neg hrect, if_neg (by omega)]
  · have painted : (img.paint x0 y0 x1 y1 f).pixel? x y = none := if_neg hin
    have before : img.pixel? x y = none := if_neg hin
    rw [painted, before, Option.map_none, ite_self]

end Image

end TileViewer
