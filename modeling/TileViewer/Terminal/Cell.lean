import TileViewer.Image
import TileViewer.Word

/-! A terminal screen as a grid of coloured characters. -/
namespace TileViewer

/-- A colour as a terminal takes it. -/
structure Rgb where
  r : UInt8
  g : UInt8
  b : UInt8
  deriving DecidableEq, Repr, Inhabited

def Color.toRgb (c : Color) : Rgb := ⟨c.r, c.g, c.b⟩

structure Cell where
  char : Char
  fg : Rgb
  bg : Rgb
  deriving DecidableEq, Repr

/-- A blank in light grey on black. -/
def Cell.blank : Cell := ⟨' ', ⟨220, 220, 220⟩, ⟨0, 0, 0⟩⟩

/-- Cells row by row, from the top left. -/
structure CellGrid where
  width : UInt16
  height : UInt16
  cells : Array Cell
  size_eq : cells.size = width.toNat * height.toNat
  deriving DecidableEq

namespace CellGrid

def blank (width height : UInt16) : CellGrid where
  width := width
  height := height
  cells := Array.replicate (width.toNat * height.toNat) Cell.blank
  size_eq := Array.size_replicate

/-- The grid whose cell in column `x` and row `y` is `f x y`. -/
def ofFn (width height : UInt16) (f : Nat → Nat → Cell) : CellGrid where
  width := width
  height := height
  cells := Array.ofFn (n := width.toNat * height.toNat) fun i =>
    f (i.val % width.toNat) (i.val / width.toNat)
  size_eq := Array.size_ofFn

/-- Another size. The cells keep their place in the row by row order, not in the grid; what is
missing is blank. -/
def resize (g : CellGrid) (width height : UInt16) : CellGrid where
  width := width
  height := height
  cells := Array.ofFn (n := width.toNat * height.toNat) fun i => g.cells[i.val]?.getD Cell.blank
  size_eq := Array.size_ofFn

/-- The cell in column `x` and row `y`, if the grid has one there. -/
def get? (g : CellGrid) (x y : UInt16) : Option Cell :=
  if x < g.width ∧ y < g.height then g.cells[y.toNat * g.width.toNat + x.toNat]? else none

/-- Replaces a cell. Outside the grid nothing happens. -/
def set (g : CellGrid) (x y : UInt16) (c : Cell) : CellGrid :=
  if x < g.width ∧ y < g.height then
    match g with
    | ⟨width, height, cells, size_eq⟩ =>
      { width, height
        cells := cells.setIfInBounds (y.toNat * width.toNat + x.toNat) c
        size_eq := by rw [Array.size_setIfInBounds, size_eq] }
  else g

theorem get?_ofFn (width height : UInt16) (f : Nat → Nat → Cell) (x y : UInt16) :
    (ofFn width height f).get? x y =
      if x < width ∧ y < height then some (f x.toNat y.toNat) else none := by
  unfold get? ofFn
  by_cases h : x < width ∧ y < height
  · have hx : x.toNat < width.toNat := h.1
    have hy : y.toNat < height.toNat := h.2
    have hw : 0 < width.toNat := Nat.zero_lt_of_lt hx
    rw [if_pos h, if_pos h, Array.getElem?_ofFn, dif_pos (place_lt hx hy)]
    simp only [Nat.mul_comm y.toNat, Nat.mul_add_mod, Nat.mul_add_div hw, Nat.mod_eq_of_lt hx,
      Nat.div_eq_of_lt hx, Nat.add_zero]
  · rw [if_neg h, if_neg h]

/-- Writes characters from place `i` of a text on, where place `0` is column `x`. Without a
background each cell keeps its own. The text ends at the right edge. -/
def putChars (x y : UInt16) (fg : Rgb) (bg : Option Rgb) : Nat → List Char → CellGrid → CellGrid
  | _, [], g => g
  | i, c :: cs, g =>
    match Word.plus x i.toUInt16 with
    | .error _ => g
    | .ok column =>
      if g.width ≤ column then g
      else
        match g.get? column y with
        | none => g
        | some under =>
          putChars x y fg bg (i + 1) cs (g.set column y ⟨c, fg, bg.getD under.bg⟩)

/-- Writes a text that begins at `(x, y)`. -/
def putText (g : CellGrid) (x y : UInt16) (text : String) (fg : Rgb) (bg : Option Rgb) : CellGrid :=
  putChars x y fg bg 0 text.toList g

end CellGrid

end TileViewer
