import Std.Data.HashSet
import TileViewer.Tile.Store
import TileViewer.Word

/-!
Which parts of a picture are out of date, in squares several sprites wide. Marking is generous: a
rectangle marks every square it touches and one more to the right and below. Marks are only ever
added; after painting, a fresh grid takes the place of the old one.
-/
namespace TileViewer

/-- The marked squares of a grid, each under the packed key of its column and row. -/
structure DirtyGrid where
  cellWidth : UInt32
  cellHeight : UInt32
  marks : Std.HashSet Int := ∅

namespace DirtyGrid

/-- How many sprites a square spans each way. -/
def spritesPerCell : UInt32 := 5

def ofCellSize (width height : UInt32) : DirtyGrid :=
  { cellWidth := max width 1, cellHeight := max height 1 }

def ofSprite (sprite : UInt32) : Except Overflow DirtyGrid := do
  let side ← Word.times (max sprite 1) spritesPerCell
  return ofCellSize side side

/-- The same grid without marks. -/
def cleared (g : DirtyGrid) : DirtyGrid := { g with marks := ∅ }

/-- How many squares are marked. -/
def size (g : DirtyGrid) : Nat := g.marks.size

def isEmpty (g : DirtyGrid) : Bool := g.marks.isEmpty

/-- The key of the square that holds a pixel. -/
def keyOf (g : DirtyGrid) (x y : Int32) : Except Overflow Int := do
  let column ← Word.quotient x g.cellWidth.toInt32
  let row ← Word.quotient y g.cellHeight.toInt32
  return packedKey column row

def markPixel (g : DirtyGrid) (x y : Int32) : Except Overflow DirtyGrid := do
  let key ← g.keyOf x y
  return { g with marks := g.marks.insert key }

/-- Coordinates one square apart, from `start` to one square past `start + extent`. -/
def samples (start : Int32) (extent cell : UInt32) : List Int32 :=
  (List.range (extent.toNat / cell.toNat + 2)).map fun (i : Nat) =>
    Int32.ofInt (start.toInt + (i * cell.toNat : Nat))

/-- Marks the squares of a rectangle, and one more in each direction. -/
def markRect (g : DirtyGrid) (x y : Int32) (width height : UInt32) : Except Overflow DirtyGrid :=
  (samples x width g.cellWidth).foldlM (fun g px =>
    (samples y height g.cellHeight).foldlM (fun g py => g.markPixel px py) g) g

/-- Whether the square that holds a pixel is marked. -/
def isDirty (g : DirtyGrid) (x y : Int32) : Except Overflow Bool := do
  let key ← g.keyOf x y
  return g.marks.contains key

/-- Adds the marks of a grid with squares of the same size; any other grid is ignored. -/
def absorb (g other : DirtyGrid) : DirtyGrid :=
  if other.cellWidth = g.cellWidth ∧ other.cellHeight = g.cellHeight then
    { g with marks := g.marks.insertMany other.marks }
  else g

end DirtyGrid

end TileViewer
