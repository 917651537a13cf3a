import Std.Data.HashMap
import TileViewer.Tile

/-!
The stacks last seen in the world, under one integer key per coordinate. Rows whose size reaches
`rowStride` are refused. Accepted coordinates may still share a key: column `x`, row `y` has the
key of column `x + 1`, row `y - rowStride`.
-/
namespace TileViewer

/-- The distance between the keys of neighbouring columns. -/
def rowStride : Int := 32768

/-- One integer for a pair of coordinates. -/
def packedKey (x y : Int32) : Int := x.toInt * rowStride + y.toInt

/-- Whether a row is small enough to be stored. -/
def rowFits (y : Int32) : Bool := y.toInt.natAbs < rowStride.natAbs

structure TileStore where
  known : Std.HashMap Int LayerStack := ∅

namespace TileStore

def size (s : TileStore) : Nat := s.known.size

def isEmpty (s : TileStore) : Bool := s.known.isEmpty

/-- Replaces the stack of a cell. A row that does not fit leaves the store as it was. -/
def insert (s : TileStore) (x y : Int32) (stack : LayerStack) : TileStore :=
  if rowFits y then { known := s.known.insert (packedKey x y) stack } else s

def get? (s : TileStore) (x y : Int32) : Option LayerStack :=
  if rowFits y then s.known[packedKey x y]? else none

/-- A lookup finds what was stored last under its key. -/
theorem get?_insert (s : TileStore) (x y x' y' : Int32) (stack : LayerStack) :
    (s.insert x y stack).get? x' y' =
      if rowFits y ∧ rowFits y' ∧ packedKey x y = packedKey x' y' then some stack
      else s.get? x' y' := by
  unfold insert get?
  by_cases hy : rowFits y <;> by_cases hy' : rowFits y' <;>
    simp [hy, hy', Std.HashMap.getElem?_insert]

/-- The image at the bottom of a known cell. -/
def bottom? (s : TileStore) (x y : Int32) : Option UInt32 :=
  (s.get? x y).bind fun stack => stack.head?.map Layer.image

end TileStore

end TileViewer
