import TileViewer.Tile

/-! One report of the server: the part of the world in view, what changed in it, and who is there. -/
namespace TileViewer

/-- A rectangle of new stacks, placed relative to the frame's view and listed row by row. -/
structure Patch where
  x : Int32
  y : Int32
  width : UInt32
  height : UInt32
  cells : List LayerStack
  deriving DecidableEq, Repr

/-- How many listed cells lie inside the declared rectangle. -/
def Patch.usableCells (p : Patch) : Nat :=
  min p.cells.length (min (p.width.toNat * p.height.toNat) 0xFFFFFFFFFFFFFFFF)

structure Creature where
  x : Int32
  y : Int32
  hp : Int64
  maxHp : Int64
  name : Option String
  deriving DecidableEq, Repr

/-- The share of health left, between zero and one; zero when there is no health to have. -/
def Creature.health (c : Creature) : Float :=
  if c.maxHp ≤ 0 then 0.0
  else
    let share := c.hp.toNatClampNeg.toUInt64.toFloat / c.maxHp.toNatClampNeg.toUInt64.toFloat
    if share < 1.0 then share else 1.0

structure Frame where
  seq : UInt64
  viewX : Int32
  viewY : Int32
  viewWidth : UInt32
  viewHeight : UInt32
  patches : List Patch := []
  creatures : List Creature := []
  /-- Repaint every visible cell, changed or not. -/
  full : Bool := false
  ticks : Option UInt64 := none
  deriving DecidableEq, Repr

end TileViewer
