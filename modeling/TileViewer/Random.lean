/-! A small generator of numbers that are the same for the same seed, and directions drawn from it. -/
namespace TileViewer

/-- The eight neighbours, clockwise from the top. -/
inductive Direction
  | north
  | northEast
  | east
  | southEast
  | south
  | southWest
  | west
  | northWest
  deriving DecidableEq, Repr

namespace Direction

/-- One step in this direction; `y` grows downwards. -/
def step : Direction → Int32 × Int32
  | north => (0, -1)
  | northEast => (1, -1)
  | east => (1, 0)
  | southEast => (1, 1)
  | south => (0, 1)
  | southWest => (-1, 1)
  | west => (-1, 0)
  | northWest => (-1, -1)

def all : Vector Direction 8 :=
  #v[north, northEast, east, southEast, south, southWest, west, northWest]

end Direction

/-- A linear congruential generator on 32 bits. -/
structure Random where
  state : UInt32
  deriving DecidableEq, Repr

namespace Random

/-- Seed zero counts as one. -/
def ofSeed (seed : UInt32) : Random := ⟨if seed = 0 then 1 else seed⟩

instance : Inhabited Random := ⟨ofSeed 1⟩

/-- The next state, which is also the number drawn. -/
def next (r : Random) : UInt32 × Random :=
  let s := r.state * 1664525 + 1013904223
  (s, ⟨s⟩)

/-- Scales a drawn number to the numbers below `bound`, by its high bits. -/
def scale (drawn bound : UInt32) : UInt32 := ((drawn.toUInt64 * bound.toUInt64) >>> 32).toUInt32

theorem toNat_scale (drawn bound : UInt32) :
    (scale drawn bound).toNat = drawn.toNat * bound.toNat / 0x100000000 := by
  have hm : drawn.toNat * bound.toNat < 0x100000000 * 0x100000000 :=
    Nat.mul_lt_mul'' drawn.toNat_lt bound.toNat_lt
  have hq : drawn.toNat * bound.toNat / 0x100000000 < 0x100000000 := Nat.div_lt_of_lt_mul hm
  simp [scale, UInt64.toNat_mul, Nat.shiftRight_eq_div_pow]
  omega

theorem scale_lt {drawn bound : UInt32} (h : 0 < bound.toNat) :
    (scale drawn bound).toNat < bound.toNat := by
  rw [toNat_scale]
  exact Nat.div_lt_of_lt_mul (Nat.mul_lt_mul_of_pos_right drawn.toNat_lt h)

/-- Draws a number below `bound`, or zero when there is none. -/
def below (r : Random) (bound : UInt32) : UInt32 × Random :=
  let (drawn, r) := r.next
  (scale drawn bound, r)

def direction (r : Random) : Direction × Random :=
  let (drawn, r) := r.next
  (Direction.all.get ⟨(scale drawn 8).toNat, scale_lt (by decide)⟩, r)

end Random

end TileViewer
