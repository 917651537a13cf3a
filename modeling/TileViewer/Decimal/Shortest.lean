/-!
The shortest decimal digits that stand for one float and no other. Numbers are `m * 2 ^ q` exactly;
the decimals that round to such a number are those no further away than half the distance to its
neighbours, and at exactly half the distance only if `m` is even.
-/
namespace TileViewer

namespace Decimal

/-- Decimal digits, the first one just behind the point, and the power of ten that moves the point
to its place. -/
structure Digits where
  digits : List Nat
  point : Int
  deriving DecidableEq, Repr

/-- The digits of a number, the highest first. -/
def digitsOf (n : Nat) : List Nat :=
  if n < 10 then [n] else digitsOf (n / 10) ++ [n % 10]
termination_by n
decreasing_by omega

/-- A positive number `value / unit` with the ends of the interval that rounds to it. -/
structure Rounded where
  low : Nat
  value : Nat
  high : Nat
  unit : Nat
  /-- Whether the ends belong to the interval. -/
  closed : Bool

/-- The interval of `m * 2 ^ q`. Below a power of two the neighbours are twice as near, unless the
exponent is the least one. -/
def Rounded.ofBinary (m : Nat) (q : Int) (powerOfTwo : Bool) : Rounded :=
  let up := 1 <<< q.toNat
  { low := (4 * m - if powerOfTwo then 1 else 2) * up
    value := 4 * m * up
    high := (4 * m + 2) * up
    unit := 4 <<< (-q).toNat
    closed := m % 2 = 0 }

/-- The interval in units of `10 ^ e`. -/
def Rounded.inUnits (r : Rounded) (e : Int) : Rounded :=
  let up := Nat.pow 10 (-e).toNat
  { r with
    low := r.low * up, value := r.value * up, high := r.high * up
    unit := r.unit * Nat.pow 10 e.toNat }

def Rounded.contains (r : Rounded) (n : Nat) : Bool :=
  if r.closed then r.low ≤ n * r.unit && n * r.unit ≤ r.high
  else r.low < n * r.unit && n * r.unit < r.high

/-- The whole number in the interval that is nearest to the value, an even one if two are. -/
def Rounded.nearest? (r : Rounded) : Option Nat :=
  let below := r.value / r.unit
  let twice := 2 * (r.value % r.unit)
  let up := r.unit < twice || (r.unit = twice && below % 2 = 1)
  match r.contains below, r.contains (below + 1) with
  | true, true => some (if up then below + 1 else below)
  | true, false => some below
  | false, true => some (below + 1)
  | false, false => none

/-- How many places before the point the first digit of `value / unit` has; zero or less if it
comes after the point. -/
def Rounded.leading (r : Rounded) : Int :=
  if r.unit ≤ r.value then (digitsOf (r.value / r.unit)).length
  else
    let zeros := (List.range 400).takeWhile fun i => r.value * Nat.pow 10 (i + 1) < r.unit
    Int.negOfNat zeros.length

/-- The decimal with the fewest digits in the interval. Seventeen digits are always enough for a
float. -/
def Rounded.shortest (r : Rounded) : Digits :=
  let point := r.leading
  let found := (List.range 17).findSome? fun (n : Nat) =>
    (r.inUnits (point - (n + 1 : Nat))).nearest?.map fun d => (d, n + 1)
  match found with
  | none => ⟨[0], 0⟩
  | some (d, n) =>
    let ds := digitsOf d
    ⟨(ds.reverse.dropWhile (· = 0)).reverse, point + (ds.length - n : Nat)⟩

/-- The bit that the significand of a float has besides its written ones. -/
def hiddenBit : Nat := 0x10000000000000

/-- The shortest digits of a finite float other than zero, without its sign. -/
def shortest (x : Float) : Digits :=
  let bits := x.toBits.toNat % 0x8000000000000000
  let exponent : Nat := bits / hiddenBit
  let fraction := bits % hiddenBit
  let r := if exponent = 0 then Rounded.ofBinary fraction (-1074) false
    else
      Rounded.ofBinary (hiddenBit + fraction) ((exponent : Int) - 1075)
        (fraction = 0 && 1 < exponent)
  r.shortest

end Decimal

end TileViewer
