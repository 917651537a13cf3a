import TileViewer.Json.Basic
import TileViewer.Word

/-!
What strings and numbers mean. A string needs its surrogates in pairs. A number without fraction
and exponent is an integer, except minus zero; any number is a float if it is not too large.
-/
namespace TileViewer

namespace Json

namespace Literal

/-- Whether the string is written without any backslash. -/
def isPlain (s : Literal) : Bool :=
  s.parts.all fun
    | .plain _ => true
    | _ => false

def isHighSurrogate (u : UInt16) : Bool := 0xD800 ≤ u && u ≤ 0xDBFF

def isLowSurrogate (u : UInt16) : Bool := 0xDC00 ≤ u && u ≤ 0xDFFF

/-- The characters of a string, after the ones in `done`, which are listed last one first. A high
surrogate counts only together with the low one that follows it. -/
def chars? (done : List Char) : List StringPart → Option (List Char)
  | [] => some done.reverse
  | .plain c :: rest => chars? (c :: done) rest
  | .short c :: rest => chars? (c :: done) rest
  | .unit u :: rest =>
    if isLowSurrogate u then none
    else if isHighSurrogate u then
      match rest with
      | .unit v :: rest =>
        if isLowSurrogate v then
          chars? (Char.ofNat (0x10000 + (u.toNat - 0xD800) * 0x400 + (v.toNat - 0xDC00)) :: done)
            rest
        else none
      | _ => none
    else chars? (Char.ofNat u.toNat :: done) rest

/-- The text that a string means. -/
def text? (s : Literal) : Option String := (chars? [] s.parts).map String.ofList

end Literal

namespace Numeral

def isInteger (n : Numeral) : Bool := n.fraction.isEmpty && n.exponent.isNone

/-- The number that decimal digits spell. -/
def ofDigits (ds : List Nat) : Nat := ds.foldl (fun m d => 10 * m + d) 0

/-- The integer that a number means. Minus zero is none. -/
def int? (n : Numeral) : Option Int :=
  if n.isInteger then
    let m := ofDigits n.whole
    if n.negative then if m = 0 then none else some (-m) else some m
  else none

/-- The word that a number means, if it lies in the range. -/
def word? {α : Type} [Word α] (n : Numeral) : Option α :=
  n.int?.bind fun z => (Word.fit .add z).toOption

/-- The largest significand, the last word of 64 bits. -/
def maxSignificand : Nat := 0xFFFFFFFFFFFFFFFF

/-- Takes digits into a significand for as long as they fit, and gives the others. -/
def significand (m : Nat) : List Nat → Nat × List Nat
  | [] => (m, [])
  | d :: ds => if 10 * m + d ≤ maxSignificand then significand (10 * m + d) ds else (m, d :: ds)

/-- The largest power of ten that a float can hold. -/
def maxPower : Nat := 308

/-- `x * 10 ^ e`, in one rounding step if the power is one that a float can hold. A smaller power
takes several divisions; a result too large for a float is none. -/
def scale? (x : Float) (e : Int) : Option Float :=
  if 0 ≤ e then
    if e ≤ maxPower then
      let y := x * Float.ofScientific 1 false e.toNat
      if y.isInf then none else some y
    else if x == 0.0 then some x else none
  else if -maxPower ≤ e then some (x / Float.ofScientific 1 false (-e).toNat)
  else if x == 0.0 then some x
  else scale? (x / Float.ofScientific 1 false maxPower) (e + maxPower)
termination_by (-e).toNat
decreasing_by
  unfold maxPower at *
  omega

/-- The largest exponent that is read digit by digit. -/
def maxExponent : Nat := 0x7FFFFFFF

/-- The float that a number means, without its sign. The significand holds as many digits as fit;
whole digits after those count as zeros, and later fraction digits are left out. -/
def magnitude? (n : Numeral) : Option Float :=
  let (m, dropped) := significand 0 n.whole
  let (m, left) := significand m n.fraction
  let x := m.toUInt64.toFloat
  let shift : Int := dropped.length - (n.fraction.length - left.length : Nat)
  match n.exponent with
  | none => scale? x shift
  | some (negative, ds) =>
    let e := ofDigits ds
    if maxExponent < e then
      if m = 0 ∨ negative then some 0.0 else none
    else scale? x (if negative then shift - e else shift + e)

/-- The float that a number means. -/
def float? (n : Numeral) : Option Float :=
  n.magnitude?.map fun x => if n.negative then -x else x

end Numeral

/-- Whether all strings and numbers of a value have a meaning and its containers are nested at most
`levels` deep. -/
def isMeaningful : Nat → Json → Bool
  | _, .scalar (.number n) => n.float?.isSome
  | _, .scalar (.string s) => s.text?.isSome
  | _, .scalar _ => true
  | 0, _ => false
  | levels + 1, .array items => items.all (isMeaningful levels)
  | levels + 1, .object members =>
    members.all fun (k, v) => k.text?.isSome && isMeaningful levels v

end Json

end TileViewer
