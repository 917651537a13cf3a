import TileViewer.Decimal.Shortest
import TileViewer.Json.Basic

/-!
Values as text, without any blanks. Only quotes, backslashes and control characters are escaped.
Integers are written in full; floats with the fewest digits that tell them apart, and always with a
point or an exponent.
-/
namespace TileViewer

namespace Json

def hexDigit (n : Nat) : Char :=
  if n < 10 then Char.ofNat (n + '0'.toNat) else Char.ofNat (n - 10 + 'a'.toNat)

namespace StringPart

/-- How a character is written inside a string. -/
def ofChar (c : Char) : StringPart :=
  if c = '"' ∨ c = '\\' ∨ c = '\x08' ∨ c = '\t' ∨ c = '\n' ∨ c = '\x0c' ∨ c = '\r' then short c
  else if c < ' ' then unit c.toNat.toUInt16
  else plain c

/-- The letter after the backslash. -/
def letter : Char → Char
  | '\x08' => 'b'
  | '\t' => 't'
  | '\n' => 'n'
  | '\x0c' => 'f'
  | '\r' => 'r'
  | c => c

def render : StringPart → List Char
  | plain c => [c]
  | short c => ['\\', letter c]
  | unit u =>
    let n := u.toNat
    ['\\', 'u', hexDigit (n / 4096), hexDigit (n / 256 % 16), hexDigit (n / 16 % 16),
      hexDigit (n % 16)]

end StringPart

namespace Literal

def ofString (s : String) : Literal := ⟨s.toList.map StringPart.ofChar⟩

def render (s : Literal) : List Char := '"' :: (s.parts.flatMap StringPart.render ++ ['"'])

end Literal

namespace Numeral

def ofInt (z : Int) : Numeral := { negative := z < 0, whole := Decimal.digitsOf z.natAbs }

/-- Floats from `10 ^ (lowPoint - 1)` on and below `10 ^ highPoint` are written without an
exponent. -/
def lowPoint : Int := -4

def highPoint : Int := 16

/-- The number with these digits and this place of the point. -/
def ofDecimal (negative : Bool) (d : Decimal.Digits) : Numeral :=
  let ds := d.digits
  if 0 < d.point ∧ d.point ≤ highPoint then
    let n := d.point.toNat
    let fraction := ds.drop n
    { negative
      whole := ds.take n ++ List.replicate (n - ds.length) 0
      fraction := if fraction.isEmpty then [0] else fraction }
  else if lowPoint ≤ d.point ∧ d.point ≤ 0 then
    { negative, whole := [0], fraction := List.replicate (-d.point).toNat 0 ++ ds }
  else
    let e := d.point - 1
    { negative, whole := ds.take 1, fraction := ds.drop 1
      exponent := some (e < 0, Decimal.digitsOf e.natAbs) }

/-- The number of a finite float. -/
def ofFloat (x : Float) : Numeral :=
  let negative := x.toBits >>> 63 = 1
  if x == 0.0 then { negative, whole := [0], fraction := [0] }
  else ofDecimal negative (Decimal.shortest x)

def renderDigits (ds : List Nat) : List Char := ds.map fun d => Char.ofNat (d + '0'.toNat)

def render (n : Numeral) : List Char :=
  (if n.negative then ['-'] else []) ++ renderDigits n.whole ++
    (if n.fraction.isEmpty then [] else '.' :: renderDigits n.fraction) ++
    match n.exponent with
    | none => []
    | some (negative, ds) => 'e' :: ((if negative then ['-'] else []) ++ renderDigits ds)

end Numeral

def Scalar.render : Scalar → List Char
  | .null => "null".toList
  | .bool true => "true".toList
  | .bool false => "false".toList
  | .number n => n.render
  | .string s => s.render

mutual

def renderChars : Json → List Char
  | .scalar s => s.render
  | .array items => '[' :: renderItems items
  | .object members => '{' :: renderMembers members

/-- The items of an array and its closing bracket. -/
def renderItems : List Json → List Char
  | [] => [']']
  | [v] => renderChars v ++ [']']
  | v :: rest => renderChars v ++ ',' :: renderItems rest

/-- The members of an object and its closing brace. -/
def renderMembers : List (Literal × Json) → List Char
  | [] => ['}']
  | [(k, v)] => k.render ++ ':' :: (renderChars v ++ ['}'])
  | (k, v) :: rest => k.render ++ ':' :: (renderChars v ++ ',' :: renderMembers rest)

end

def render (v : Json) : String := String.ofList v.renderChars

/-- A value for a text. -/
def ofText (s : String) : Json := string (Literal.ofString s)

def ofInt (z : Int) : Json := number (Numeral.ofInt z)

/-- A value for a float; there is none but null for an infinite one. -/
def ofFloat (x : Float) : Json := if x.isFinite then number (Numeral.ofFloat x) else null

/-- A value for what may be absent. -/
def ofOption {α : Type} (f : α → Json) : Option α → Json
  | none => null
  | some a => f a

/-- An object with these members, in this order. -/
def ofFields (fields : List (String × Json)) : Json :=
  object (fields.map fun (k, v) => (Literal.ofString k, v))

end Json

end TileViewer
