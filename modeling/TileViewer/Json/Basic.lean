/-!
JSON values as they are written: strings and numbers keep their spelling, so that a value that is
only skipped need not have a meaning.
-/
namespace TileViewer

namespace Json

/-- One element of a string: a character that stands for itself, one written as a backslash and a
letter, or a UTF-16 unit written as four hexadecimal digits. -/
inductive StringPart
  | plain (c : Char)
  | short (c : Char)
  | unit (u : UInt16)
  deriving DecidableEq, Repr

/-- A string between its quotes. -/
structure Literal where
  parts : List StringPart
  deriving DecidableEq, Repr, Inhabited

/-- A number, digit by digit. There is a fraction if it has digits. -/
structure Numeral where
  negative : Bool := false
  whole : List Nat
  fraction : List Nat := []
  /-- The exponent's sign, true for minus, and its digits. -/
  exponent : Option (Bool × List Nat) := none
  deriving DecidableEq, Repr

inductive Scalar
  | null
  | bool (b : Bool)
  | number (n : Numeral)
  | string (s : Literal)
  deriving DecidableEq, Repr

end Json

inductive Json
  | scalar (s : Json.Scalar)
  | array (items : List Json)
  | object (members : List (Json.Literal × Json))
  deriving Repr

namespace Json

abbrev null : Json := .scalar .null

abbrev bool (b : Bool) : Json := .scalar (.bool b)

abbrev number (n : Numeral) : Json := .scalar (.number n)

abbrev string (s : Literal) : Json := .scalar (.string s)

instance : Inhabited Json := ⟨null⟩

end Json

end TileViewer
