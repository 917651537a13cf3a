import TileViewer.Word

/-!
Plain text: without the blanks at its ends, which may be of any script, and as an integer in decimal
digits, with an optional sign.
-/
namespace TileViewer

namespace Text

/-- The ranges of the Unicode property White_Space. -/
def blankRanges : List (Nat × Nat) :=
  [(0x9, 0xD), (0x20, 0x20), (0x85, 0x85), (0xA0, 0xA0), (0x1680, 0x1680), (0x2000, 0x200A),
    (0x2028, 0x2029), (0x202F, 0x202F), (0x205F, 0x205F), (0x3000, 0x3000)]

def isBlank (c : Char) : Bool := blankRanges.any fun (lo, hi) => lo ≤ c.toNat && c.toNat ≤ hi

/-- The characters without the blanks at both ends. -/
def trimChars (cs : List Char) : List Char :=
  ((cs.dropWhile isBlank).reverse.dropWhile isBlank).reverse

def trim (s : String) : String := String.ofList (trimChars s.toList)

/-- Every blank of ASCII is one. -/
theorem isBlank_of_isWhitespace {c : Char} (h : c.isWhitespace) : isBlank c := by
  simp only [Char.isWhitespace, Bool.or_eq_true, decide_eq_true_eq] at h
  rcases h with ((rfl | rfl) | rfl) | rfl <;> rfl

/-- The number that digits spell. There must be one digit at least. -/
def nat? (cs : List Char) : Option Nat :=
  if cs.isEmpty ∨ cs.any (!·.isDigit) then none
  else some (cs.foldl (fun n c => 10 * n + (c.toNat - '0'.toNat)) 0)

/-- The word that a text spells. A plus sign is always allowed, a minus sign only for types with
negative values. -/
def word? {α : Type} [Word α] (s : String) : Option α :=
  let z? : Option Int := match s.toList with
    | '+' :: ds => (nat? ds).map Int.ofNat
    | '-' :: ds => if Word.lo α < 0 then (nat? ds).map fun n => -(n : Int) else none
    | ds => (nat? ds).map Int.ofNat
  z?.bind fun z => (Word.fit .add z).toOption

end Text

end TileViewer
