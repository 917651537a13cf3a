import TileViewer.Json.Basic

/-!
JSON text as a sequence of tokens. Between tokens only blanks, tabs and line ends are allowed.
Numbers and strings are as long as they can be.
-/
namespace TileViewer

namespace Json

inductive Token
  | openObject
  | closeObject
  | openArray
  | closeArray
  | colon
  | comma
  | scalar (s : Scalar)
  deriving DecidableEq, Repr

namespace Token

def isBlank (c : Char) : Bool := c = ' ' || c = '\t' || c = '\n' || c = '\r'

/-- The value of a hexadecimal digit, in either case. -/
def hexValue? (c : Char) : Option Nat :=
  if '0' ≤ c ∧ c ≤ '9' then some (c.toNat - '0'.toNat)
  else if 'a' ≤ c ∧ c ≤ 'f' then some (c.toNat - 'a'.toNat + 10)
  else if 'A' ≤ c ∧ c ≤ 'F' then some (c.toNat - 'A'.toNat + 10)
  else none

def hexUnit? (a b c d : Char) : Option UInt16 := do
  return ((((← hexValue? a) * 16 + (← hexValue? b)) * 16 + (← hexValue? c)) * 16 +
    (← hexValue? d)).toUInt16

/-- The character meant by a letter after a backslash. -/
def unescape? : Char → Option Char
  | '"' => some '"'
  | '\\' => some '\\'
  | '/' => some '/'
  | 'b' => some '\x08'
  | 'f' => some '\x0c'
  | 'n' => some '\n'
  | 'r' => some '\r'
  | 't' => some '\t'
  | _ => none

/-- Reads a string whose opening quote is gone, and gives what follows it. `parts` are the elements
read so far, last one first. -/
def string? (parts : List StringPart) : List Char → Option (Literal × List Char)
  | [] => none
  | '"' :: rest => some (⟨parts.reverse⟩, rest)
  | '\\' :: 'u' :: a :: b :: c :: d :: rest =>
    match hexUnit? a b c d with
    | none => none
    | some u => string? (.unit u :: parts) rest
  | '\\' :: c :: rest =>
    match unescape? c with
    | none => none
    | some e => string? (.short e :: parts) rest
  | c :: rest => if c < ' ' then none else string? (.plain c :: parts) rest

def isDigit (c : Char) : Bool := '0' ≤ c && c ≤ '9'

/-- The digits that a text begins with, and what follows them. -/
def digits (cs : List Char) : List Nat × List Char :=
  ((cs.takeWhile isDigit).map fun c => c.toNat - '0'.toNat, cs.dropWhile isDigit)

/-- An optional minus sign. -/
def minus : List Char → Bool × List Char
  | '-' :: rest => (true, rest)
  | cs => (false, cs)

/-- Digits without a needless zero in front. -/
def whole? (cs : List Char) : Option (List Nat × List Char) :=
  match digits cs with
  | ([], _) => none
  | (0 :: _ :: _, _) => none
  | found => some found

/-- A point and at least one digit, or nothing at all. -/
def fraction? : List Char → Option (List Nat × List Char)
  | '.' :: rest =>
    match digits rest with
    | ([], _) => none
    | found => some found
  | cs => some ([], cs)

/-- The sign of an exponent, true for minus. -/
def exponentSign : List Char → Bool × List Char
  | '-' :: rest => (true, rest)
  | '+' :: rest => (false, rest)
  | cs => (false, cs)

/-- A letter `e` with a sign and at least one digit, or nothing at all. -/
def exponent? : List Char → Option (Option (Bool × List Nat) × List Char)
  | c :: rest =>
    if c = 'e' ∨ c = 'E' then
      let (negative, rest) := exponentSign rest
      match digits rest with
      | ([], _) => none
      | (ds, rest) => some (some (negative, ds), rest)
    else some (none, c :: rest)
  | [] => some (none, [])

def number? (cs : List Char) : Option (Numeral × List Char) := do
  let (negative, cs) := minus cs
  let (whole, cs) ← whole? cs
  let (fraction, cs) ← fraction? cs
  let (exponent, cs) ← exponent? cs
  return ({ negative, whole, fraction, exponent }, cs)

/-- What follows a word, if the text begins with it. -/
def word? (word : List Char) (cs : List Char) : Option (List Char) :=
  match word, cs with
  | [], cs => some cs
  | w :: word, c :: cs => if w = c then word? word cs else none
  | _ :: _, [] => none

/-- Reads one token that begins with `c`. -/
def next? (c : Char) (cs : List Char) : Option (Token × List Char) :=
  match c with
  | '{' => some (openObject, cs)
  | '}' => some (closeObject, cs)
  | '[' => some (openArray, cs)
  | ']' => some (closeArray, cs)
  | ':' => some (colon, cs)
  | ',' => some (comma, cs)
  | '"' => (string? [] cs).map fun (s, rest) => (scalar (.string s), rest)
  | 'n' => (word? ['u', 'l', 'l'] cs).map fun rest => (scalar .null, rest)
  | 't' => (word? ['r', 'u', 'e'] cs).map fun rest => (scalar (.bool true), rest)
  | 'f' => (word? ['a', 'l', 's', 'e'] cs).map fun rest => (scalar (.bool false), rest)
  | _ => (number? (c :: cs)).map fun (n, rest) => (scalar (.number n), rest)

theorem string?_length {parts : List StringPart} {cs rest : List Char} {s : Literal}
    (h : string? parts cs = some (s, rest)) : rest.length < cs.length := by
  fun_induction string? parts cs with
  | case1 => cases h
  | case2 => cases h; simp
  | case3 => cases h
  | case4 _ _ _ _ _ _ _ _ ih =>
    have := ih h
    simp only [List.length_cons]
    omega
  | case5 => cases h
  | case6 _ _ _ _ _ _ ih =>
    have := ih h
    simp only [List.length_cons]
    omega
  | case7 => cases h
  | case8 _ _ _ _ _ _ _ ih =>
    have := ih h
    simp only [List.length_cons]
    omega

theorem digits_length (cs : List Char) : (digits cs).2.length + (digits cs).1.length = cs.length := by
  have h := congrArg List.length (List.takeWhile_append_dropWhile (p := isDigit) (l := cs))
  simp only [List.length_append] at h
  simp only [digits, List.length_map]
  omega

theorem minus_length (cs : List Char) : (minus cs).2.length ≤ cs.length := by
  unfold minus
  split <;> simp

theorem whole?_length {cs rest : List Char} {ds : List Nat} (h : whole? cs = some (ds, rest)) :
    rest.length < cs.length := by
  have hl := digits_length cs
  unfold whole? at h
  generalize digits cs = found at h hl
  obtain ⟨ds', rest'⟩ := found
  split at h
  · cases h
  · cases h
  · next hn _ =>
    cases h
    have := List.length_pos_iff.2 fun he : ds = [] => hn rest (by rw [he])
    dsimp only at hl
    omega

theorem fraction?_length {cs rest : List Char} {ds : List Nat}
    (h : fraction? cs = some (ds, rest)) : rest.length ≤ cs.length := by
  unfold fraction? at h
  split at h
  · next r =>
    have hl := digits_length r
    generalize digits r = found at h hl
    split at h
    · cases h
    · cases h
      simp only [List.length_cons] at hl ⊢
      omega
  · cases h
    exact Nat.le_refl _

theorem exponentSign_length (cs : List Char) : (exponentSign cs).2.length ≤ cs.length := by
  unfold exponentSign
  split <;> simp

theorem exponent?_length {cs rest : List Char} {e : Option (Bool × List Nat)}
    (h : exponent? cs = some (e, rest)) : rest.length ≤ cs.length := by
  unfold exponent? at h
  split at h
  · next c r =>
    have hs := exponentSign_length r
    split at h
    · have hl := digits_length (exponentSign r).2
      dsimp only at h
      split at h
      · cases h
      · next heq =>
        cases h
        rw [heq] at hl
        simp only [List.length_cons] at hl ⊢
        omega
    · cases h
      exact Nat.le_refl _
  · cases h
    exact Nat.le_refl _

theorem number?_length {cs rest : List Char} {n : Numeral} (h : number? cs = some (n, rest)) :
    rest.length < cs.length := by
  have hm := minus_length cs
  simp only [number?, Option.bind_eq_bind, Option.bind_eq_some_iff, Option.pure_def,
    Option.some.injEq, Prod.exists, Prod.mk.injEq] at h
  obtain ⟨_, _, hw, _, _, hf, _, _, he, _, rfl⟩ := h
  have := whole?_length hw
  have := fraction?_length hf
  have := exponent?_length he
  omega

theorem word?_length {word cs rest : List Char} (h : word? word cs = some rest) :
    rest.length ≤ cs.length := by
  fun_induction word? word cs with
  | case1 => cases h; exact Nat.le_refl _
  | case2 _ _ _ ih =>
    have := ih h
    simp only [List.length_cons]
    omega
  | case3 => cases h
  | case4 => cases h

theorem next?_length {c : Char} {cs rest : List Char} {t : Token}
    (h : next? c cs = some (t, rest)) : rest.length ≤ cs.length := by
  unfold next? at h
  split at h
  all_goals first
    | cases h; exact Nat.le_refl _
    | simp only [Option.map_eq_some_iff, Prod.mk.injEq, Prod.exists] at h
  · obtain ⟨_, _, hs, _, rfl⟩ := h
    exact Nat.le_of_lt (string?_length hs)
  · obtain ⟨_, hw, _, rfl⟩ := h
    exact word?_length hw
  · obtain ⟨_, hw, _, rfl⟩ := h
    exact word?_length hw
  · obtain ⟨_, hw, _, rfl⟩ := h
    exact word?_length hw
  · obtain ⟨_, _, hn, _, rfl⟩ := h
    exact Nat.le_of_lt_succ (number?_length hn)

/-- The tokens of a text, after the ones in `done`, which are listed last one first. -/
def readFrom? (done : List Token) : List Char → Option (List Token)
  | [] => some done.reverse
  | c :: cs =>
    if isBlank c then readFrom? done cs
    else
      match h : next? c cs with
      | none => none
      | some (t, rest) =>
        have := next?_length h
        readFrom? (t :: done) rest
termination_by cs => cs.length

/-- The tokens of a text. -/
def read? (cs : List Char) : Option (List Token) := readFrom? [] cs

end Token

end Json

end TileViewer
