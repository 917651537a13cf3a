/-!
Characters from bytes. What is wrong with a sequence of bytes is found at its first byte that no
character could have there.
-/
namespace TileViewer

namespace Text

/-- Why bytes are no text: some of them can begin no character, or the last character is cut off.
The index is where that character begins. -/
inductive Utf8Fault
  | invalid (length index : Nat)
  | incomplete (index : Nat)
  deriving DecidableEq, Repr

/-- The ranges that the first two bytes of a character of three bytes lie in. -/
def threeByteStarts : List ((Nat × Nat) × (Nat × Nat)) :=
  [((0xE0, 0xE0), (0xA0, 0xBF)), ((0xE1, 0xEC), (0x80, 0xBF)), ((0xED, 0xED), (0x80, 0x9F)),
    ((0xEE, 0xEF), (0x80, 0xBF))]

/-- The same for four bytes. -/
def fourByteStarts : List ((Nat × Nat) × (Nat × Nat)) :=
  [((0xF0, 0xF0), (0x90, 0xBF)), ((0xF1, 0xF3), (0x80, 0xBF)), ((0xF4, 0xF4), (0x80, 0x8F))]

/-- The range that the second byte of a character with first byte `b` lies in, and how many bytes
follow the second. -/
def start? (b : Nat) : Option ((Nat × Nat) × Nat) :=
  let find (starts : List ((Nat × Nat) × (Nat × Nat))) :=
    (starts.find? fun (first, _) => first.1 ≤ b && b ≤ first.2).map Prod.snd
  if 0xC2 ≤ b ∧ b ≤ 0xDF then some ((0x80, 0xBF), 0)
  else
    match find threeByteStarts, find fourByteStarts with
    | some second, _ => some (second, 1)
    | none, some second => some (second, 2)
    | none, none => none

/-- Reads `count` more bytes of a character after `taken` of them, where `code` is made of the
bytes so far. The error is the number of bytes that begin no character, if they are not just cut
off. -/
def continuation (code taken : Nat) :
    Nat → List UInt8 → Except (Option Nat) (Nat × List UInt8)
  | 0, rest => .ok (code, rest)
  | _ + 1, [] => .error none
  | count + 1, b :: rest =>
    if 0x80 ≤ b ∧ b ≤ 0xBF then continuation (code * 64 + b.toNat % 64) (taken + 1) count rest
    else .error (some taken)

/-- Reads the rest of a character that begins with `b`. -/
def char (b : UInt8) (rest : List UInt8) : Except (Option Nat) (Char × List UInt8) :=
  if b < 0x80 then .ok (Char.ofNat b.toNat, rest)
  else
    match start? b.toNat, rest with
    | none, _ => .error (some 1)
    | some _, [] => .error none
    | some ((lo, hi), more), c :: rest =>
      if lo ≤ c.toNat ∧ c.toNat ≤ hi then do
        let first := b.toNat % (if more = 0 then 32 else if more = 1 then 16 else 8)
        let (code, rest) ← continuation (first * 64 + c.toNat % 64) 2 more rest
        return (Char.ofNat code, rest)
      else .error (some 1)

theorem continuation_length {code taken count result : Nat} {bytes rest : List UInt8}
    (h : continuation code taken count bytes = .ok (result, rest)) :
    rest.length ≤ bytes.length := by
  fun_induction continuation code taken count bytes with
  | case1 => cases h; exact Nat.le_refl _
  | case2 => cases h
  | case3 _ _ _ _ _ _ ih =>
    have := ih h
    simp only [List.length_cons]
    omega
  | case4 => cases h

theorem char_length {b : UInt8} {bytes rest : List UInt8} {c : Char}
    (h : char b bytes = .ok (c, rest)) : rest.length ≤ bytes.length := by
  unfold char at h
  split at h
  · cases h
    exact Nat.le_refl _
  · split at h
    · cases h
    · cases h
    · split at h
      · simp only [bind, Except.bind] at h
        split at h
        · cases h
        · next hc =>
          cases h
          have := continuation_length hc
          simp only [List.length_cons]
          omega
      · cases h

/-- The characters of bytes from place `index` on, after the ones in `done`, which are listed last
one first. -/
def charsFrom (index : Nat) (done : List Char) :
    List UInt8 → Except Utf8Fault (List Char)
  | [] => .ok done.reverse
  | b :: bytes =>
    match h : char b bytes with
    | .error none => .error (.incomplete index)
    | .error (some length) => .error (.invalid length index)
    | .ok (c, rest) =>
      have := char_length h
      charsFrom (index + 1 + (bytes.length - rest.length)) (c :: done) rest
termination_by bytes => bytes.length

/-- The text that bytes spell. -/
def ofBytes (bytes : List UInt8) : Except Utf8Fault String :=
  (charsFrom 0 [] bytes).map String.ofList

end Text

end TileViewer
