import TileViewer.Text.Plain
import TileViewer.Text.Utf8

/-!
Lines of text as bytes. A text is read from its bytes as it was, only a line feed has the byte of
one, and what ends a line is trimmed from it.
-/
namespace TileViewer

namespace Text

variable {c : Char} {v n code taken count : Nat} {rest : List UInt8}

theorem toNat_ofNat_of_lt (h : v < 256) : (UInt8.ofNat v).toNat = v := by
  rw [UInt8.toNat_ofNat']
  exact Nat.mod_eq_of_lt h

/-- The first bytes of two, three and four, and what may follow them. -/
theorem start?_two : ∀ n < 32, 2 ≤ n → start? (n + 192) = some ((0x80, 0xBF), 0) := by decide

theorem start?_three : ∀ n < 16, start? (n + 224) =
    some ((if n = 0 then 0xA0 else 0x80, if n = 13 then 0x9F else 0xBF), 1) := by decide

theorem start?_four : ∀ n < 5, start? (n + 240) =
    some ((if n = 0 then 0x90 else 0x80, if n = 4 then 0x8F else 0xBF), 2) := by decide

/-- A byte that goes on with a character adds its six bits. -/
theorem continuation_succ (h : n < 64) :
    continuation code taken (count + 1) (UInt8.ofNat (n + 128) :: rest) =
      continuation (code * 64 + n) (taken + 1) count rest := by
  have hbyte : (UInt8.ofNat (n + 128)).toNat = n + 128 := toNat_ofNat_of_lt (by omega)
  have hrange : 0x80 ≤ UInt8.ofNat (n + 128) ∧ UInt8.ofNat (n + 128) ≤ 0xBF := by
    rw [UInt8.le_iff_toNat_le, UInt8.le_iff_toNat_le, hbyte]
    exact ⟨Nat.le_add_left _ _, Nat.add_le_add_right (Nat.le_of_lt_succ h) 128⟩
  have hbits : (n + 128) % 64 = n := by omega
  rw [continuation, if_pos hrange, hbyte, hbits]

/-- A character whose second byte may follow its first. -/
theorem char_of_start? {b lo hi more : Nat} (hbyte : 128 ≤ b ∧ b < 256)
    (hstart : start? b = some ((lo, hi), more)) (hn : n < 64)
    (hsecond : lo ≤ n + 128 ∧ n + 128 ≤ hi) :
    char (UInt8.ofNat b) (UInt8.ofNat (n + 128) :: rest) =
      (continuation (b % (if more = 0 then 32 else if more = 1 then 16 else 8) * 64 + n) 2 more
        rest).map fun (code, rest) => (Char.ofNat code, rest) := by
  have hb : (UInt8.ofNat b).toNat = b := toNat_ofNat_of_lt hbyte.2
  have hc : (UInt8.ofNat (n + 128)).toNat = n + 128 := toNat_ofNat_of_lt (by omega)
  have hbits : (n + 128) % 64 = n := by omega
  have hlarge : ¬ UInt8.ofNat b < 0x80 := by
    rw [UInt8.lt_iff_toNat_lt, hb]
    exact Nat.not_lt.2 hbyte.1
  unfold char
  simp only [if_neg hlarge, hb, hc, hstart, hbits, if_pos hsecond]
  cases continuation (b % (if more = 0 then 32 else if more = 1 then 16 else 8) * 64 + n) 2 more
    rest with
  | error stuck => rfl
  | ok read => rfl

theorem char_one (h : v ≤ 0x7F) : char (UInt8.ofNat v) rest = .ok (Char.ofNat v, rest) := by
  have hb : (UInt8.ofNat v).toNat = v := toNat_ofNat_of_lt (by omega)
  have hsmall : UInt8.ofNat v < 0x80 := by
    rw [UInt8.lt_iff_toNat_lt, hb]
    exact Nat.lt_succ_of_le h
  unfold char
  rw [if_pos hsmall, hb]

theorem char_two (h : 0x7F < v ∧ v ≤ 0x7FF) :
    char (UInt8.ofNat (v / 64 % 32 + 192)) (UInt8.ofNat (v % 64 + 128) :: rest) =
      .ok (Char.ofNat v, rest) := by
  have hstart := start?_two (v / 64 % 32) (by omega) (by omega)
  have hcode : (v / 64 % 32 + 192) % 32 * 64 + v % 64 = v := by omega
  rw [char_of_start? (by omega) hstart (by omega) (by omega), if_pos rfl, hcode]
  rfl

theorem char_three (h : 0x7FF < v ∧ v ≤ 0xFFFF) (hv : v < 0xD800 ∨ 0xDFFF < v) :
    char (UInt8.ofNat (v / 4096 % 16 + 224))
      (UInt8.ofNat (v / 64 % 64 + 128) :: UInt8.ofNat (v % 64 + 128) :: rest) =
        .ok (Char.ofNat v, rest) := by
  have hstart := start?_three (v / 4096 % 16) (by omega)
  have hsecond : (if v / 4096 % 16 = 0 then 0xA0 else 0x80) ≤ v / 64 % 64 + 128 ∧
      v / 64 % 64 + 128 ≤ if v / 4096 % 16 = 13 then 0x9F else 0xBF := by
    constructor
    · split <;> omega
    · split <;> omega
  have hcode : ((v / 4096 % 16 + 224) % 16 * 64 + v / 64 % 64) * 64 + v % 64 = v := by omega
  rw [char_of_start? (by omega) hstart (by omega) hsecond, continuation_succ (by omega),
    if_neg Nat.one_ne_zero, if_pos rfl, hcode]
  rfl

theorem char_four (h : 0xFFFF < v ∧ v < 0x110000) :
    char (UInt8.ofNat (v / 262144 % 8 + 240))
      (UInt8.ofNat (v / 4096 % 64 + 128) :: UInt8.ofNat (v / 64 % 64 + 128) ::
        UInt8.ofNat (v % 64 + 128) :: rest) = .ok (Char.ofNat v, rest) := by
  have hstart := start?_four (v / 262144 % 8) (by omega)
  have hsecond : (if v / 262144 % 8 = 0 then 0x90 else 0x80) ≤ v / 4096 % 64 + 128 ∧
      v / 4096 % 64 + 128 ≤ if v / 262144 % 8 = 4 then 0x8F else 0xBF := by
    constructor
    · split <;> omega
    · split <;> omega
  have hcode : (((v / 262144 % 8 + 240) % 8 * 64 + v / 4096 % 64) * 64 + v / 64 % 64) * 64 +
      v % 64 = v := by omega
  rw [char_of_start? (by omega) hstart (by omega) hsecond, continuation_succ (by omega),
    continuation_succ (by omega), if_neg (by decide), if_neg (by decide), hcode]
  rfl

/-- A character is read from its bytes, whatever follows them. -/
theorem char_utf8EncodeChar (c : Char) (rest : List UInt8) :
    ∃ b bytes, String.utf8EncodeChar c = b :: bytes ∧ char b (bytes ++ rest) = .ok (c, rest) := by
  have hchar : Char.ofNat c.val.toNat = c := Char.ofNat_toNat c
  have hv : c.val.toNat < 0xD800 ∨ 0xDFFF < c.val.toNat ∧ c.val.toNat < 0x110000 := c.valid
  simp only [String.utf8EncodeChar]
  generalize c.val.toNat = v at hchar hv
  subst hchar
  split
  · next h1 => exact ⟨_, _, rfl, char_one h1⟩
  · next h1 =>
    split
    · next h2 => exact ⟨_, _, rfl, char_two ⟨Nat.lt_of_not_le h1, h2⟩⟩
    · next h2 =>
      split
      · next h3 => exact ⟨_, _, rfl, char_three ⟨Nat.lt_of_not_le h2, h3⟩ (hv.imp_right And.left)⟩
      · next h3 => exact ⟨_, _, rfl, char_four ⟨Nat.lt_of_not_le h3, by omega⟩⟩

theorem eq_lineFeed (hv : v < 256) (h : 0x0A = UInt8.ofNat v) : v = 0x0A := by
  have hvalue := congrArg UInt8.toNat h
  rw [toNat_ofNat_of_lt hv] at hvalue
  exact hvalue.symm

/-- Only a line feed has the byte of one. -/
theorem eq_lineFeed_of_mem (h : 0x0A ∈ String.utf8EncodeChar c) : c = '\n' := by
  have hchar : Char.ofNat c.val.toNat = c := Char.ofNat_toNat c
  simp only [String.utf8EncodeChar] at h
  generalize c.val.toNat = v at hchar h
  subst hchar
  split at h
  · rw [eq_lineFeed (by omega) (List.mem_singleton.1 h)]
  · -- All bytes of a longer character are above those of the short ones.
    exfalso
    split at h
    · simp only [List.mem_cons, List.not_mem_nil, or_false] at h
      rcases h with h | h <;> exact absurd (eq_lineFeed (by omega) h) (by omega)
    · split at h
      · simp only [List.mem_cons, List.not_mem_nil, or_false] at h
        rcases h with h | h | h <;> exact absurd (eq_lineFeed (by omega) h) (by omega)
      · simp only [List.mem_cons, List.not_mem_nil, or_false] at h
        rcases h with h | h | h | h <;> exact absurd (eq_lineFeed (by omega) h) (by omega)

theorem toList_loop (bytes : ByteArray) (i : Nat) (done : List UInt8) :
    ByteArray.toList.loop bytes i done = done.reverse ++ bytes.data.toList.drop i := by
  fun_induction ByteArray.toList.loop bytes i done with
  | case1 i done hi ih =>
    have hlength : i < bytes.data.toList.length := hi
    have hbyte : bytes.get! i = bytes.data.toList[i] := by
      rw [ByteArray.get!, getElem!_pos bytes.data i hi, Array.getElem_toList]
    rw [ih, List.drop_eq_getElem_cons hlength, hbyte, List.reverse_cons, List.append_assoc]
    rfl
  | case2 i done hi =>
    rw [List.drop_eq_nil_of_le (Nat.le_of_not_lt hi), List.append_nil]

/-- The bytes of a text are those of its characters. -/
theorem toUTF8_toList (s : String) :
    s.toUTF8.toList = s.toList.flatMap String.utf8EncodeChar := by
  rw [ByteArray.toList, toList_loop, List.reverse_nil, List.nil_append, List.drop_zero,
    String.toUTF8_eq_toByteArray, ← String.utf8Encode_toList, List.utf8Encode,
    List.toList_data_toByteArray]

theorem charsFrom_flatMap (index : Nat) (done cs : List Char) :
    charsFrom index done (cs.flatMap String.utf8EncodeChar) = .ok (done.reverse ++ cs) := by
  induction cs generalizing index done with
  | nil => simp [charsFrom]
  | cons c cs ih =>
    obtain ⟨b, bytes, hbytes, hchar⟩ :=
      char_utf8EncodeChar c (cs.flatMap String.utf8EncodeChar)
    rw [List.flatMap_cons, hbytes, List.cons_append, charsFrom]
    split
    · next h =>
      rw [hchar] at h
      cases h
    · next h =>
      rw [hchar] at h
      cases h
    · next h =>
      rw [hchar] at h
      cases h
      rw [ih, List.reverse_cons, List.append_assoc, List.singleton_append]

/-- A text is read from its bytes. -/
theorem ofBytes_toUTF8 (s : String) : ofBytes s.toUTF8.toList = .ok s := by
  rw [ofBytes, toUTF8_toList, charsFrom_flatMap]
  exact congrArg Except.ok String.ofList_toList

theorem toUTF8_empty : "".toUTF8.toList = [] := toUTF8_toList ""

theorem eq_empty_of_toUTF8 {s : String} (h : s.toUTF8.toList = []) : s = "" := by
  have hread := ofBytes_toUTF8 s
  rw [h, ← toUTF8_empty, ofBytes_toUTF8, Except.ok.injEq] at hread
  exact hread.symm

/-- Blanks behind a text are trimmed from it. -/
theorem trimChars_append {cs blanks : List Char} (h : ∀ c ∈ blanks, isBlank c) :
    trimChars (cs ++ blanks) = trimChars cs := by
  have hreverse : ∀ c ∈ blanks.reverse, isBlank c := fun c hc => h c (List.mem_reverse.1 hc)
  have hblanks : (blanks ++ []).dropWhile isBlank = [] := List.dropWhile_append_of_pos h
  rw [List.append_nil] at hblanks
  simp only [trimChars, List.dropWhile_append]
  split
  · next hnone => rw [hblanks, List.isEmpty_iff.1 hnone]
  · rw [List.reverse_append, List.dropWhile_append_of_pos hreverse]

theorem trim_append {s blanks : String} (h : ∀ c ∈ blanks.toList, isBlank c) :
    trim (s ++ blanks) = trim s := by
  rw [trim, String.toList_append, trimChars_append h, trim]

end Text

end TileViewer
