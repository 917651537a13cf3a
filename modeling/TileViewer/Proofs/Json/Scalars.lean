import TileViewer.Json.Printer
import TileViewer.Json.Token

/-!
Strings and numbers are read back as they were written, whatever text comes after them. After a
number there must be something that does not continue it.
-/
namespace TileViewer

namespace Json

open Token

/-- A text that a number in front of it does not run into. -/
def Ends (rest : List Char) : Prop :=
  ∀ c ∈ rest.head?, isDigit c = false ∧ c ≠ '.' ∧ c ≠ 'e' ∧ c ≠ 'E'

theorem ends_nil : Ends [] := nofun

theorem ends_cons {c : Char} (h : c = ',' ∨ c = ']' ∨ c = '}') (rest : List Char) :
    Ends (c :: rest) := by
  intro d hd
  cases hd
  rcases h with rfl | rfl | rfl <;> decide

/-! Strings. -/

/-- A character stands for itself unless it has to be escaped, and a letter for what it means. -/
def StringPart.Written : StringPart → Prop
  | .plain c => c ≠ '"' ∧ c ≠ '\\' ∧ ¬ c < ' '
  | .short c => unescape? (letter c) = some c
  | .unit _ => True

def Literal.Written (s : Literal) : Prop := ∀ p ∈ s.parts, p.Written

theorem hexValue?_hexDigit {n : Nat} (h : n < 16) : hexValue? (hexDigit n) = some n := by
  have hall : ∀ k : Fin 16, hexValue? (hexDigit k) = some k.val := by decide
  exact hall ⟨n, h⟩

theorem hexUnit?_hexDigits (u : UInt16) :
    hexUnit? (hexDigit (u.toNat / 4096)) (hexDigit (u.toNat / 256 % 16))
      (hexDigit (u.toNat / 16 % 16)) (hexDigit (u.toNat % 16)) = some u := by
  have hu := u.toNat_lt
  have hvalue : ((u.toNat / 4096 * 16 + u.toNat / 256 % 16) * 16 + u.toNat / 16 % 16) * 16 +
      u.toNat % 16 = u.toNat := by omega
  rw [hexUnit?, hexValue?_hexDigit (by omega), hexValue?_hexDigit (by omega),
    hexValue?_hexDigit (by omega), hexValue?_hexDigit (by omega)]
  simp only [Option.bind_eq_bind, Option.bind_some, Option.pure_def, hvalue, Option.some.injEq]
  exact UInt16.ofNat_toNat

namespace Token

/-- One element of a string, read with any elements before it. -/
theorem string?_render {p : StringPart} (h : p.Written) (parts : List StringPart)
    (cs : List Char) : string? parts (p.render ++ cs) = string? (p :: parts) cs := by
  cases p with
  | plain c =>
    obtain ⟨hquote, hslash, hspace⟩ := h
    rw [StringPart.render, List.singleton_append, string?]
    · exact if_neg hspace
    · exact hquote
    · rintro _ _ _ _ _ rfl
      exact absurd rfl hslash
    · rintro _ _ rfl
      exact absurd rfl hslash
  | short c =>
    have hu : StringPart.letter c ≠ 'u' := by
      intro hu
      rw [StringPart.Written, hu] at h
      cases h
    simp only [StringPart.render, List.cons_append, List.nil_append]
    rw [string?]
    · simp only [show unescape? (StringPart.letter c) = some c from h]
    · rintro _ _ _ _ _ hletter
      exact absurd hletter hu
  | unit u =>
    simp only [StringPart.render, List.cons_append, List.nil_append]
    rw [string?, hexUnit?_hexDigits]

theorem string?_parts {ps : List StringPart} (h : ∀ p ∈ ps, p.Written) (parts : List StringPart)
    (rest : List Char) :
    string? parts (ps.flatMap StringPart.render ++ '"' :: rest) =
      some (⟨parts.reverse ++ ps⟩, rest) := by
  induction ps generalizing parts with
  | nil => rw [List.flatMap_nil, List.nil_append, string?, List.append_nil]
  | cons p ps ih =>
    rw [List.forall_mem_cons] at h
    rw [List.flatMap_cons, List.append_assoc, string?_render h.1, ih h.2, List.reverse_cons,
      List.append_assoc, List.singleton_append]

theorem next?_literal {s : Literal} (h : s.Written) (rest : List Char) :
    next? '"' (s.parts.flatMap StringPart.render ++ '"' :: rest) =
      some (.scalar (.string s), rest) := by
  simp only [next?, string?_parts h, List.reverse_nil, List.nil_append, Option.map_some]

end Token

/-! Numbers. -/

/-- Digits where there must be some, and no needless zero in front of the whole ones. -/
structure Numeral.Written (n : Numeral) : Prop where
  whole : n.whole ≠ []
  noZero : ∀ ds, n.whole = 0 :: ds → ds = []
  wholeDigits : ∀ d ∈ n.whole, d < 10
  fractionDigits : ∀ d ∈ n.fraction, d < 10
  exponent : ∀ negative ds, n.exponent = some (negative, ds) → ds ≠ [] ∧ ∀ d ∈ ds, d < 10

namespace Numeral

theorem isDigit_digit {d : Nat} (h : d < 10) : isDigit (Char.ofNat (d + '0'.toNat)) = true := by
  have hall : ∀ k : Fin 10, isDigit (Char.ofNat (k + '0'.toNat)) = true := by decide
  exact hall ⟨d, h⟩

theorem value_digit {d : Nat} (h : d < 10) :
    (Char.ofNat (d + '0'.toNat)).toNat - '0'.toNat = d := by
  have hall : ∀ k : Fin 10, (Char.ofNat (k + '0'.toNat)).toNat - '0'.toNat = k.val := by decide
  exact hall ⟨d, h⟩

theorem isDigit_of_mem {ds : List Nat} (h : ∀ d ∈ ds, d < 10) {c : Char}
    (hc : c ∈ renderDigits ds) : isDigit c = true := by
  obtain ⟨d, hd, rfl⟩ := List.mem_map.1 hc
  exact isDigit_digit (h d hd)

theorem digits_renderDigits {ds : List Nat} (h : ∀ d ∈ ds, d < 10) {rest : List Char}
    (hrest : ∀ c ∈ rest.head?, isDigit c = false) :
    digits (renderDigits ds ++ rest) = (ds, rest) := by
  have hhead : rest.takeWhile isDigit = [] ∧ rest.dropWhile isDigit = rest := by
    cases rest with
    | nil => exact ⟨rfl, rfl⟩
    | cons c cs => simp [hrest c rfl]
  have hvalues : (renderDigits ds).map (fun c => c.toNat - '0'.toNat) = ds := by
    rw [renderDigits, List.map_map]
    exact (List.map_congr_left fun d hd => value_digit (h d hd)).trans (List.map_id ds)
  rw [digits, List.takeWhile_append_of_pos fun c hc => isDigit_of_mem h hc,
    List.dropWhile_append_of_pos fun c hc => isDigit_of_mem h hc, hhead.1, hhead.2,
    List.append_nil, hvalues]

/-- Digits begin with a digit, so a sign is no part of them. -/
theorem exists_digit {ds : List Nat} (hne : ds ≠ []) (h : ∀ d ∈ ds, d < 10) (rest : List Char) :
    ∃ c cs, renderDigits ds ++ rest = c :: cs ∧ isDigit c = true := by
  cases ds with
  | nil => exact absurd rfl hne
  | cons d ds => exact ⟨_, _, rfl, isDigit_digit (h d List.mem_cons_self)⟩

theorem minus_sign (negative : Bool) {c : Char} (hc : isDigit c = true) (cs : List Char) :
    minus ((if negative then ['-'] else []) ++ c :: cs) = (negative, c :: cs) := by
  cases negative with
  | true => rfl
  | false =>
    change minus (c :: cs) = _
    unfold minus
    split
    · next heq =>
      cases heq
      cases hc
    · rfl

theorem exponentSign_sign (negative : Bool) {c : Char} (hc : isDigit c = true) (cs : List Char) :
    exponentSign ((if negative then ['-'] else []) ++ c :: cs) = (negative, c :: cs) := by
  cases negative with
  | true => rfl
  | false =>
    change exponentSign (c :: cs) = _
    unfold exponentSign
    split
    · next heq =>
      cases heq
      cases hc
    · next heq =>
      cases heq
      cases hc
    · rfl

theorem whole?_renderDigits {n : Numeral} (h : n.Written) {rest : List Char}
    (hrest : ∀ c ∈ rest.head?, isDigit c = false) :
    whole? (renderDigits n.whole ++ rest) = some (n.whole, rest) := by
  unfold whole?
  rw [digits_renderDigits h.wholeDigits hrest]
  split
  · next heq => exact absurd (Prod.mk.inj heq).1 h.whole
  · next heq => cases h.noZero _ (Prod.mk.inj heq).1
  · rfl

theorem fraction?_render {ds : List Nat} (h : ∀ d ∈ ds, d < 10) {rest : List Char}
    (hrest : ∀ c ∈ rest.head?, isDigit c = false ∧ c ≠ '.') :
    fraction? ((if ds.isEmpty then [] else '.' :: renderDigits ds) ++ rest) = some (ds, rest) := by
  cases ds with
  | nil =>
    change fraction? rest = _
    unfold fraction?
    split
    · exact absurd rfl (hrest '.' rfl).2
    · rfl
  | cons d ds =>
    change fraction? ('.' :: (renderDigits (d :: ds) ++ rest)) = _
    rw [fraction?, digits_renderDigits h fun c hc => (hrest c hc).1]

theorem exponent?_none {rest : List Char} (hrest : Ends rest) :
    exponent? rest = some (none, rest) := by
  cases rest with
  | nil => rfl
  | cons c cs =>
    obtain ⟨-, -, he, hE⟩ := hrest c rfl
    rw [exponent?, if_neg (not_or.2 ⟨he, hE⟩)]

theorem exponent?_render (negative : Bool) {ds : List Nat} (hne : ds ≠ [])
    (h : ∀ d ∈ ds, d < 10) {rest : List Char} (hrest : Ends rest) :
    exponent? ('e' :: ((if negative then ['-'] else []) ++ (renderDigits ds ++ rest))) =
      some (some (negative, ds), rest) := by
  obtain ⟨c, cs, hcons, hc⟩ := exists_digit hne h rest
  have hdigits := digits_renderDigits h fun c hc => (hrest c hc).1
  rw [hcons] at hdigits
  rw [exponent?, if_pos (.inl rfl), hcons, exponentSign_sign negative hc]
  dsimp only
  rw [hdigits]
  split
  · next heq => exact absurd (Prod.mk.inj heq).1 hne
  · next heq =>
    cases heq
    rfl

end Numeral

theorem Token.number?_render {n : Numeral} (h : n.Written) {rest : List Char} (hrest : Ends rest) :
    number? (n.render ++ rest) = some (n, rest) := by
  obtain ⟨negative, whole, fraction, exponent⟩ := n
  -- What follows the digits of the whole part and of the fraction does not continue them.
  obtain ⟨tail, hrender, hexponent, htail⟩ : ∃ tail,
      Numeral.render ⟨negative, whole, fraction, exponent⟩ ++ rest =
        (if negative then ['-'] else []) ++ (Numeral.renderDigits whole ++
          ((if fraction.isEmpty then [] else '.' :: Numeral.renderDigits fraction) ++ tail)) ∧
      exponent? tail = some (exponent, rest) ∧
      ∀ c ∈ tail.head?, isDigit c = false ∧ c ≠ '.' := by
    cases exponent with
    | none =>
      refine ⟨rest, ?_, Numeral.exponent?_none hrest, fun c hc => ?_⟩
      · simp only [Numeral.render, List.append_assoc, List.append_nil]
      · exact ⟨(hrest c hc).1, (hrest c hc).2.1⟩
    | some e =>
      obtain ⟨down, ds⟩ := e
      obtain ⟨hne, hds⟩ := h.exponent down ds rfl
      refine ⟨_, ?_, Numeral.exponent?_render down hne hds hrest, ?_⟩
      · simp only [Numeral.render, List.append_assoc, List.cons_append]
      · rintro c ⟨⟩
        decide
  have hfraction := Numeral.fraction?_render h.fractionDigits htail
  have hafter : ∀ c ∈ ((if fraction.isEmpty then [] else '.' :: Numeral.renderDigits fraction) ++
      tail).head?, isDigit c = false := by
    cases fraction with
    | nil => exact fun c hc => (htail c hc).1
    | cons d ds =>
      rintro c ⟨⟩
      decide
  have hwhole := Numeral.whole?_renderDigits h hafter
  obtain ⟨c, cs, hcons, hc⟩ := Numeral.exists_digit h.whole h.wholeDigits
    ((if fraction.isEmpty then [] else '.' :: Numeral.renderDigits fraction) ++ tail)
  rw [hrender, number?, hcons, Numeral.minus_sign negative hc]
  rw [hcons] at hwhole
  simp only [Option.bind_eq_bind, hwhole, hfraction, hexponent, Option.bind_some, Option.pure_def]

/-- A text that begins like a number is read as one. -/
theorem Token.next?_number {c : Char} (hc : c = '-' ∨ isDigit c = true) (cs : List Char) :
    next? c cs = (number? (c :: cs)).map fun (n, rest) => (.scalar (.number n), rest) := by
  unfold next?
  split
  all_goals first
    | rfl
    | rcases hc with hc | hc <;> cases hc

/-! Scalars. -/

def Scalar.Written : Scalar → Prop
  | .number n => n.Written
  | .string s => s.Written
  | _ => True

namespace Token

/-- A token that is read is put before the ones found later. -/
theorem readFrom?_cons {c : Char} {cs rest : List Char} {t : Token} (hblank : isBlank c = false)
    (h : next? c cs = some (t, rest)) (done : List Token) :
    readFrom? done (c :: cs) = readFrom? (t :: done) rest := by
  rw [readFrom?, hblank, if_neg Bool.false_ne_true]
  split
  · next heq => cases heq.symm.trans h
  · next heq =>
    cases heq.symm.trans h
    rfl

theorem readFrom?_scalar {s : Scalar} (h : s.Written) {rest : List Char} (hrest : Ends rest)
    (done : List Token) :
    readFrom? done (s.render ++ rest) = readFrom? (.scalar s :: done) rest := by
  cases s with
  | null => exact readFrom?_cons (by decide) rfl done
  | bool b => cases b <;> exact readFrom?_cons (by decide) rfl done
  | string s =>
    have hnext := next?_literal h rest
    change readFrom? done (('"' :: (s.parts.flatMap StringPart.render ++ ['"'])) ++ rest) = _
    rw [List.cons_append, List.append_assoc, List.singleton_append]
    exact readFrom?_cons (by decide) hnext done
  | number n =>
    obtain ⟨c, cs, hcons, hc⟩ : ∃ c cs,
        n.render ++ rest = c :: cs ∧ (c = '-' ∨ isDigit c = true) := by
      obtain ⟨d, ds, hdigits, hd⟩ := Numeral.exists_digit h.whole h.wholeDigits []
      rw [List.append_nil] at hdigits
      simp only [Numeral.render, hdigits]
      cases n.negative with
      | true => exact ⟨_, _, rfl, .inl rfl⟩
      | false => exact ⟨_, _, rfl, .inr hd⟩
    have hblank : isBlank c = false := by
      rcases hc with rfl | hc
      · decide
      · have hnot (b : Char) (hb : isDigit b = false) : c ≠ b := by
          rintro rfl
          cases hb.symm.trans hc
        simp [isBlank, hnot ' ' rfl, hnot '\t' rfl, hnot '\n' rfl, hnot '\r' rfl]
    have hnumber := number?_render h hrest
    change readFrom? done (n.render ++ rest) = _
    rw [hcons] at hnumber ⊢
    refine readFrom?_cons hblank ?_ done
    rw [next?_number hc, hnumber, Option.map_some]

end Token

end Json

end TileViewer
