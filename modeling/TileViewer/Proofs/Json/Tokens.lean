import Mathlib.Data.List.TakeWhile
import TileViewer.Proofs.Json.Scalars

/-!
The tokens of a text and those of its pieces. A token goes by the characters that it takes and by
whether the next one continues them, so a text that is cut between two tokens reads as its pieces
do, and a text can be cut wherever its tokens can.
-/
namespace TileViewer

namespace Json

namespace Token

variable {α : Type} {cs rest other : List Char} {c : Char} {t : Token} {ts more : List Token}

/-- Of two texts, the second may stand where the first one does: it begins alike, or it does not
continue a number. -/
def Follows (rest other : List Char) : Prop := other.head? = rest.head? ∨ Ends other

/-- A reader that goes by what it takes, and by what follows only as far as it has to. -/
def Local (f : List Char → Option (α × List Char)) : Prop :=
  ∀ cs a rest, f cs = some (a, rest) → ∃ taken, cs = taken ++ rest ∧
    ∀ other, Follows rest other → f (taken ++ other) = some (a, other)

theorem Follows.append (h : Follows rest other) (taken : List Char) :
    Follows (taken ++ rest) (taken ++ other) := by
  cases taken with
  | nil => exact h
  | cons c taken => exact .inl rfl

/-- A piece of a text may stand for the whole. -/
theorem follows_piece (piece rest : List Char) : Follows (piece ++ rest) piece := by
  cases piece with
  | nil => exact .inr ends_nil
  | cons c piece => exact .inl rfl

/-- A text may go on after its end. -/
theorem follows_longer (h : Ends rest) (piece : List Char) : Follows piece (piece ++ rest) := by
  cases piece with
  | nil => exact .inr h
  | cons c piece => exact .inl rfl

theorem head?_taken {taken : List Char} (h : taken ≠ []) (rest other : List Char) :
    (taken ++ rest).head? = (taken ++ other).head? := by
  cases taken with
  | nil => exact absurd rfl h
  | cons c taken => rfl

/-! Strings and words. -/

theorem string?_local {parts : List StringPart} {s : Literal}
    (h : string? parts cs = some (s, rest)) : ∃ taken, cs = taken ++ rest ∧
      ∀ other, string? parts (taken ++ other) = some (s, other) := by
  fun_induction string? parts cs with
  | case1 => cases h
  | case2 parts rest =>
    cases h
    exact ⟨['"'], rfl, fun _ => rfl⟩
  | case3 => cases h
  | case4 parts a b c d cs u hu ih =>
    obtain ⟨taken, rfl, htaken⟩ := ih h
    refine ⟨'\\' :: 'u' :: a :: b :: c :: d :: taken, rfl, fun other => ?_⟩
    simp only [List.cons_append]
    rw [string?, hu]
    exact htaken other
  | case5 => cases h
  | case6 parts c cs _ e he ih =>
    obtain ⟨taken, rfl, htaken⟩ := ih h
    have hc : c ≠ 'u' := by
      rintro rfl
      cases he
    refine ⟨'\\' :: c :: taken, rfl, fun other => ?_⟩
    simp only [List.cons_append]
    rw [string?]
    · simp only [he]
      exact htaken other
    · rintro _ _ _ _ _ hunit
      exact absurd hunit hc
  | case7 => cases h
  | case8 parts c cs hquote _ hshort hspace ih =>
    -- A backslash would be the last character, and the string would not end.
    have hc : c ≠ '\\' := by
      rintro rfl
      cases cs with
      | nil => cases h
      | cons d cs => exact hshort d cs rfl rfl
    obtain ⟨taken, rfl, htaken⟩ := ih h
    refine ⟨c :: taken, rfl, fun other => ?_⟩
    rw [List.cons_append, string?]
    · rw [if_neg hspace]
      exact htaken other
    · exact hquote
    · rintro _ _ _ _ _ hslash
      exact absurd hslash hc
    · rintro _ _ hslash
      exact absurd hslash hc

theorem word?_local {word : List Char} (h : word? word cs = some rest) :
    cs = word ++ rest ∧ ∀ other, word? word (word ++ other) = some other := by
  fun_induction word? word cs with
  | case1 =>
    cases h
    exact ⟨rfl, fun _ => rfl⟩
  | case2 w word cs ih =>
    obtain ⟨rfl, hword⟩ := ih h
    exact ⟨rfl, fun other => (if_pos rfl).trans (hword other)⟩
  | case3 => cases h
  | case4 => cases h

/-! Numbers. -/

/-- A text that does not go on with a digit. -/
def NoDigit (rest : List Char) : Prop := ∀ c ∈ rest.head?, isDigit c = false

theorem Follows.noDigit (h : Follows rest other) (hrest : NoDigit rest) : NoDigit other := by
  rcases h with hhead | hends
  · unfold NoDigit
    rwa [hhead]
  · exact fun c hc => (hends c hc).1

/-- Digits are taken up to the first character that is none. -/
theorem digits_local (cs : List Char) : NoDigit (digits cs).2 ∧ ∃ taken,
    cs = taken ++ (digits cs).2 ∧
      ∀ other, NoDigit other → digits (taken ++ other) = ((digits cs).1, other) := by
  refine ⟨fun c hc => ?_, cs.takeWhile isDigit, List.takeWhile_append_dropWhile.symm,
    fun other hother => ?_⟩
  · have hstop := List.head?_dropWhile_not isDigit cs
    rw [show (cs.dropWhile isDigit).head? = some c from hc] at hstop
    simpa using hstop
  · have hall : ∀ c ∈ cs.takeWhile isDigit, isDigit c = true :=
      fun c hc => List.mem_takeWhile_imp hc
    have hhead : other.takeWhile isDigit = [] ∧ other.dropWhile isDigit = other := by
      cases other with
      | nil => exact ⟨rfl, rfl⟩
      | cons c other => simp [hother c rfl]
    rw [digits, List.takeWhile_append_of_pos hall, List.dropWhile_append_of_pos hall, hhead.1,
      hhead.2, List.append_nil]
    rfl

/-- Digits that have to be there. -/
theorem digits_some_local {ds : List Nat} (h : digits cs = (ds, rest)) (hne : ds ≠ []) :
    ∃ taken, taken ≠ [] ∧ cs = taken ++ rest ∧
      ∀ other, Follows rest other → digits (taken ++ other) = (ds, other) := by
  obtain ⟨hstop, taken, hcs, htaken⟩ := digits_local cs
  rw [h] at hstop hcs htaken
  refine ⟨taken, ?_, hcs, fun other hother => htaken other (hother.noDigit hstop)⟩
  rintro rfl
  have hnone := htaken [] nofun
  exact hne (Prod.mk.inj hnone).1.symm

theorem whole?_eq_some_iff {ds : List Nat} : whole? cs = some (ds, rest) ↔
    digits cs = (ds, rest) ∧ ds ≠ [] ∧ ∀ d ds', ds ≠ 0 :: d :: ds' := by
  unfold whole?
  split
  · next heq =>
    rw [heq]
    constructor
    · nofun
    · rintro ⟨h, hne, -⟩
      cases h
      exact absurd rfl hne
  · next d ds' _ heq =>
    rw [heq]
    constructor
    · nofun
    · rintro ⟨h, -, hzero⟩
      cases h
      exact absurd rfl (hzero d ds')
  · next hne hzero =>
    rw [Option.some_inj]
    constructor
    · rintro h
      refine ⟨h, ?_, ?_⟩
      · rintro rfl
        exact hne _ h
      · rintro d ds' rfl
        exact hzero _ _ _ h
    · exact And.left

theorem whole?_local {ds : List Nat} (h : whole? cs = some (ds, rest)) :
    ∃ taken, taken ≠ [] ∧ cs = taken ++ rest ∧
      ∀ other, Follows rest other → whole? (taken ++ other) = some (ds, other) := by
  obtain ⟨hdigits, hne, hzero⟩ := whole?_eq_some_iff.1 h
  obtain ⟨taken, htaken, hcs, hlocal⟩ := digits_some_local hdigits hne
  exact ⟨taken, htaken, hcs, fun other hother =>
    whole?_eq_some_iff.2 ⟨hlocal other hother, hne, hzero⟩⟩

theorem fraction?_point {ds : List Nat} : fraction? ('.' :: cs) = some (ds, rest) ↔
    digits cs = (ds, rest) ∧ ds ≠ [] := by
  rw [fraction?]
  split
  · next heq =>
    rw [heq]
    constructor
    · intro h
      cases h
    · rintro ⟨h, hne⟩
      cases h
      exact absurd rfl hne
  · next hne =>
    rw [Option.some_inj]
    constructor
    · intro h
      refine ⟨h, ?_⟩
      rintro rfl
      exact hne _ h
    · exact And.left

theorem fraction?_none (h : cs.head? ≠ some '.') : fraction? cs = some ([], cs) := by
  unfold fraction?
  split
  · exact absurd rfl h
  · rfl

theorem fraction?_local : Local fraction? := by
  intro cs ds rest h
  by_cases hpoint : cs.head? = some '.'
  · obtain ⟨tail, rfl⟩ := List.head?_eq_some_iff.1 hpoint
    obtain ⟨hdigits, hne⟩ := fraction?_point.1 h
    obtain ⟨taken, -, rfl, hlocal⟩ := digits_some_local hdigits hne
    exact ⟨'.' :: taken, rfl, fun other hother => fraction?_point.2 ⟨hlocal other hother, hne⟩⟩
  · cases (fraction?_none hpoint).symm.trans h
    refine ⟨[], rfl, fun other hother => fraction?_none ?_⟩
    rcases hother with hhead | hends
    · rwa [List.nil_append, hhead]
    · exact fun hhead => (hends '.' hhead).2.1 rfl

theorem minus_none (h : cs.head? ≠ some '-') : minus cs = (false, cs) := by
  unfold minus
  split
  · exact absurd rfl h
  · rfl

theorem minus_local (cs : List Char) : ∃ taken, cs = taken ++ (minus cs).2 ∧
    ∀ other, other.head? = (minus cs).2.head? → minus (taken ++ other) = ((minus cs).1, other) := by
  by_cases hminus : cs.head? = some '-'
  · obtain ⟨tail, rfl⟩ := List.head?_eq_some_iff.1 hminus
    exact ⟨['-'], rfl, fun _ _ => rfl⟩
  · rw [minus_none hminus]
    exact ⟨[], rfl, fun other hother => minus_none (by rwa [List.nil_append, hother])⟩

theorem exponentSign_none (hminus : cs.head? ≠ some '-') (hplus : cs.head? ≠ some '+') :
    exponentSign cs = (false, cs) := by
  unfold exponentSign
  split
  · exact absurd rfl hminus
  · exact absurd rfl hplus
  · rfl

theorem exponentSign_local (cs : List Char) : ∃ taken, cs = taken ++ (exponentSign cs).2 ∧
    ∀ other, other.head? = (exponentSign cs).2.head? →
      exponentSign (taken ++ other) = ((exponentSign cs).1, other) := by
  by_cases hminus : cs.head? = some '-'
  · obtain ⟨tail, rfl⟩ := List.head?_eq_some_iff.1 hminus
    exact ⟨['-'], rfl, fun _ _ => rfl⟩
  by_cases hplus : cs.head? = some '+'
  · obtain ⟨tail, rfl⟩ := List.head?_eq_some_iff.1 hplus
    exact ⟨['+'], rfl, fun _ _ => rfl⟩
  · rw [exponentSign_none hminus hplus]
    exact ⟨[], rfl, fun other hother => exponentSign_none (by rwa [List.nil_append, hother])
      (by rwa [List.nil_append, hother])⟩

theorem exponent?_letter {e : Option (Bool × List Nat)} (hc : c = 'e' ∨ c = 'E') :
    exponent? (c :: cs) = some (e, rest) ↔ ∃ ds, ds ≠ [] ∧
      digits (exponentSign cs).2 = (ds, rest) ∧ e = some ((exponentSign cs).1, ds) := by
  rw [exponent?, if_pos hc]
  dsimp only
  split
  · next heq =>
    rw [heq]
    constructor
    · intro h
      cases h
    · rintro ⟨ds, hne, h, -⟩
      cases h
      exact absurd rfl hne
  · next ds rest' hne heq =>
    rw [heq, Option.some_inj]
    constructor
    · intro h
      cases h
      exact ⟨ds, hne, rfl, rfl⟩
    · rintro ⟨ds, -, h, rfl⟩
      cases h
      rfl

theorem exponent?_no_letter (h : ∀ c ∈ cs.head?, ¬ (c = 'e' ∨ c = 'E')) :
    exponent? cs = some (none, cs) := by
  cases cs with
  | nil => rfl
  | cons c cs => rw [exponent?, if_neg (h c rfl)]

theorem exponent?_local : Local exponent? := by
  intro cs e rest h
  by_cases hletter : ∃ c ∈ cs.head?, c = 'e' ∨ c = 'E'
  · obtain ⟨c, hhead, hc⟩ := hletter
    obtain ⟨tail, rfl⟩ := List.head?_eq_some_iff.1 hhead
    obtain ⟨ds, hne, hdigits, rfl⟩ := (exponent?_letter hc).1 h
    obtain ⟨sign, hsign, hsigned⟩ := exponentSign_local tail
    obtain ⟨taken, htaken, hrest, hlocal⟩ := digits_some_local hdigits hne
    refine ⟨c :: (sign ++ taken), ?_, fun other hother => ?_⟩
    · rw [List.cons_append, List.append_assoc, ← hrest, ← hsign]
    · have hsame : (taken ++ other).head? = (exponentSign tail).2.head? := by
        rw [hrest]
        exact head?_taken htaken other rest
      rw [List.cons_append, List.append_assoc, exponent?_letter hc, hsigned _ hsame]
      exact ⟨ds, hne, hlocal other hother, rfl⟩
  · have hnone : ∀ c ∈ cs.head?, ¬ (c = 'e' ∨ c = 'E') := fun c hc hcase => hletter ⟨c, hc, hcase⟩
    cases (exponent?_no_letter hnone).symm.trans h
    refine ⟨[], rfl, fun other hother => exponent?_no_letter ?_⟩
    rcases hother with hhead | hends
    · rwa [List.nil_append, hhead]
    · exact fun c hc => not_or.2 (hends c hc).2.2

theorem number?_eq_some_iff {n : Numeral} : number? cs = some (n, rest) ↔
    ∃ afterWhole afterFraction, whole? (minus cs).2 = some (n.whole, afterWhole) ∧
      fraction? afterWhole = some (n.fraction, afterFraction) ∧
      exponent? afterFraction = some (n.exponent, rest) ∧ n.negative = (minus cs).1 := by
  simp only [number?, Option.bind_eq_bind, Option.bind_eq_some_iff, Option.pure_def,
    Option.some.injEq, Prod.exists, Prod.mk.injEq]
  constructor
  · rintro ⟨whole, afterWhole, hwhole, fraction, afterFraction, hfraction, exponent, _, hexponent,
      rfl, rfl⟩
    exact ⟨afterWhole, afterFraction, hwhole, hfraction, hexponent, rfl⟩
  · rintro ⟨afterWhole, afterFraction, hwhole, hfraction, hexponent, hnegative⟩
    refine ⟨_, afterWhole, hwhole, _, afterFraction, hfraction, _, rest, hexponent, ?_, rfl⟩
    rw [← hnegative]

theorem number?_local : Local number? := by
  intro cs n rest h
  obtain ⟨afterWhole, afterFraction, hwhole, hfraction, hexponent, hnegative⟩ :=
    number?_eq_some_iff.1 h
  obtain ⟨sign, hsign, hsigned⟩ := minus_local cs
  obtain ⟨whole, hne, hcs, hwhole'⟩ := whole?_local hwhole
  obtain ⟨fraction, rfl, hfraction'⟩ := fraction?_local _ _ _ hfraction
  obtain ⟨exponent, rfl, hexponent'⟩ := exponent?_local _ _ _ hexponent
  refine ⟨sign ++ (whole ++ (fraction ++ exponent)), ?_, fun other hother => ?_⟩
  · rw [hsign, hcs]
    simp only [List.append_assoc]
  · have hsame : (whole ++ (fraction ++ (exponent ++ other))).head? = (minus cs).2.head? := by
      rw [hcs]
      exact head?_taken hne _ _
    have hafter := hother.append exponent
    simp only [List.append_assoc]
    rw [number?_eq_some_iff, hsigned _ hsame]
    exact ⟨_, _, hwhole' _ (hafter.append fraction), hfraction' _ hafter, hexponent' _ hother,
      hnegative⟩

/-! Tokens. -/

theorem head_of_number? {n : Numeral} (h : number? (c :: cs) = some (n, rest)) :
    c = '-' ∨ isDigit c = true := by
  by_cases hminus : c = '-'
  · exact .inl hminus
  · obtain ⟨_, _, hwhole, -⟩ := number?_eq_some_iff.1 h
    have hhead : (c :: cs).head? ≠ some '-' := fun heq => hminus (Option.some.inj heq)
    rw [minus_none hhead] at hwhole
    obtain ⟨hdigits, hne, -⟩ := whole?_eq_some_iff.1 hwhole
    by_contra hc
    rw [not_or, Bool.not_eq_true] at hc
    rw [digits, List.takeWhile_cons, hc.2] at hdigits
    exact hne (Prod.mk.inj hdigits).1.symm

theorem next?_local (c : Char) : Local (next? c) := by
  intro cs t rest h
  by_cases hc : c = '-' ∨ isDigit c = true
  · rw [next?_number hc, Option.map_eq_some_iff] at h
    obtain ⟨⟨n, _⟩, hnumber, heq⟩ := h
    cases heq
    obtain ⟨taken, hcs, hlocal⟩ := number?_local _ _ _ hnumber
    cases taken with
    | nil =>
      have hlength := number?_length hnumber
      rw [hcs] at hlength
      exact absurd hlength (Nat.lt_irrefl _)
    | cons d taken =>
      obtain ⟨rfl, rfl⟩ := List.cons.inj hcs
      refine ⟨taken, rfl, fun other hother => ?_⟩
      have hother' : number? (c :: (taken ++ other)) = some (n, other) := hlocal other hother
      rw [next?_number hc, hother', Option.map_some]
  · unfold next? at h
    split at h
    case h_7 =>
      obtain ⟨⟨s, _⟩, hstring, heq⟩ := Option.map_eq_some_iff.1 h
      cases heq
      obtain ⟨taken, rfl, hlocal⟩ := string?_local hstring
      exact ⟨taken, rfl, fun other _ => by simp only [next?, hlocal, Option.map_some]⟩
    all_goals first
      | cases h
        exact ⟨[], rfl, fun _ _ => rfl⟩
      | obtain ⟨_, hword, heq⟩ := Option.map_eq_some_iff.1 h
        cases heq
        obtain ⟨rfl, hlocal⟩ := word?_local hword
        exact ⟨_, rfl, fun other _ => by simp only [next?, hlocal, Option.map_some]⟩
      | obtain ⟨⟨n, _⟩, hnumber, -⟩ := Option.map_eq_some_iff.1 h
        exact absurd (head_of_number? hnumber) hc

theorem readFrom?_blank (hc : isBlank c = true) (done : List Token) (cs : List Char) :
    readFrom? done (c :: cs) = readFrom? done cs := by
  rw [readFrom?, if_pos hc]

theorem readFrom?_none (hc : isBlank c = false) (h : next? c cs = none) (done : List Token) :
    readFrom? done (c :: cs) = none := by
  rw [readFrom?, hc, if_neg Bool.false_ne_true]
  split
  · rfl
  · next heq => cases heq.symm.trans h

/-- What has been read before only comes in front. -/
theorem readFrom?_eq (done : List Token) (cs : List Char) :
    readFrom? done cs = (read? cs).map (done.reverse ++ ·) := by
  induction hlength : cs.length using Nat.strong_induction_on generalizing cs done with
  | _ length ih =>
    subst hlength
    cases cs with
    | nil =>
      rw [read?, readFrom?, readFrom?, Option.map_some, List.reverse_nil, List.append_nil]
    | cons c cs =>
      cases hblank : isBlank c with
      | true =>
        rw [read?, readFrom?_blank hblank, readFrom?_blank hblank]
        exact ih _ (Nat.lt_succ_self _) done cs rfl
      | false =>
        cases hnext : next? c cs with
        | none =>
          rw [read?, readFrom?_none hblank hnext, readFrom?_none hblank hnext]
          rfl
        | some found =>
          obtain ⟨t, rest⟩ := found
          have hshorter := Nat.lt_succ_of_le (next?_length hnext)
          rw [read?, readFrom?_cons hblank hnext, readFrom?_cons hblank hnext,
            ih _ hshorter (t :: done) rest rfl, ih _ hshorter [t] rest rfl, Option.map_map]
          simp only [List.reverse_cons, List.append_assoc, Function.comp_def, List.reverse_nil,
            List.nil_append]

theorem read?_nil : read? [] = some [] := by
  rw [read?, readFrom?]
  rfl

theorem read?_blank (hc : isBlank c = true) (cs : List Char) : read? (c :: cs) = read? cs :=
  readFrom?_blank hc [] cs

theorem read?_cons (hc : isBlank c = false) (h : next? c cs = some (t, rest)) :
    read? (c :: cs) = (read? rest).map (t :: ·) := by
  rw [read?, readFrom?_cons hc h, readFrom?_eq]
  rfl

theorem read?_blanks {blanks : List Char} (h : ∀ c ∈ blanks, isBlank c = true) (cs : List Char) :
    read? (blanks ++ cs) = read? cs := by
  induction blanks with
  | nil => rfl
  | cons c blanks ih =>
    rw [List.forall_mem_cons] at h
    rw [List.cons_append, read?_blank h.1, ih h.2]

/-- The first token of a text, and the blanks in front of it. -/
theorem exists_first (h : read? cs = some (t :: ts)) : ∃ blanks c taken rest,
    cs = blanks ++ c :: (taken ++ rest) ∧ (∀ b ∈ blanks, isBlank b = true) ∧ isBlank c = false ∧
      (∀ other, Follows rest other → next? c (taken ++ other) = some (t, other)) ∧
      read? rest = some ts := by
  induction cs with
  | nil => cases read?_nil.symm.trans h
  | cons c cs ih =>
    cases hblank : isBlank c with
    | true =>
      rw [read?_blank hblank] at h
      obtain ⟨blanks, d, taken, rest, rfl, hblanks, hfirst⟩ := ih h
      exact ⟨c :: blanks, d, taken, rest, rfl, List.forall_mem_cons.2 ⟨hblank, hblanks⟩, hfirst⟩
    | false =>
      cases hnext : next? c cs with
      | none => cases (readFrom?_none hblank hnext []).symm.trans h
      | some found =>
        obtain ⟨t', rest⟩ := found
        rw [read?_cons hblank hnext, Option.map_eq_some_iff] at h
        obtain ⟨ts', hrest, heq⟩ := h
        cases heq
        obtain ⟨taken, rfl, hlocal⟩ := next?_local c _ _ _ hnext
        exact ⟨[], c, taken, rest, rfl, List.forall_mem_nil _, hblank, hlocal, hrest⟩

/-- A text without tokens is blank. -/
theorem isBlank_of_read?_nil (h : read? cs = some []) : ∀ c ∈ cs, isBlank c = true := by
  induction cs with
  | nil => exact List.forall_mem_nil _
  | cons c cs ih =>
    cases hblank : isBlank c with
    | true =>
      rw [read?_blank hblank] at h
      exact List.forall_mem_cons.2 ⟨hblank, ih h⟩
    | false =>
      cases hnext : next? c cs with
      | none => cases (readFrom?_none hblank hnext []).symm.trans h
      | some found =>
        rw [read?_cons hblank hnext, Option.map_eq_some_iff] at h
        obtain ⟨_, -, heq⟩ := h
        cases heq

theorem ends_blanks {blanks : List Char} (h : ∀ c ∈ blanks, isBlank c = true) : Ends blanks := by
  intro c hc
  have hblank := h c (List.mem_of_mem_head? hc)
  simp only [isBlank, Bool.or_eq_true, decide_eq_true_eq] at hblank
  rcases hblank with ((rfl | rfl) | rfl) | rfl <;> decide

/-- A text is read in front of another one as it is alone. -/
theorem read?_append (h : read? cs = some ts) (hrest : Ends rest) :
    read? (cs ++ rest) = (read? rest).map (ts ++ ·) := by
  induction ts generalizing cs with
  | nil =>
    rw [read?_blanks (isBlank_of_read?_nil h)]
    exact Option.map_id'.symm
  | cons t ts ih =>
    obtain ⟨blanks, c, taken, after, rfl, hblanks, hc, hnext, hafter⟩ := exists_first h
    have hfirst := hnext (after ++ rest) (follows_longer hrest after)
    rw [List.append_assoc, read?_blanks hblanks, List.cons_append, List.append_assoc,
      read?_cons hc hfirst, ih hafter, Option.map_map]
    rfl

/-- A text can be cut wherever its tokens can. -/
theorem exists_pieces (h : read? cs = some (ts ++ more)) :
    ∃ piece rest, cs = piece ++ rest ∧ read? piece = some ts ∧ read? rest = some more := by
  induction ts generalizing cs with
  | nil => exact ⟨[], cs, rfl, read?_nil, h⟩
  | cons t ts ih =>
    obtain ⟨blanks, c, taken, after, rfl, hblanks, hc, hnext, hafter⟩ := exists_first h
    obtain ⟨piece, rest, rfl, hpiece, hrest⟩ := ih hafter
    refine ⟨blanks ++ c :: (taken ++ piece), rest, ?_, ?_, hrest⟩
    · simp only [List.append_assoc, List.cons_append]
    · rw [read?_blanks hblanks, read?_cons hc (hnext piece (follows_piece piece rest)), hpiece]
      rfl

/-- A character that is a token by itself. -/
structure Marks (c : Char) (t : Token) : Prop where
  notBlank : isBlank c = false
  next : ∀ cs, next? c cs = some (t, cs)
  only : ∀ d cs rest, next? d cs = some (t, rest) → d = c ∧ rest = cs
  ends : ∀ rest, Ends (c :: rest)

theorem Marks.read?_cons (h : Marks c t) (cs : List Char) :
    read? (c :: cs) = (read? cs).map (t :: ·) :=
  Token.read?_cons h.notBlank (h.next cs)

/-- A text can be cut at a character that is a token. What blanks there are before it stay with the
tokens before it. -/
theorem Marks.exists_pieces (hmark : Marks c t) (h : read? cs = some (ts ++ t :: more)) :
    ∃ piece rest, cs = piece ++ c :: rest ∧ read? piece = some ts ∧ read? rest = some more := by
  obtain ⟨piece, after, rfl, hpiece, hafter⟩ := Token.exists_pieces h
  obtain ⟨blanks, d, taken, rest, rfl, hblanks, -, hnext, hrest⟩ := exists_first hafter
  obtain ⟨rfl, htaken⟩ := hmark.only _ _ _ (hnext rest (.inl rfl))
  obtain rfl := List.self_eq_append_left.1 htaken
  refine ⟨piece ++ blanks, rest, ?_, ?_, hrest⟩
  · rw [List.append_assoc, List.nil_append]
  · rw [read?_append hpiece (ends_blanks hblanks), ← List.append_nil blanks,
      read?_blanks hblanks, read?_nil, Option.map_some, List.append_nil]

/-- The characters that are tokens. -/
def marks : List (Char × Token) :=
  [('{', .openObject), ('}', .closeObject), ('[', .openArray), (']', .closeArray), (':', .colon),
    (',', .comma)]

/-- Every other token is a scalar. -/
theorem mem_marks_of_next? (h : next? c cs = some (t, rest)) :
    (∃ s, t = .scalar s) ∨ ((c, t) ∈ marks ∧ rest = cs) := by
  unfold next? at h
  split at h
  all_goals first
    | cases h
      exact .inr ⟨by decide, rfl⟩
    | obtain ⟨_, -, heq⟩ := Option.map_eq_some_iff.1 h
      cases heq
      exact .inl ⟨_, rfl⟩

theorem marks_of_mem (h : (c, t) ∈ marks) : Marks c t := by
  have honly (d : Char) (cs rest : List Char) (hnext : next? d cs = some (t, rest)) :
      d = c ∧ rest = cs := by
    rcases mem_marks_of_next? hnext with ⟨s, rfl⟩ | ⟨hd, rfl⟩
    · simp [marks] at h
    · refine ⟨?_, rfl⟩
      have hinjective : ∀ a ∈ marks, ∀ b ∈ marks, a.2 = b.2 → a.1 = b.1 := by decide
      exact hinjective _ hd _ h rfl
  simp only [marks, List.mem_cons, List.not_mem_nil, or_false, Prod.mk.injEq] at h
  rcases h with ⟨rfl, rfl⟩ | ⟨rfl, rfl⟩ | ⟨rfl, rfl⟩ | ⟨rfl, rfl⟩ | ⟨rfl, rfl⟩ | ⟨rfl, rfl⟩ <;>
    exact ⟨by decide, fun _ => rfl, honly, fun rest d hd => by cases hd; decide⟩

theorem marks_open : Marks '{' .openObject := marks_of_mem (by decide)

theorem marks_close : Marks '}' .closeObject := marks_of_mem (by decide)

theorem marks_colon : Marks ':' .colon := marks_of_mem (by decide)

theorem marks_comma : Marks ',' .comma := marks_of_mem (by decide)

end Token

end Json

end TileViewer
