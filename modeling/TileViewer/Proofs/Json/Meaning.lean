import Mathlib.Logic.Basic
import TileViewer.Json.Record
import TileViewer.Proofs.Exact
import TileViewer.Proofs.Json.Values

/-!
Texts, integers and records are written well, and they mean what they were written for.
-/
namespace TileViewer

namespace Decimal

theorem digitsOf_lt (n : Nat) : ∀ d ∈ digitsOf n, d < 10 := by
  fun_induction digitsOf n with
  | case1 n h =>
    intro d hd
    rwa [List.mem_singleton.1 hd]
  | case2 n _ ih =>
    intro d hd
    rcases List.mem_append.1 hd with hd | hd
    · exact ih d hd
    · rw [List.mem_singleton.1 hd]
      exact Nat.mod_lt n (by decide)

theorem digitsOf_ne_nil (n : Nat) : digitsOf n ≠ [] := by
  fun_induction digitsOf n with
  | case1 => exact List.cons_ne_nil _ _
  | case2 => exact List.append_ne_nil_of_right_ne_nil _ (List.cons_ne_nil _ _)

/-- No number but zero begins with a zero. -/
theorem head?_digitsOf {n : Nat} (hn : 0 < n) : (digitsOf n).head? ≠ some 0 := by
  fun_induction digitsOf n with
  | case1 n =>
    rintro ⟨⟩
    exact absurd hn (Nat.lt_irrefl 0)
  | case2 n h ih =>
    obtain ⟨d, ds, hcons⟩ := List.exists_cons_of_ne_nil (digitsOf_ne_nil (n / 10))
    rw [hcons] at ih ⊢
    exact ih (by omega)

theorem eq_nil_of_digitsOf {n : Nat} {ds : List Nat} (h : digitsOf n = 0 :: ds) : ds = [] := by
  rcases Nat.eq_zero_or_pos n with rfl | hn
  · rw [digitsOf] at h
    exact (List.cons.inj h).2.symm
  · have hhead := head?_digitsOf hn
    rw [h] at hhead
    exact absurd rfl hhead

theorem ofDigits_digitsOf (n : Nat) : Json.Numeral.ofDigits (digitsOf n) = n := by
  fun_induction digitsOf n with
  | case1 n => exact Nat.zero_add n
  | case2 n _ ih =>
    rw [Json.Numeral.ofDigits] at ih ⊢
    rw [List.foldl_append, ih, List.foldl_cons, List.foldl_nil]
    exact Nat.div_add_mod n 10

end Decimal

namespace Json

/-! Texts. -/

theorem StringPart.written_ofChar (c : Char) : (ofChar c).Written := by
  unfold ofChar
  split
  · next h => rcases h with rfl | rfl | rfl | rfl | rfl | rfl | rfl <;> exact rfl
  · next h =>
    split
    · trivial
    · next hspace => exact ⟨fun hc => h (.inl hc), fun hc => h (.inr (.inl hc)), hspace⟩

namespace Literal

theorem written_ofString (s : String) : (ofString s).Written := by
  intro p hp
  obtain ⟨c, -, rfl⟩ := List.mem_map.1 hp
  exact StringPart.written_ofChar c

/-- A character is read as itself, however it is written. -/
theorem chars?_ofChar (done : List Char) (c : Char) (rest : List StringPart) :
    chars? done (.ofChar c :: rest) = chars? (c :: done) rest := by
  unfold StringPart.ofChar
  split
  · rw [chars?]
  · split
    · next hspace =>
      have hc : c.toNat < 32 := UInt32.lt_iff_toNat_lt.1 hspace
      have hunit : c.toNat.toUInt16.toNat = c.toNat :=
        UInt16.toNat_ofNat_of_lt' (Nat.lt_trans hc (by decide))
      have hlow : isLowSurrogate c.toNat.toUInt16 = false := by
        simp only [isLowSurrogate, Bool.and_eq_false_iff, decide_eq_false_iff_not,
          UInt16.le_iff_toNat_le, hunit]
        exact .inl (Nat.not_le.2 (Nat.lt_trans hc (by decide)))
      have hhigh : isHighSurrogate c.toNat.toUInt16 = false := by
        simp only [isHighSurrogate, Bool.and_eq_false_iff, decide_eq_false_iff_not,
          UInt16.le_iff_toNat_le, hunit]
        exact .inl (Nat.not_le.2 (Nat.lt_trans hc (by decide)))
      rw [chars?.eq_def]
      dsimp only
      rw [hlow, hhigh, hunit, Char.ofNat_toNat]
      rfl
    · rw [chars?]

theorem chars?_map_ofChar (done cs : List Char) :
    chars? done (cs.map StringPart.ofChar) = some (done.reverse ++ cs) := by
  induction cs generalizing done with
  | nil => rw [List.map_nil, chars?, List.append_nil]
  | cons c cs ih =>
    rw [List.map_cons, chars?_ofChar, ih, List.reverse_cons, List.append_assoc,
      List.singleton_append]

@[simp]
theorem text?_ofString (s : String) : (ofString s).text? = some s := by
  rw [text?, ofString, chars?_map_ofChar, Option.map_some, List.reverse_nil, List.nil_append,
    String.ofList_toList]

end Literal

theorem written_ofText (s : String) : (ofText s).Written := .scalar (Literal.written_ofString s)

@[simp]
theorem text?_ofText (s : String) : (ofText s).text? = some s := Literal.text?_ofString s

theorem written_bool (b : Bool) : (bool b).Written := .scalar trivial

/-! Integers. -/

theorem Numeral.written_ofInt (z : Int) : (Numeral.ofInt z).Written where
  whole := Decimal.digitsOf_ne_nil _
  noZero _ := Decimal.eq_nil_of_digitsOf
  wholeDigits := Decimal.digitsOf_lt _
  fractionDigits := nofun
  exponent := nofun

theorem Numeral.int?_ofInt (z : Int) : (Numeral.ofInt z).int? = some z := by
  have hinteger : (Numeral.ofInt z).isInteger = true := rfl
  rw [int?, if_pos hinteger]
  simp only [Numeral.ofInt, Decimal.ofDigits_digitsOf, decide_eq_true_eq]
  split
  · rw [if_neg (by omega)]
    exact congrArg some (by omega)
  · exact congrArg some (by omega)

theorem written_ofInt (z : Int) : (ofInt z).Written := .scalar (Numeral.written_ofInt z)

theorem word?_ofInt {α : Type} [Word α] (a : α) : (ofInt (Word.toInt a)).word? = some a := by
  have hfit : (Word.fit .add (Word.toInt a) : Except Overflow α) = .ok a := Word.fit_eq_ok_iff.2 rfl
  change (Numeral.ofInt (Word.toInt a)).word? = some a
  rw [Numeral.word?, Numeral.int?_ofInt, Option.bind_some, hfit]
  rfl

@[simp]
theorem word?_int32 (a : Int32) : (ofInt a.toInt).word? = some a := word?_ofInt a

@[simp]
theorem word?_int64 (a : Int64) : (ofInt a.toInt).word? = some a := word?_ofInt a

@[simp]
theorem word?_uint32 (a : UInt32) : (ofInt a.toNat).word? = some a := word?_ofInt a

@[simp]
theorem word?_uint64 (a : UInt64) : (ofInt a.toNat).word? = some a := word?_ofInt a

/-! Lists, and what may be absent. -/

section

variable {α : Type} {f : Json → Option α} {g : α → Json}

theorem written_array_map {as : List α} (h : ∀ a ∈ as, (g a).Written) :
    (array (as.map g)).Written := by
  refine .array fun v hv => ?_
  obtain ⟨a, ha, rfl⟩ := List.mem_map.1 hv
  exact h a ha

theorem list?_map {as : List α} (h : ∀ a ∈ as, f (g a) = some a) :
    list? f (array (as.map g)) = some as := by
  rw [list?]
  induction as with
  | nil => rfl
  | cons a as ih =>
    rw [List.forall_mem_cons] at h
    rw [List.map_cons, List.mapM_cons, h.1, ih h.2]
    rfl

theorem written_ofOption {o : Option α} (h : ∀ a, (g a).Written) : (ofOption g o).Written := by
  cases o with
  | none => exact .scalar trivial
  | some a => exact h a

theorem nullable?_ofOption (hnull : ∀ a, g a ≠ null) (h : ∀ a, f (g a) = some a) (o : Option α) :
    nullable? f (ofOption g o) = some o := by
  cases o with
  | none => rfl
  | some a =>
    have hsome : nullable? f (g a) = (f (g a)).map some := by
      rw [nullable?]
      exact hnull a
    rw [ofOption, hsome, h, Option.map_some]

end

@[simp]
theorem nullable?_ofText (o : Option String) : nullable? text? (ofOption ofText o) = some o :=
  nullable?_ofOption (g := ofText) (fun _ => nofun) text?_ofText o

/-! Records. -/

variable {names : List String} {fields : List (String × Json)} {members : List (Literal × Json)}

theorem written_ofFields (h : ∀ m ∈ fields, m.2.Written) : (ofFields fields).Written := by
  refine .object ?_ ?_
  · intro m hm
    obtain ⟨field, -, rfl⟩ := List.mem_map.1 hm
    exact Literal.written_ofString _
  · intro m hm
    obtain ⟨field, hfield, rfl⟩ := List.mem_map.1 hm
    exact h field hfield

namespace Record

/-- The members whose keys mean something, under what they mean. -/
def keyed (members : List (Literal × Json)) : List (String × Json) :=
  members.filterMap fun m => m.1.text?.map fun name => (name, m.2)

theorem keyed_cons {m : Literal × Json} {name : String} (h : m.1.text? = some name) :
    keyed (m :: members) = (name, m.2) :: keyed members :=
  List.filterMap_cons_some (by rw [h]; rfl)

/-- The members that are fields. -/
def known (names : List String) (members : List (Literal × Json)) : List (String × Json) :=
  (keyed members).filter fun field => names.contains field.1

/-- Members can be keyed if every key means something. -/
theorem mapM_text? (members : List (Literal × Json)) :
    (members.mapM fun m => m.1.text?.map fun name => (name, m.2)) =
      if ∀ m ∈ members, m.1.text?.isSome then some (keyed members) else none := by
  induction members with
  | nil => rfl
  | cons m members ih =>
    rw [List.mapM_cons, ih]
    cases htext : m.1.text? with
    | none =>
      have hnot : ¬∀ k ∈ m :: members, k.1.text?.isSome := by
        rw [List.forall_mem_cons, htext]
        exact fun hall => Bool.noConfusion hall.1
      rw [if_neg hnot]
      rfl
    | some name =>
      have hall : (∀ k ∈ m :: members, k.1.text?.isSome) ↔ ∀ k ∈ members, k.1.text?.isSome := by
        rw [List.forall_mem_cons, htext]
        exact and_iff_right rfl
      rw [keyed_cons htext, if_congr hall rfl rfl]
      split <;> rfl

theorem ofMembers?_eq (names : List String) (members : List (Literal × Json)) :
    ofMembers? names members =
      if (∀ m ∈ members, m.1.text?.isSome) ∧ ((known names members).map Prod.fst).Nodup then
        some ⟨false, known names members⟩
      else none := by
  change Option.bind (members.mapM fun m => m.1.text?.map fun name => (name, m.2)) _ = _
  rw [mapM_text?, ite_and]
  split <;> rfl

/-- The fields that a record takes from an object. -/
theorem ofJson?_eq_filter : ofJson? names (ofFields fields) =
    if ((fields.filter fun field => names.contains field.1).map Prod.fst).Nodup then
      some ⟨false, fields.filter fun field => names.contains field.1⟩
    else none := by
  have hkeyed : keyed (fields.map fun field => (Literal.ofString field.1, field.2)) = fields := by
    induction fields with
    | nil => rfl
    | cons field fields ih => rw [List.map_cons, keyed_cons (Literal.text?_ofString _), ih]
  have htexts : ∀ m ∈ fields.map fun field => (Literal.ofString field.1, field.2),
      m.1.text?.isSome := by
    intro m hm
    obtain ⟨field, -, rfl⟩ := List.mem_map.1 hm
    rw [Literal.text?_ofString]
    rfl
  change ofMembers? names (fields.map fun field => (Literal.ofString field.1, field.2)) = _
  rw [ofMembers?_eq, known, hkeyed, if_congr (and_iff_right htexts) rfl rfl]

/-- A record with all its fields gives them back. -/
theorem ofJson?_ofFields (hnames : fields.map Prod.fst = names) (hnodup : names.Nodup) :
    ofJson? names (ofFields fields) = some ⟨false, fields⟩ := by
  have hall : (fields.filter fun field => names.contains field.1) = fields := by
    rw [List.filter_eq_self]
    intro field hfield
    rw [← hnames]
    exact List.contains_iff_mem.2 (List.mem_map_of_mem hfield)
  rw [ofJson?_eq_filter, hall, if_pos (hnames ▸ hnodup)]

/-- A record with none of the fields has nothing to give. -/
theorem ofJson?_of_disjoint (h : ∀ name ∈ fields.map Prod.fst, name ∉ names) :
    ofJson? names (ofFields fields) = some ⟨false, []⟩ := by
  have hnone : (fields.filter fun field => names.contains field.1) = [] := by
    rw [List.filter_eq_nil_iff]
    intro field hfield hmem
    exact h field.1 (List.mem_map_of_mem hfield) (List.contains_iff_mem.1 hmem)
  rw [ofJson?_eq_filter, hnone, List.map_nil, if_pos List.nodup_nil]

/-- The value of a field is the first one under its name. -/
@[simp]
theorem lookup_cons (name key : String) (v : Json) (fields : List (String × Json)) :
    ((key, v) :: fields).lookup name = if name = key then some v else fields.lookup name := by
  rw [List.lookup_cons]
  by_cases h : name = key
  · rw [if_pos h, h, beq_self_eq_true]
  · rw [if_neg h, beq_false_of_ne h]

end Record

end Json

end TileViewer
