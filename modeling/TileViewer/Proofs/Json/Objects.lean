import TileViewer.Proofs.Json.Tokens
import TileViewer.Proofs.Json.Values

/-!
The text of an object and those of its members. Whatever stands around a value, the reader builds
it from the same tokens, and a text is read as an object exactly if it is one member after the
other, with commas between them and the braces around them.
-/
namespace TileViewer

namespace Json

namespace ReadState

/-- The same state with further containers around it. What is done is then a part of those. -/
def within (outer : List Enclosing) : ReadState → ReadState
  | value inner => value (inner ++ outer)
  | itemOrEnd inner => itemOrEnd (inner ++ outer)
  | afterItem items inner => afterItem items (inner ++ outer)
  | keyOrEnd inner => keyOrEnd (inner ++ outer)
  | nextKey members inner => nextKey members (inner ++ outer)
  | colon members key inner => colon members key (inner ++ outer)
  | afterMember members inner => afterMember members (inner ++ outer)
  | done v => deliver v outer

variable {s s' : ReadState} {t : Token} {ts more : List Token} {outer : List Enclosing}
  {v w : Json} {members : List (Literal × Json)} {k : Literal}

theorem within_deliver (v : Json) (inner outer : List Enclosing) :
    within outer (deliver v inner) = deliver v (inner ++ outer) := by
  cases inner with
  | nil => rfl
  | cons container inner => cases container <;> rfl

theorem begin?_within (inner outer : List Enclosing) (t : Token) :
    begin? (inner ++ outer) t = (begin? inner t).map (within outer) := by
  cases t with
  | scalar s => exact congrArg some (within_deliver _ _ _).symm
  | _ => rfl

/-- Nothing may come after a whole value. -/
theorem step?_done (v : Json) (t : Token) : step? (done v) t = none := by
  cases t <;> rfl

/-- The first item of an array is read like any other. -/
theorem step?_itemOrEnd {inner : List Enclosing} (ht : t ≠ .closeArray) :
    step? (itemOrEnd inner) t = begin? (.array [] :: inner) t := by
  cases t with
  | closeArray => exact absurd rfl ht
  | _ => rfl

/-- A step does not look at the containers further out. -/
theorem step?_within (hs : ∀ v, s ≠ done v) (t : Token) :
    step? (within outer s) t = (step? s t).map (within outer) := by
  cases s with
  | done v => exact absurd rfl (hs v)
  | value inner => exact begin?_within inner outer t
  | itemOrEnd inner =>
    by_cases ht : t = .closeArray
    · subst ht
      exact congrArg some (within_deliver _ _ _).symm
    · rw [step?_itemOrEnd ht, within, step?_itemOrEnd ht]
      exact begin?_within (.array [] :: inner) outer t
  | afterItem items inner =>
    cases t with
    | closeArray => exact congrArg some (within_deliver _ _ _).symm
    | _ => rfl
  | keyOrEnd inner =>
    cases t with
    | closeObject => exact congrArg some (within_deliver _ _ _).symm
    | scalar s => cases s <;> rfl
    | _ => rfl
  | nextKey members inner =>
    cases t with
    | scalar s => cases s <;> rfl
    | _ => rfl
  | colon members k inner => cases t <;> rfl
  | afterMember members inner =>
    cases t with
    | closeObject => exact congrArg some (within_deliver _ _ _).symm
    | _ => rfl

/-- The tokens of a value make it a part of whatever is around it. -/
theorem foldlM_within (h : ts.foldlM step? s = some (done v)) :
    (ts ++ more).foldlM step? (within outer s) = more.foldlM step? (deliver v outer) := by
  induction ts generalizing s with
  | nil =>
    cases h
    rfl
  | cons t ts ih =>
    rw [List.foldlM_cons] at h
    obtain ⟨s', hstep, h⟩ := Option.bind_eq_some_iff.1 h
    have hs : ∀ v, s ≠ done v := by
      rintro v rfl
      cases (step?_done v t).symm.trans hstep
    have hwithin : step? (within outer s) t = some (within outer s') := by
      rw [step?_within hs, hstep, Option.map_some]
    rw [List.cons_append, foldlM_of_step hwithin, ih h]

/-- A value in a container ends somewhere, and has been read by then as it would be alone. -/
theorem exists_value (hs : ∀ v, s ≠ done v)
    (h : ts.foldlM step? (within outer s) = some (done w)) : ∃ piece rest v,
      ts = piece ++ rest ∧ piece.foldlM step? s = some (done v) ∧
      rest.foldlM step? (deliver v outer) = some (done w) := by
  induction ts generalizing s with
  | nil =>
    cases s with
    | done v => exact absurd rfl (hs v)
    | _ => cases h
  | cons t ts ih =>
    rw [List.foldlM_cons] at h
    obtain ⟨_, hstep, h⟩ := Option.bind_eq_some_iff.1 h
    rw [step?_within hs, Option.map_eq_some_iff] at hstep
    obtain ⟨s', hstep, rfl⟩ := hstep
    by_cases hdone : ∃ v, s' = done v
    · obtain ⟨v, rfl⟩ := hdone
      exact ⟨[t], ts, v, rfl, foldlM_of_step hstep [], h⟩
    · obtain ⟨piece, rest, v, rfl, hpiece, hrest⟩ := ih (fun v hv => hdone ⟨v, hv⟩) h
      exact ⟨t :: piece, rest, v, rfl, (foldlM_of_step hstep piece).trans hpiece, hrest⟩

theorem eq_nil_of_done (h : ts.foldlM step? (done v) = some (done w)) : ts = [] ∧ v = w := by
  cases ts with
  | nil =>
    cases h
    exact ⟨rfl, rfl⟩
  | cons t ts =>
    rw [List.foldlM_cons, step?_done] at h
    cases h

/-- A value has been read in a container, up to the rest of what the container holds. -/
theorem exists_content {container : Enclosing}
    (h : ts.foldlM step? (value [container]) = some (done w)) : ∃ piece rest v,
      ts = piece ++ rest ∧ rest.length < ts.length ∧
      piece.foldlM step? (value []) = some (done v) ∧
      rest.foldlM step? (deliver v [container]) = some (done w) := by
  have hwithin : ts.foldlM step? (within [container] (value [])) = some (done w) := h
  obtain ⟨piece, rest, v, rfl, hpiece, hrest⟩ :=
    exists_value (s := value []) (fun _ => nofun) hwithin
  refine ⟨piece, rest, v, rfl, ?_, hpiece, hrest⟩
  cases piece with
  | nil => cases hpiece
  | cons t piece =>
    rw [List.length_append, List.length_cons]
    omega

/-- What begins as an array is one in the end. -/
theorem array_of_items {items : List Json}
    (h : ts.foldlM step? (value [.array items]) = some (done w)) : ∃ items, w = .array items := by
  induction hlength : ts.length using Nat.strong_induction_on generalizing ts items with
  | _ length ih =>
    obtain ⟨piece, rest, v, -, hshorter, -, hrest⟩ := exists_content h
    cases rest with
    | nil => cases hrest
    | cons t rest =>
      rw [List.length_cons] at hshorter
      rw [List.foldlM_cons] at hrest
      cases t with
      | comma => exact ih _ (by omega) hrest rfl
      | closeArray => exact ⟨_, (eq_nil_of_done hrest).2.symm⟩
      | _ => cases hrest

/-- A member begins with its key. -/
theorem exists_key (h : ts.foldlM step? (nextKey members outer) = some (done w)) :
    ∃ k rest, ts = .scalar (.string k) :: rest ∧
      rest.foldlM step? (colon members k outer) = some (done w) := by
  cases ts with
  | nil => cases h
  | cons t rest =>
    rw [List.foldlM_cons] at h
    cases t with
    | scalar s =>
      cases s with
      | string k => exact ⟨k, rest, rfl, h⟩
      | _ => cases h
    | _ => cases h

theorem exists_colon (h : ts.foldlM step? (colon members k outer) = some (done w)) :
    ∃ rest, ts = .colon :: rest ∧
      rest.foldlM step? (value (.object members k :: outer)) = some (done w) := by
  cases ts with
  | nil => cases h
  | cons t rest =>
    rw [List.foldlM_cons] at h
    cases t with
    | colon => exact ⟨rest, rfl, h⟩
    | _ => cases h

/-- After a member the object ends, or there is another one. -/
theorem ends_or_goes_on (h : ts.foldlM step? (afterMember members []) = some (done w)) :
    (ts = [.closeObject] ∧ w = .object members.reverse) ∨
      ∃ rest, ts = .comma :: rest ∧ rest.foldlM step? (nextKey members []) = some (done w) := by
  cases ts with
  | nil => cases h
  | cons t rest =>
    rw [List.foldlM_cons] at h
    cases t with
    | closeObject =>
      obtain ⟨rfl, rfl⟩ := eq_nil_of_done h
      exact .inl ⟨rfl, rfl⟩
    | comma => exact .inr ⟨rest, rfl, h⟩
    | _ => cases h

theorem array_of_open (h : ts.foldlM step? (itemOrEnd []) = some (done w)) :
    ∃ items, w = .array items := by
  cases ts with
  | nil => cases h
  | cons t rest =>
    rw [List.foldlM_cons] at h
    by_cases ht : t = .closeArray
    · subst ht
      exact ⟨[], (eq_nil_of_done h).2.symm⟩
    · rw [step?_itemOrEnd ht] at h
      have hvalue : (t :: rest).foldlM step? (value [.array []]) = some (done w) := by
        rw [List.foldlM_cons]
        exact h
      exact array_of_items hvalue

theorem ends_or_begins (h : ts.foldlM step? (keyOrEnd []) = some (done w)) :
    (ts = [.closeObject] ∧ w = .object []) ∨
      ts.foldlM step? (nextKey [] []) = some (done w) := by
  cases ts with
  | nil => cases h
  | cons t rest =>
    rw [List.foldlM_cons] at h ⊢
    cases t with
    | closeObject =>
      obtain ⟨rfl, rfl⟩ := eq_nil_of_done h
      exact .inl ⟨rfl, rfl⟩
    | scalar s =>
      cases s with
      | string k => exact .inr h
      | _ => cases h
    | _ => cases h

/-- An object begins with its brace. -/
theorem exists_open (h : ts.foldlM step? (value []) = some (done (.object members))) :
    ∃ rest, ts = .openObject :: rest ∧
      rest.foldlM step? (keyOrEnd []) = some (done (.object members)) := by
  cases ts with
  | nil => cases h
  | cons t rest =>
    rw [List.foldlM_cons] at h
    cases t with
    | openObject => exact ⟨rest, rfl, h⟩
    | openArray => cases (array_of_open h).choose_spec
    | scalar s => cases (eq_nil_of_done h).2
    | _ => cases h

end ReadState

open ReadState

/-- The text of a member, as that of its key and that of its value. -/
structure MemberText where
  key : List Char
  value : List Char
  name : Literal
  content : Json
  key_eq : Token.read? key = some [.scalar (.string name)]
  value_eq : (Token.read? value).bind ofTokens? = some content

namespace MemberText

def entry (m : MemberText) : Literal × Json := (m.name, m.content)

def chars (m : MemberText) : List Char := m.key ++ ':' :: m.value

/-- Members with commas between them. -/
def join : List MemberText → List Char
  | [] => []
  | [m] => m.chars
  | m :: rest => m.chars ++ ',' :: join rest

end MemberText

/-- The text of an object, with blanks around it and before its first member. -/
structure ObjectText where
  before : List Char
  gap : List Char
  members : List MemberText
  after : List Char
  blank : ∀ c ∈ before ++ gap ++ after, Token.isBlank c = true

namespace ObjectText

def entries (o : ObjectText) : List (Literal × Json) := o.members.map MemberText.entry

def text (o : ObjectText) : String :=
  String.ofList (o.before ++ '{' :: (o.gap ++ (MemberText.join o.members ++ '}' :: o.after)))

end ObjectText

theorem ofTokens?_eq_some_iff {ts : List Token} {v : Json} :
    ofTokens? ts = some v ↔ ts.foldlM step? (value []) = some (done v) := by
  unfold ofTokens?
  split
  · next w heq =>
    rw [heq, Option.some_inj, Option.some_inj, done.injEq]
  · next hnot =>
    constructor
    · nofun
    · exact fun h => absurd h (hnot v)

namespace MemberText

variable {m : MemberText} {ms : List MemberText} {after cs : List Char} {v w : Json}
  {members : List (Literal × Json)} {ts : List Token}

theorem join_cons_cons (m m' : MemberText) (rest : List MemberText) :
    join (m :: m' :: rest) = m.chars ++ ',' :: join (m' :: rest) := by
  rw [join]
  exact nofun

/-- A member in front of what follows it becomes the next one of its object. -/
theorem read?_chars (m : MemberText) {rest : List Char} (hends : Ends rest)
    (hrest : Token.read? rest = some ts) (members : List (Literal × Json)) :
    ∃ tokens, Token.read? (m.chars ++ rest) = some tokens ∧
      tokens.foldlM step? (nextKey members []) =
        ts.foldlM step? (afterMember (m.entry :: members) []) := by
  obtain ⟨vs, hvs, hvalue⟩ := Option.bind_eq_some_iff.1 m.value_eq
  rw [ofTokens?_eq_some_iff] at hvalue
  refine ⟨.scalar (.string m.name) :: .colon :: (vs ++ ts), ?_, ?_⟩
  · rw [chars, List.append_assoc, List.cons_append,
      Token.read?_append m.key_eq (Token.marks_colon.ends _), Token.marks_colon.read?_cons,
      Token.read?_append hvs hends, hrest]
    rfl
  · have hkey : step? (nextKey members []) (.scalar (.string m.name)) =
        some (colon members m.name []) := rfl
    have hvalueOf : step? (colon members m.name []) .colon =
        some (within [.object members m.name] (ReadState.value [])) := rfl
    rw [foldlM_of_step hkey, foldlM_of_step hvalueOf, foldlM_within hvalue]
    rfl

/-- Members and the brace after them are read as the rest of their object. -/
theorem read?_join (m : MemberText) (ms : List MemberText)
    (hafter : ∀ c ∈ after, Token.isBlank c = true) (members : List (Literal × Json)) :
    ∃ tokens, Token.read? (join (m :: ms) ++ '}' :: after) = some tokens ∧
      tokens.foldlM step? (nextKey members []) =
        some (done (.object (members.reverse ++ (m :: ms).map entry))) := by
  induction ms generalizing m members with
  | nil =>
    have hread : Token.read? ('}' :: after) = some [.closeObject] := by
      rw [Token.marks_close.read?_cons, ← List.append_nil after, Token.read?_blanks hafter,
        Token.read?_nil]
      rfl
    obtain ⟨tokens, htokens, hfold⟩ := m.read?_chars (Token.marks_close.ends after) hread members
    refine ⟨tokens, htokens, hfold.trans ?_⟩
    rw [List.map_cons, List.map_nil, ← List.reverse_cons]
    rfl
  | cons m' ms ih =>
    obtain ⟨later, hlater, hfold⟩ := ih m' (m.entry :: members)
    have hread : Token.read? (',' :: (join (m' :: ms) ++ '}' :: after)) =
        some (.comma :: later) := by
      rw [Token.marks_comma.read?_cons, hlater]
      rfl
    obtain ⟨tokens, htokens, hfold'⟩ := m.read?_chars (Token.marks_comma.ends _) hread members
    have hnext : step? (afterMember (m.entry :: members) []) .comma =
        some (nextKey (m.entry :: members) []) := rfl
    refine ⟨tokens, ?_, ?_⟩
    · rw [join_cons_cons, List.append_assoc, List.cons_append, htokens]
    · rw [hfold', foldlM_of_step hnext, hfold, List.reverse_cons, List.append_assoc]
      rfl

/-- Where the rest of an object can be read, there are members and a brace. -/
theorem exists_members (hread : Token.read? cs = some ts)
    (h : ts.foldlM step? (nextKey members []) = some (done w)) : ∃ m ms after,
      cs = join (m :: ms) ++ '}' :: after ∧ (∀ c ∈ after, Token.isBlank c = true) ∧
      w = .object (members.reverse ++ (m :: ms).map entry) := by
  induction hlength : ts.length using Nat.strong_induction_on generalizing ts cs members with
  | _ length ih =>
    obtain ⟨k, ts, rfl, h⟩ := exists_key h
    obtain ⟨ts, rfl, h⟩ := exists_colon h
    obtain ⟨vs, rest, v, rfl, hshorter, hvalue, h⟩ := exists_content h
    have hsplit : Token.read? cs = some ([.scalar (.string k)] ++ .colon :: (vs ++ rest)) := hread
    obtain ⟨key, tail, rfl, hkey, htail⟩ := Token.marks_colon.exists_pieces hsplit
    rcases ends_or_goes_on h with ⟨rfl, rfl⟩ | ⟨rest, rfl, h⟩
    · have hclose := Token.marks_of_mem (c := '}') (t := .closeObject) (by decide)
      obtain ⟨value, after, rfl, hvs, hafter⟩ := Token.marks_close.exists_pieces htail
      let m : MemberText := ⟨key, value, k, v, hkey, by
        rw [hvs, Option.bind_some, ofTokens?_eq_some_iff, hvalue]⟩
      refine ⟨m, [], after, ?_, Token.isBlank_of_read?_nil hafter, ?_⟩
      · simp only [join, chars, m, List.append_assoc, List.cons_append]
      · rw [List.reverse_cons]
        rfl
    · have hcomma := Token.marks_of_mem (c := ',') (t := .comma) (by decide)
      obtain ⟨value, tail, rfl, hvs, htail⟩ := Token.marks_comma.exists_pieces htail
      let m : MemberText := ⟨key, value, k, v, hkey, by
        rw [hvs, Option.bind_some, ofTokens?_eq_some_iff, hvalue]⟩
      have hless : rest.length < length := by
        simp only [List.length_cons, List.length_append] at hlength
        omega
      obtain ⟨m', ms, after, rfl, hafter, rfl⟩ := ih _ hless htail h rfl
      refine ⟨m, m' :: ms, after, ?_, hafter, ?_⟩
      · rw [join_cons_cons]
        simp only [chars, m, List.append_assoc, List.cons_append]
      · rw [List.reverse_cons, List.append_assoc]
        rfl

end MemberText

namespace ObjectText

theorem read?_text (o : ObjectText) : read? o.text = some (.object o.entries) := by
  obtain ⟨before, gap, members, after, hblank⟩ := o
  rw [List.forall_mem_append, List.forall_mem_append] at hblank
  obtain ⟨⟨hbefore, hgap⟩, hafter⟩ := hblank
  -- The tokens of the members and of the closing brace, read after the opening one.
  obtain ⟨tokens, htokens, hfold⟩ : ∃ tokens,
      Token.read? (MemberText.join members ++ '}' :: after) = some tokens ∧
      tokens.foldlM step? (keyOrEnd []) =
        some (done (.object (members.map MemberText.entry))) := by
    cases members with
    | nil =>
      refine ⟨[.closeObject], ?_, rfl⟩
      rw [MemberText.join, List.nil_append, Token.marks_close.read?_cons, ← List.append_nil after,
        Token.read?_blanks hafter, Token.read?_nil]
      rfl
    | cons m ms =>
      obtain ⟨tokens, htokens, hfold⟩ := m.read?_join ms hafter []
      obtain ⟨k, rest, rfl, hrest⟩ := exists_key hfold
      exact ⟨_, htokens, hrest⟩
  have hread : Token.read? (before ++ '{' :: (gap ++ (MemberText.join members ++ '}' :: after))) =
      some (.openObject :: tokens) := by
    rw [Token.read?_blanks hbefore, Token.marks_open.read?_cons, Token.read?_blanks hgap, htokens]
    rfl
  rw [read?, text, String.toList_ofList, hread, Option.bind_some, ofTokens?_eq_some_iff]
  exact hfold

/-- Every text that is read as an object is the text of one. -/
theorem exists_eq_text {text : String} {members : List (Literal × Json)}
    (h : read? text = some (.object members)) :
    ∃ o : ObjectText, o.text = text ∧ o.entries = members := by
  obtain ⟨ts, hread, h⟩ := Option.bind_eq_some_iff.1 h
  rw [ofTokens?_eq_some_iff] at h
  obtain ⟨ts, rfl, h⟩ := exists_open h
  have hsplit : Token.read? text.toList = some ([] ++ .openObject :: ts) := hread
  obtain ⟨before, tail, htext, hbefore, htail⟩ := Token.marks_open.exists_pieces hsplit
  have hblank := Token.isBlank_of_read?_nil hbefore
  rcases ends_or_begins h with ⟨rfl, heq⟩ | h
  · have hclose := Token.marks_of_mem (c := '}') (t := .closeObject) (by decide)
    have hsplit : Token.read? tail = some ([] ++ .closeObject :: []) := htail
    obtain ⟨gap, after, rfl, hgap, hafter⟩ := Token.marks_close.exists_pieces hsplit
    refine ⟨⟨before, gap, [], after, ?_⟩, ?_, ?_⟩
    · exact List.forall_mem_append.2 ⟨List.forall_mem_append.2
        ⟨hblank, Token.isBlank_of_read?_nil hgap⟩, Token.isBlank_of_read?_nil hafter⟩
    · rw [← String.ofList_toList (s := text), htext]
      rfl
    · cases heq
      rfl
  · obtain ⟨m, ms, after, rfl, hafter, heq⟩ := MemberText.exists_members htail h
    refine ⟨⟨before, [], m :: ms, after, ?_⟩, ?_, ?_⟩
    · exact List.forall_mem_append.2 ⟨List.forall_mem_append.2 ⟨hblank, List.forall_mem_nil _⟩,
        hafter⟩
    · rw [← String.ofList_toList (s := text), htext]
      rfl
    · cases heq
      rfl

end ObjectText

end Json

end TileViewer
