import TileViewer.Json.Reader
import TileViewer.Proofs.Json.Scalars

/-!
Every value that is written is read back as it was, nested to any depth: the text gives the tokens
of the value, and the tokens give the value to the container around it.
-/
namespace TileViewer

namespace Json

/-- A value whose strings, keys and numbers are written as the reader expects them. -/
inductive Written : Json → Prop
  | scalar {s : Scalar} (h : s.Written) : Written (.scalar s)
  | array {items : List Json} (h : ∀ v ∈ items, Written v) : Written (.array items)
  | object {members : List (Literal × Json)} (hkeys : ∀ m ∈ members, m.1.Written)
    (hvalues : ∀ m ∈ members, Written m.2) : Written (.object members)

mutual

/-- The tokens that spell a value. -/
def tokens : Json → List Token
  | .scalar s => [.scalar s]
  | .array items => .openArray :: itemTokens items
  | .object members => .openObject :: memberTokens members

/-- The tokens of the items of an array and of its closing bracket. -/
def itemTokens : List Json → List Token
  | [] => [.closeArray]
  | [v] => tokens v ++ [.closeArray]
  | v :: rest => tokens v ++ .comma :: itemTokens rest

/-- The tokens of the members of an object and of its closing brace. -/
def memberTokens : List (Literal × Json) → List Token
  | [] => [.closeObject]
  | [(k, v)] => .scalar (.string k) :: .colon :: (tokens v ++ [.closeObject])
  | (k, v) :: rest => .scalar (.string k) :: .colon :: (tokens v ++ .comma :: memberTokens rest)

end

theorem renderItems_cons_cons (v w : Json) (rest : List Json) :
    renderItems (v :: w :: rest) = renderChars v ++ ',' :: renderItems (w :: rest) := by
  rw [renderItems]
  exact nofun

theorem itemTokens_cons_cons (v w : Json) (rest : List Json) :
    itemTokens (v :: w :: rest) = tokens v ++ .comma :: itemTokens (w :: rest) := by
  rw [itemTokens]
  exact nofun

theorem renderMembers_cons_cons (k : Literal) (v : Json) (m : Literal × Json)
    (rest : List (Literal × Json)) : renderMembers ((k, v) :: m :: rest) =
      k.render ++ ':' :: (renderChars v ++ ',' :: renderMembers (m :: rest)) := by
  rw [renderMembers]
  exact nofun

theorem memberTokens_cons_cons (k : Literal) (v : Json) (m : Literal × Json)
    (rest : List (Literal × Json)) : memberTokens ((k, v) :: m :: rest) =
      .scalar (.string k) :: .colon :: (tokens v ++ .comma :: memberTokens (m :: rest)) := by
  rw [memberTokens]
  exact nofun

/-! From the text to the tokens. -/

namespace Token

/-- A value that is read as its tokens, whatever was read before. -/
def Reads (v : Json) : Prop :=
  ∀ done rest, Ends rest →
    readFrom? done (v.renderChars ++ rest) = readFrom? (v.tokens.reverse ++ done) rest

theorem readFrom?_key {k : Literal} (h : k.Written) (done : List Token) (rest : List Char) :
    readFrom? done (k.render ++ ':' :: rest) =
      readFrom? (.colon :: .scalar (.string k) :: done) rest := by
  have hnext := next?_literal h (':' :: rest)
  rw [Literal.render, List.cons_append, List.append_assoc, List.singleton_append,
    readFrom?_cons (by decide) hnext]
  exact readFrom?_cons (by decide) rfl _

theorem readFrom?_items {items : List Json} (h : ∀ v ∈ items, Reads v) (done : List Token)
    (rest : List Char) : readFrom? done (renderItems items ++ rest) =
      readFrom? ((itemTokens items).reverse ++ done) rest := by
  induction items generalizing done with
  | nil => exact readFrom?_cons (by decide) rfl done
  | cons v items ih =>
    rw [List.forall_mem_cons] at h
    cases items with
    | nil =>
      rw [renderItems, List.append_assoc, List.singleton_append,
        h.1 _ _ (ends_cons (.inr (.inl rfl)) _), readFrom?_cons (by decide) rfl, itemTokens]
      simp
    | cons w items =>
      rw [renderItems_cons_cons, List.append_assoc, List.cons_append,
        h.1 _ _ (ends_cons (.inl rfl) _), readFrom?_cons (by decide) rfl, ih h.2,
        itemTokens_cons_cons]
      simp

theorem readFrom?_members {members : List (Literal × Json)} (hkeys : ∀ m ∈ members, m.1.Written)
    (h : ∀ m ∈ members, Reads m.2) (done : List Token) (rest : List Char) :
    readFrom? done (renderMembers members ++ rest) =
      readFrom? ((memberTokens members).reverse ++ done) rest := by
  induction members generalizing done with
  | nil => exact readFrom?_cons (by decide) rfl done
  | cons m members ih =>
    obtain ⟨k, v⟩ := m
    rw [List.forall_mem_cons] at h hkeys
    cases members with
    | nil =>
      rw [renderMembers, List.append_assoc, List.cons_append, readFrom?_key hkeys.1,
        List.append_assoc, List.singleton_append, h.1 _ _ (ends_cons (.inr (.inr rfl)) _),
        readFrom?_cons (by decide) rfl, memberTokens]
      simp
    | cons m members =>
      rw [renderMembers_cons_cons, List.append_assoc, List.cons_append, readFrom?_key hkeys.1,
        List.append_assoc, List.cons_append, h.1 _ _ (ends_cons (.inl rfl) _),
        readFrom?_cons (by decide) rfl, ih hkeys.2 h.2, memberTokens_cons_cons]
      simp

theorem reads_of_written {v : Json} (h : v.Written) : Reads v := by
  induction h with
  | scalar hs =>
    intro done rest hrest
    rw [renderChars, tokens]
    exact readFrom?_scalar hs hrest done
  | array _ ih =>
    intro done rest _
    rw [renderChars, List.cons_append, readFrom?_cons (by decide) rfl, readFrom?_items ih, tokens]
    simp
  | object hkeys _ ih =>
    intro done rest _
    rw [renderChars, List.cons_append, readFrom?_cons (by decide) rfl,
      readFrom?_members hkeys ih, tokens]
    simp

end Token

/-! From the tokens to the value. -/

namespace ReadState

/-- A value whose tokens make it part of the container around it. -/
def Builds (v : Json) : Prop :=
  ∀ outer ts, (v.tokens ++ ts).foldlM step? (value outer) = ts.foldlM step? (deliver v outer)

/-- The first item of an array is read like any other. -/
theorem foldlM_first (v : Json) (outer : List Enclosing) (ts : List Token) :
    (v.tokens ++ ts).foldlM step? (itemOrEnd outer) =
      (v.tokens ++ ts).foldlM step? (value (.array [] :: outer)) := by
  cases v with
  | scalar s => rw [tokens]; rfl
  | array items => rw [tokens]; rfl
  | object members => rw [tokens]; rfl

theorem foldlM_of_step {s s' : ReadState} {t : Token} (h : step? s t = some s')
    (ts : List Token) : (t :: ts).foldlM step? s = ts.foldlM step? s' := by
  rw [List.foldlM_cons, h]
  rfl

/-- The items still to be read come behind those that have been. -/
theorem foldlM_items {v : Json} {items : List Json} (h : ∀ w ∈ v :: items, Builds w)
    (done : List Json) (outer : List Enclosing) (ts : List Token) :
    (itemTokens (v :: items) ++ ts).foldlM step? (value (.array done :: outer)) =
      ts.foldlM step? (deliver (.array (done.reverse ++ v :: items)) outer) := by
  induction items generalizing v done with
  | nil =>
    have hend : step? (deliver v (.array done :: outer)) .closeArray =
        some (deliver (.array (v :: done).reverse) outer) := rfl
    rw [itemTokens, List.append_assoc, h v List.mem_cons_self, List.singleton_append,
      foldlM_of_step hend, List.reverse_cons]
  | cons w items ih =>
    rw [List.forall_mem_cons] at h
    have hcomma : step? (deliver v (.array done :: outer)) .comma =
        some (value (.array (v :: done) :: outer)) := rfl
    rw [itemTokens_cons_cons, List.append_assoc, h.1, List.cons_append, foldlM_of_step hcomma,
      ih h.2, List.reverse_cons, List.append_assoc, List.singleton_append]

theorem foldlM_members {k : Literal} {v : Json} {members : List (Literal × Json)}
    (h : ∀ m ∈ (k, v) :: members, Builds m.2) (done : List (Literal × Json))
    (outer : List Enclosing) (ts : List Token) :
    (memberTokens ((k, v) :: members) ++ ts).foldlM step? (nextKey done outer) =
      ts.foldlM step? (deliver (.object (done.reverse ++ (k, v) :: members)) outer) := by
  have hkey (k : Literal) (done : List (Literal × Json)) :
      step? (nextKey done outer) (.scalar (.string k)) = some (colon done k outer) := rfl
  have hcolon (k : Literal) (done : List (Literal × Json)) :
      step? (colon done k outer) .colon = some (value (.object done k :: outer)) := rfl
  induction members generalizing k v done with
  | nil =>
    have hv : Builds v := h (k, v) List.mem_cons_self
    have hend : step? (deliver v (.object done k :: outer)) .closeObject =
        some (deliver (.object ((k, v) :: done).reverse) outer) := rfl
    rw [memberTokens, List.cons_append, foldlM_of_step (hkey k done), List.cons_append,
      foldlM_of_step (hcolon k done), List.append_assoc, hv, List.singleton_append,
      foldlM_of_step hend, List.reverse_cons]
  | cons m members ih =>
    obtain ⟨k', w⟩ := m
    rw [List.forall_mem_cons] at h
    have hv : Builds v := h.1
    have hcomma : step? (deliver v (.object done k :: outer)) .comma =
        some (nextKey ((k, v) :: done) outer) := rfl
    rw [memberTokens_cons_cons, List.cons_append, foldlM_of_step (hkey k done), List.cons_append,
      foldlM_of_step (hcolon k done), List.append_assoc, hv, List.cons_append,
      foldlM_of_step hcomma, ih h.2, List.reverse_cons, List.append_assoc, List.singleton_append]

theorem builds_of_written {v : Json} (h : v.Written) : Builds v := by
  induction h with
  | scalar =>
    intro outer ts
    rw [tokens]
    rfl
  | @array items _ ih =>
    intro outer ts
    have hopen : step? (value outer) .openArray = some (itemOrEnd outer) := rfl
    rw [tokens, List.cons_append, foldlM_of_step hopen]
    cases items with
    | nil => rfl
    | cons v items =>
      have hfirst : (itemTokens (v :: items) ++ ts).foldlM step? (itemOrEnd outer) =
          (itemTokens (v :: items) ++ ts).foldlM step? (value (.array [] :: outer)) := by
        cases items with
        | nil => rw [itemTokens, List.append_assoc, foldlM_first]
        | cons w items => rw [itemTokens_cons_cons, List.append_assoc, foldlM_first]
      rw [hfirst, foldlM_items ih]
      rfl
  | @object members _ _ ih =>
    intro outer ts
    have hopen : step? (value outer) .openObject = some (keyOrEnd outer) := rfl
    rw [tokens, List.cons_append, foldlM_of_step hopen]
    cases members with
    | nil => rfl
    | cons m members =>
      obtain ⟨k, v⟩ := m
      -- A key is read alike after an opening brace and after a comma.
      have hfirst : (memberTokens ((k, v) :: members) ++ ts).foldlM step? (keyOrEnd outer) =
          (memberTokens ((k, v) :: members) ++ ts).foldlM step? (nextKey [] outer) := by
        cases members with
        | nil => rw [memberTokens]; rfl
        | cons m members => rw [memberTokens_cons_cons]; rfl
      rw [hfirst, foldlM_members ih]
      rfl

end ReadState

/-- Reading undoes writing. -/
theorem read?_render {v : Json} (h : v.Written) : read? v.render = some v := by
  have htokens := Token.reads_of_written h [] [] ends_nil
  have hvalue := ReadState.builds_of_written h [] []
  rw [List.append_nil, List.append_nil, Token.readFrom?, List.reverse_reverse] at htokens
  rw [List.append_nil] at hvalue
  rw [read?, render, String.toList_ofList, Token.read?, htokens, Option.bind_some, ofTokens?,
    hvalue]
  rfl

/-! No control character stands in a written text. -/

/-- A text without any character before the blank. -/
def Printable (cs : List Char) : Prop := ∀ c ∈ cs, ¬ c < ' '

namespace Printable

variable {c : Char} {cs ds : List Char}

theorem nil : Printable [] := nofun

theorem cons (hc : ¬ c < ' ') (hcs : Printable cs) : Printable (c :: cs) :=
  List.forall_mem_cons.2 ⟨hc, hcs⟩

theorem append (hcs : Printable cs) (hds : Printable ds) : Printable (cs ++ ds) :=
  List.forall_mem_append.2 ⟨hcs, hds⟩

theorem single (hc : ¬ c < ' ') : Printable [c] := cons hc nil

end Printable

theorem Token.not_lt_space_of_unescape? {c d : Char} (h : unescape? c = some d) : ¬ c < ' ' := by
  unfold unescape? at h
  split at h
  all_goals first
    | decide
    | cases h

theorem StringPart.printable_render {p : StringPart} (h : p.Written) : Printable p.render := by
  cases p with
  | plain c => exact .single h.2.2
  | short c => exact .cons (by decide) (.single (Token.not_lt_space_of_unescape? h))
  | unit u =>
    have hdigit {n : Nat} (hn : n < 16) : ¬ hexDigit n < ' ' := by
      have hall : ∀ k : Fin 16, ¬ hexDigit k < ' ' := by decide
      exact hall ⟨n, hn⟩
    have hu := u.toNat_lt
    exact .cons (by decide) (.cons (by decide) (.cons (hdigit (by omega)) (.cons (hdigit (by omega))
      (.cons (hdigit (by omega)) (.single (hdigit (by omega)))))))

theorem Literal.printable_render {s : Literal} (h : s.Written) : Printable s.render := by
  refine .cons (by decide) (.append ?_ (.single (by decide)))
  intro c hc
  obtain ⟨p, hp, hc⟩ := List.mem_flatMap.1 hc
  exact StringPart.printable_render (h p hp) c hc

theorem Numeral.printable_renderDigits {ds : List Nat} (h : ∀ d ∈ ds, d < 10) :
    Printable (renderDigits ds) := by
  intro c hc hlt
  have hdigit := isDigit_of_mem h hc
  simp only [Token.isDigit, Bool.and_eq_true, decide_eq_true_eq] at hdigit
  have hlow : '0'.toNat ≤ c.toNat := UInt32.le_iff_toNat_le.1 hdigit.1
  have hhigh : c.toNat < ' '.toNat := UInt32.lt_iff_toNat_lt.1 hlt
  exact absurd (Nat.lt_of_le_of_lt hlow hhigh) (by decide)

theorem Numeral.printable_render {n : Numeral} (h : n.Written) : Printable n.render := by
  have hsign (negative : Bool) : Printable (if negative then ['-'] else []) := by
    cases negative with
    | true => exact .single (by decide)
    | false => exact .nil
  refine .append (.append (.append (hsign _) (printable_renderDigits h.wholeDigits)) ?_) ?_
  · split
    · exact .nil
    · exact .cons (by decide) (printable_renderDigits h.fractionDigits)
  · split
    · exact .nil
    · next negative ds hexponent =>
      have hds := (h.exponent negative ds hexponent).2
      exact .cons (by decide) (.append (hsign _) (printable_renderDigits hds))

theorem Scalar.printable_render {s : Scalar} (h : s.Written) : Printable s.render := by
  cases s with
  | null => simp [Printable, render]
  | bool b => cases b <;> simp [Printable, render]
  | number n => exact Numeral.printable_render h
  | string s => exact Literal.printable_render h

theorem printable_renderItems {items : List Json} (h : ∀ v ∈ items, Printable v.renderChars) :
    Printable (renderItems items) := by
  induction items with
  | nil =>
    rw [renderItems]
    exact .single (by decide)
  | cons v items ih =>
    rw [List.forall_mem_cons] at h
    cases items with
    | nil =>
      rw [renderItems]
      exact .append h.1 (.single (by decide))
    | cons w items =>
      rw [renderItems_cons_cons]
      exact .append h.1 (.cons (by decide) (ih h.2))

theorem printable_renderMembers {members : List (Literal × Json)}
    (hkeys : ∀ m ∈ members, m.1.Written) (h : ∀ m ∈ members, Printable m.2.renderChars) :
    Printable (renderMembers members) := by
  induction members with
  | nil =>
    rw [renderMembers]
    exact .single (by decide)
  | cons m members ih =>
    obtain ⟨k, v⟩ := m
    rw [List.forall_mem_cons] at h hkeys
    have hkey := Literal.printable_render hkeys.1
    cases members with
    | nil =>
      rw [renderMembers]
      exact .append hkey (.cons (by decide) (.append h.1 (.single (by decide))))
    | cons m members =>
      rw [renderMembers_cons_cons]
      exact .append hkey (.cons (by decide) (.append h.1 (.cons (by decide) (ih hkeys.2 h.2))))

theorem printable_renderChars {v : Json} (h : v.Written) : Printable v.renderChars := by
  induction h with
  | scalar hs =>
    rw [renderChars]
    exact Scalar.printable_render hs
  | array _ ih =>
    rw [renderChars]
    exact .cons (by decide) (printable_renderItems ih)
  | object hkeys _ ih =>
    rw [renderChars]
    exact .cons (by decide) (printable_renderMembers hkeys ih)

end Json

end TileViewer
