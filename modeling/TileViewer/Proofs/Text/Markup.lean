import TileViewer.Text.Markup

/-!
Text with markup read in one pass. Writing out one entity after the other comes to writing out all
of them at once, since nothing that is written belongs to an entity that is looked for later. So
no character is written out twice, and a text that was escaped is read back as it was.
-/
namespace TileViewer

namespace Text

variable {p ps cs ds rest post name out : List Char} {c d : Char}
  {es : List (List Char × Char)}

/-- An entity as it stands in a text. -/
def written (name : List Char) : List Char := '&' :: (name ++ [';'])

/-- The character that an entity at the beginning of a text stands for, and what comes behind. -/
def entityAt? (es : List (List Char × Char)) (cs : List Char) : Option (Char × List Char) :=
  es.findSome? fun e => (after? (written e.1) cs).map (e.2, ·)

theorem eq_append_of_after? (h : after? p cs = some rest) : cs = p ++ rest := by
  fun_induction after? p cs with
  | case1 => cases h; rfl
  | case2 => cases h
  | case3 _ _ _ ih => rw [ih h, List.cons_append]
  | case4 => cases h

theorem exists_of_entityAt? (h : entityAt? es cs = some (c, rest)) :
    ∃ name, (name, c) ∈ es ∧ cs = written name ++ rest := by
  obtain ⟨⟨name, d⟩, hmem, hafter⟩ := List.exists_of_findSome?_eq_some h
  obtain ⟨rest', hrest, heq⟩ := Option.map_eq_some_iff.1 hafter
  cases heq
  exact ⟨name, hmem, eq_append_of_after? hrest⟩

theorem length_of_entityAt? (h : entityAt? es cs = some (c, rest)) : rest.length < cs.length := by
  obtain ⟨name, -, rfl⟩ := exists_of_entityAt? h
  simp only [written, List.length_append, List.length_cons]
  omega

/-- Writes out each of the entities, in one pass from left to right. -/
def decode (es : List (List Char × Char)) (cs : List Char) : List Char :=
  match cs with
  | [] => []
  | c :: ds =>
    match _ : entityAt? es (c :: ds) with
    | some (d, rest) => d :: decode es rest
    | none => c :: decode es ds
termination_by cs.length
decreasing_by
  · exact length_of_entityAt? ‹_›
  · exact Nat.lt_succ_self _

theorem decode_entity (h : entityAt? es cs = some (d, rest)) :
    decode es cs = d :: decode es rest := by
  cases cs with
  | nil => exact absurd (length_of_entityAt? h) (Nat.not_lt_zero _)
  | cons c ds =>
    rw [decode]
    split
    · next heq =>
      cases heq.symm.trans h
      rfl
    · next heq => cases heq.symm.trans h

theorem decode_cons (h : entityAt? es (c :: ds) = none) :
    decode es (c :: ds) = c :: decode es ds := by
  rw [decode]
  split
  · next heq => cases heq.symm.trans h
  · rfl

theorem entityAt?_of_ne (h : c ≠ '&') : entityAt? es (c :: ds) = none := by
  refine List.findSome?_eq_none_iff.2 fun e _ => ?_
  rw [Option.map_eq_none_iff, written, after?, if_neg (Ne.symm h)]

theorem entityAt?_append (es es' : List (List Char × Char)) (cs : List Char) :
    entityAt? (es ++ es') cs = (entityAt? es cs).or (entityAt? es' cs) :=
  List.findSome?_append

theorem entityAt?_singleton (name : List Char) (c : Char) (cs : List Char) :
    entityAt? [(name, c)] ('&' :: cs) = (after? (name ++ [';']) cs).map (c, ·) := by
  simp only [entityAt?, List.findSome?_singleton, written, after?, if_pos]

theorem decode_nil (cs : List Char) : decode [] cs = cs := by
  induction cs with
  | nil => rw [decode]
  | cons c cs ih => rw [decode_cons rfl, ih]

/-! One entity after the other. -/

theorem replaceEntity_cons (h : d ≠ '&') :
    replaceEntity name c (d :: ds) = d :: replaceEntity name c ds := by
  rw [replaceEntity, if_neg h]

theorem replaceEntity_none (h : after? (name ++ [';']) ds = none) :
    replaceEntity name c ('&' :: ds) = '&' :: replaceEntity name c ds := by
  rw [replaceEntity, if_pos rfl]
  split
  · rfl
  · next heq => cases heq.symm.trans h

theorem replaceEntity_some (h : after? (name ++ [';']) ds = some rest) :
    replaceEntity name c ('&' :: ds) = c :: replaceEntity name c rest := by
  rw [replaceEntity, if_pos rfl]
  split
  · next heq => cases heq.symm.trans h
  · next heq =>
    cases heq.symm.trans h
    rfl

/-- Behind an ampersand the same is found before and after the entities are written out, if what
they stand for is not looked for. -/
theorem after?_decode (hp : '&' ∉ p) (hout : ∀ e ∈ es, e.2 ∉ p) (cs : List Char) :
    after? p (decode es cs) = (after? p cs).map (decode es) := by
  induction p generalizing cs with
  | nil => rfl
  | cons d p ih =>
    rw [List.mem_cons, not_or] at hp
    have hout' : ∀ e ∈ es, e.2 ∉ p := fun e he hmem => hout e he (List.mem_cons_of_mem _ hmem)
    cases cs with
    | nil => rw [decode, after?, Option.map_none]
    | cons c cs =>
      cases h : entityAt? es (c :: cs) with
      | none =>
        rw [decode_cons h, after?, after?]
        split
        · exact ih hp.2 hout' cs
        · rfl
      | some found =>
        obtain ⟨e, rest⟩ := found
        obtain ⟨name, hmem, heq⟩ := exists_of_entityAt? h
        obtain rfl : c = '&' := (List.cons.inj heq).1
        have hne : d ≠ e := fun hde => hout _ hmem (hde ▸ List.mem_cons_self)
        rw [decode_entity h, after?, if_neg hne, after?, if_neg (Ne.symm hp.1), Option.map_none]

/-- Writing out one more entity afterwards is as good as looking for it in the same pass. -/
theorem replaceEntity_decode (hname : '&' ∉ name) (hout : ∀ e ∈ es, e.2 ∉ written name)
    (cs : List Char) : replaceEntity name c (decode es cs) = decode (es ++ [(name, c)]) cs := by
  have hname' : '&' ∉ name ++ [';'] := by simp [hname]
  have hout' : ∀ e ∈ es, e.2 ∉ name ++ [';'] := fun e he hmem =>
    hout e he (List.mem_cons_of_mem _ hmem)
  induction hn : cs.length using Nat.strongRecOn generalizing cs with
  | _ n ih =>
    subst hn
    cases cs with
    | nil => rw [decode, replaceEntity, decode]
    | cons d cs =>
      have hboth := entityAt?_append es [(name, c)] (d :: cs)
      cases h : entityAt? es (d :: cs) with
      | some found =>
        obtain ⟨e, rest⟩ := found
        obtain ⟨other, hmem, -⟩ := exists_of_entityAt? h
        have hne : e ≠ '&' := fun heq => hout _ hmem (heq ▸ List.mem_cons_self)
        rw [h, Option.some_or] at hboth
        rw [decode_entity h, replaceEntity_cons hne, decode_entity hboth,
          ih _ (length_of_entityAt? h) rest rfl]
      | none =>
        rw [h, Option.none_or] at hboth
        have hrest := ih cs.length (Nat.lt_succ_self _) cs rfl
        rw [decode_cons h]
        by_cases hd : d = '&'
        · subst hd
          have hafter := after?_decode hname' hout' cs
          have hone := entityAt?_singleton name c cs
          cases hname : after? (name ++ [';']) cs with
          | none =>
            rw [hname, Option.map_none] at hafter hone
            rw [replaceEntity_none hafter, decode_cons (hboth.trans hone), hrest]
          | some rest =>
            rw [hname, Option.map_some] at hafter hone
            rw [replaceEntity_some hafter, decode_entity (hboth.trans hone),
              ih _ (length_of_entityAt? hone) rest rfl]
        · rw [replaceEntity_cons hd, decode_cons (hboth.trans (entityAt?_of_ne hd)), hrest]

/-- Writing out the entities one after the other is one pass for all of them. -/
theorem foldl_replaceEntity (es es' : List (List Char × Char)) (hnames : ∀ e ∈ es', '&' ∉ e.1)
    (hout : (es ++ es').Pairwise fun e e' => e.2 ∉ written e'.1) (cs : List Char) :
    es'.foldl (fun cs e => replaceEntity e.1 e.2 cs) (decode es cs) = decode (es ++ es') cs := by
  induction es' generalizing es with
  | nil => rw [List.append_nil, List.foldl_nil]
  | cons e es' ih =>
    rw [List.forall_mem_cons] at hnames
    have hfirst : ∀ e' ∈ es, e'.2 ∉ written e.1 := fun e' he' =>
      (List.pairwise_append.1 hout).2.2 e' he' e List.mem_cons_self
    rw [← List.singleton_append, ← List.append_assoc] at hout ⊢
    rw [List.singleton_append, List.foldl_cons, replaceEntity_decode hnames.1 hfirst]
    exact ih _ hnames.2 hout

theorem foldl_entities (cs : List Char) :
    entities.foldl (fun cs (name, c) => replaceEntity name c cs) cs = decode entities cs := by
  have h := foldl_replaceEntity [] entities (by decide) (by decide) cs
  rw [decode_nil] at h
  exact h

/-! Each entity is written out at its place, whatever stands before and behind it. -/

theorem after?_append_ampersand (hp : '&' ∉ p) (cs post : List Char) :
    after? p (cs ++ '&' :: post) = (after? p cs).map (· ++ '&' :: post) := by
  induction p generalizing cs with
  | nil => rfl
  | cons d p ih =>
    rw [List.mem_cons, not_or] at hp
    cases cs with
    | nil => rw [List.nil_append, after?, after?, if_neg (Ne.symm hp.1), Option.map_none]
    | cons c cs =>
      rw [List.cons_append, after?, after?]
      split
      · exact ih hp.2 cs
      · rfl

theorem entityAt?_append_ampersand (hnames : ∀ e ∈ es, '&' ∉ e.1) (c : Char)
    (cs post : List Char) :
    entityAt? es (c :: cs ++ '&' :: post) =
      (entityAt? es (c :: cs)).map fun (d, rest) => (d, rest ++ '&' :: post) := by
  induction es with
  | nil => rfl
  | cons e es ih =>
    rw [List.forall_mem_cons] at hnames
    have hname : '&' ∉ e.1 ++ [';'] := by simp [hnames.1]
    have hfirst : after? (written e.1) (c :: cs ++ '&' :: post) =
        (after? (written e.1) (c :: cs)).map (· ++ '&' :: post) := by
      rw [List.cons_append, written, after?, after?]
      split
      · exact after?_append_ampersand hname cs post
      · rfl
    rw [List.cons_append] at ih hfirst ⊢
    rw [entityAt?, List.findSome?_cons, hfirst]
    cases hafter : after? (written e.1) (c :: cs) with
    | none => simpa [entityAt?, hafter] using ih hnames.2
    | some rest => simp [entityAt?, hafter]

/-- Where an ampersand stands, nothing from before it matters. -/
theorem decode_append_ampersand (hnames : ∀ e ∈ es, '&' ∉ e.1) (cs post : List Char) :
    decode es (cs ++ '&' :: post) = decode es cs ++ decode es ('&' :: post) := by
  induction hn : cs.length using Nat.strongRecOn generalizing cs with
  | _ n ih =>
    subst hn
    cases cs with
    | nil => rw [decode.eq_1, List.nil_append, List.nil_append]
    | cons c cs =>
      have happend := entityAt?_append_ampersand hnames c cs post
      cases h : entityAt? es (c :: cs) with
      | some found =>
        obtain ⟨d, rest⟩ := found
        rw [h, Option.map_some] at happend
        rw [decode_entity happend, decode_entity h, ih _ (length_of_entityAt? h) rest rfl,
          List.cons_append]
      | none =>
        rw [h, Option.map_none] at happend
        rw [List.cons_append] at happend ⊢
        rw [decode_cons happend, decode_cons h, ih _ (Nat.lt_succ_self _) cs rfl, List.cons_append]

theorem entityAt?_written (h : (name, c) ∈ entities) (post : List Char) :
    entityAt? entities (written name ++ post) = some (c, post) := by
  simp only [entities, List.mem_cons, Prod.mk.injEq, List.not_mem_nil, or_false] at h
  rcases h with ⟨rfl, rfl⟩ | ⟨rfl, rfl⟩ | ⟨rfl, rfl⟩ | ⟨rfl, rfl⟩ | ⟨rfl, rfl⟩ <;> rfl

theorem decode_written (h : (name, c) ∈ entities) (post : List Char) :
    decode entities (written name ++ post) = c :: decode entities post :=
  decode_entity (entityAt?_written h post)

theorem decode_of_no_entity (h : ∀ e ∈ es, ¬written e.1 <:+: cs) : decode es cs = cs := by
  induction cs with
  | nil => rw [decode]
  | cons c cs ih =>
    have hnone : entityAt? es (c :: cs) = none := by
      refine Option.eq_none_iff_forall_not_mem.2 fun found hfound => ?_
      obtain ⟨name, hmem, heq⟩ := exists_of_entityAt? hfound
      exact h _ hmem ⟨[], found.2, heq.symm⟩
    rw [decode_cons hnone, ih fun e he hin => h e he (hin.trans (List.suffix_cons c cs).isInfix)]

/-! The text outside tags. -/

/-- What is left of a text without its tags. A tag goes from `<` to the next `>`, or to the end. -/
inductive Untagged : List Char → List Char → Prop
  | text {cs : List Char} (h : '<' ∉ cs) : Untagged cs cs
  | tag {cs inside rest out : List Char} (h : '<' ∉ cs) (hinside : '>' ∉ inside)
    (hrest : Untagged rest out) : Untagged (cs ++ '<' :: (inside ++ '>' :: rest)) (cs ++ out)
  | unclosed {cs inside : List Char} (h : '<' ∉ cs) (hinside : '>' ∉ inside) :
    Untagged (cs ++ '<' :: inside) cs

theorem dropTags_append (h : '<' ∉ cs) (rest : List Char) :
    dropTags false (cs ++ rest) = cs ++ dropTags false rest := by
  induction cs with
  | nil => rfl
  | cons c cs ih =>
    rw [List.mem_cons, not_or] at h
    rw [List.cons_append, dropTags, if_neg (Ne.symm h.1), if_neg Bool.false_ne_true, ih h.2,
      List.cons_append]

theorem dropTags_open (rest : List Char) : dropTags false ('<' :: rest) = dropTags true rest := by
  rw [dropTags, if_pos rfl]

theorem dropTags_inside (h : '>' ∉ cs) (rest : List Char) :
    dropTags true (cs ++ rest) = dropTags true rest := by
  induction cs with
  | nil => rfl
  | cons c cs ih =>
    rw [List.mem_cons, not_or] at h
    rw [List.cons_append, dropTags, if_pos rfl, decide_eq_true (Ne.symm h.1), ih h.2, ite_self]

theorem dropTags_close (rest : List Char) : dropTags true ('>' :: rest) = dropTags false rest := by
  rw [dropTags, if_neg (by decide), if_pos rfl]
  rfl

theorem eq_dropTags_of_untagged (h : Untagged cs out) : out = dropTags false cs := by
  induction h with
  | @text cs h => simpa [dropTags] using (dropTags_append h []).symm
  | tag h hinside _ ih =>
    rw [dropTags_append h, dropTags_open, dropTags_inside hinside, dropTags_close, ← ih]
  | @unclosed cs inside h hinside =>
    have hnothing : dropTags true inside = [] := by
      simpa [dropTags] using dropTags_inside hinside []
    rw [dropTags_append h, dropTags_open, hnothing, List.append_nil]

theorem untagged_dropTags (cs : List Char) : Untagged cs (dropTags false cs) := by
  induction hn : cs.length using Nat.strongRecOn generalizing cs with
  | _ n ih =>
    subst hn
    suffices h : ∃ out, Untagged cs out by
      obtain ⟨out, h⟩ := h
      exact eq_dropTags_of_untagged h ▸ h
    by_cases hopen : '<' ∈ cs
    · obtain ⟨before, inside, rfl, hbefore⟩ := List.eq_append_cons_of_mem hopen
      by_cases hclose : '>' ∈ inside
      · obtain ⟨inside, rest, rfl, hinside⟩ := List.eq_append_cons_of_mem hclose
        refine ⟨_, .tag hbefore hinside (ih rest.length ?_ rest rfl)⟩
        simp only [List.length_append, List.length_cons]
        omega
      · exact ⟨_, .unclosed hbefore hclose⟩
    · exact ⟨_, .text hopen⟩

theorem untagged_iff : Untagged cs out ↔ out = dropTags false cs :=
  ⟨eq_dropTags_of_untagged, fun h => h ▸ untagged_dropTags cs⟩

theorem ofMarkup_eq_decode (s : String) :
    ofMarkup s = String.ofList (decode entities (dropTags false s.toList)) := by
  rw [ofMarkup, foldl_entities]

/-! Text with its special characters written as entities. -/

def escapeChar (c : Char) : List Char :=
  match c with
  | '&' => written ['a', 'm', 'p']
  | '<' => written ['l', 't']
  | '>' => written ['g', 't']
  | '"' => written ['q', 'u', 'o', 't']
  | c => [c]

def escape (s : String) : String := String.ofList (s.toList.flatMap escapeChar)

theorem decode_escapeChar (c : Char) (rest : List Char) :
    decode entities (escapeChar c ++ rest) = c :: decode entities rest := by
  unfold escapeChar
  split
  · exact decode_written (by decide) rest
  · exact decode_written (by decide) rest
  · exact decode_written (by decide) rest
  · exact decode_written (by decide) rest
  · next hamp _ _ _ => exact decode_cons (entityAt?_of_ne hamp)

theorem lt_not_mem_escapeChar (c : Char) : '<' ∉ escapeChar c := by
  unfold escapeChar
  split
  · decide
  · decide
  · decide
  · decide
  · next _ hlt _ _ => exact fun h => hlt (List.mem_singleton.1 h).symm

theorem decode_flatMap_escapeChar (cs : List Char) :
    decode entities (cs.flatMap escapeChar) = cs := by
  induction cs with
  | nil => rw [List.flatMap_nil, decode]
  | cons c cs ih => rw [List.flatMap_cons, decode_escapeChar, ih]

theorem ofMarkup_escape (s : String) : ofMarkup (escape s) = s := by
  have hnone : '<' ∉ s.toList.flatMap escapeChar := by
    intro h
    obtain ⟨c, -, hc⟩ := List.mem_flatMap.1 h
    exact lt_not_mem_escapeChar c hc
  rw [ofMarkup_eq_decode, escape, String.toList_ofList, ← untagged_iff.1 (.text hnone),
    decode_flatMap_escapeChar, String.ofList_toList]

/-- The plain text of a text with markup is what stands outside its tags, with all entities written
out in one pass: each at its place whatever stands around it, so that none is written out twice and
none comes about, and nothing else is changed. A plain text that was escaped is read back. -/
theorem ofMarkup_in_one_pass (s : String) :
    (∃ out, (∀ cs, Untagged s.toList cs ↔ cs = out) ∧
      ofMarkup s = String.ofList (decode entities out)) ∧
    (∀ before after name c, (name, c) ∈ entities →
      decode entities (before ++ written name ++ after) =
        decode entities before ++ c :: decode entities after) ∧
    (∀ cs, (∀ e ∈ entities, ¬written e.1 <:+: cs) → decode entities cs = cs) ∧
    ofMarkup (escape s) = s := by
  refine ⟨⟨_, fun cs => untagged_iff, ofMarkup_eq_decode s⟩, ?_, fun cs => decode_of_no_entity,
    ofMarkup_escape s⟩
  intro before after name c h
  have hnames : ∀ e ∈ entities, '&' ∉ e.1 := by decide
  have hsplit := decode_append_ampersand hnames before (name ++ [';'] ++ after)
  have hwritten : before ++ written name ++ after = before ++ '&' :: (name ++ [';'] ++ after) := by
    rw [List.append_assoc, written, List.cons_append]
  rw [hwritten, hsplit]
  exact congrArg (decode entities before ++ ·) (decode_written h after)

/-- An entity that was escaped, and one that a tag interrupts, with a tag that is not closed. -/
theorem ofMarkup_in_one_pass_nested :
    ∃ s out : String, s = "<b>&amp;lt;</b>&l<i>t;<u" ∧ out = "&amp;lt;&lt;" ∧
      Untagged s.toList out.toList ∧ (['a', 'm', 'p'], '&') ∈ entities ∧
      (['l', 't'], '<') ∈ entities ∧ (∀ e ∈ entities, ¬written e.1 <:+: ['l', 't', ';']) ∧
      ofMarkup s = "&lt;<" ∧ ofMarkup (escape "&lt; <b> \"&nbsp;\"") = "&lt; <b> \"&nbsp;\"" := by
  have hamp : (['a', 'm', 'p'], '&') ∈ entities := by decide
  have hlt : (['l', 't'], '<') ∈ entities := by decide
  have hplain : ∀ e ∈ entities, ¬written e.1 <:+: ['l', 't', ';'] := by decide
  obtain ⟨⟨out, hout, hread⟩, hat, hsame, -⟩ := ofMarkup_in_one_pass "<b>&amp;lt;</b>&l<i>t;<u"
  obtain ⟨-, -, -, hescape⟩ := ofMarkup_in_one_pass "&lt; <b> \"&nbsp;\""
  have huntagged : Untagged "<b>&amp;lt;</b>&l<i>t;<u".toList "&amp;lt;&lt;".toList :=
    untagged_iff.2 (by decide)
  have hdecode : decode entities "&amp;lt;&lt;".toList = "&lt;<".toList := by
    have hfirst := hat [] (['l', 't', ';'] ++ written ['l', 't']) _ _ hamp
    have hsecond := hat ['l', 't', ';'] [] _ _ hlt
    rw [hsame _ hplain, hsame [] (by decide), List.append_nil] at hsecond
    rw [hsame [] (by decide), hsecond] at hfirst
    exact hfirst
  refine ⟨_, _, rfl, rfl, huntagged, hamp, hlt, hplain, ?_, hescape⟩
  rw [hread, ← (hout _).1 huntagged, hdecode, String.ofList_toList]

end Text

end TileViewer
