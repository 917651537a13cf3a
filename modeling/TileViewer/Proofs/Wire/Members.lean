import TileViewer.Proofs.Json.Objects
import TileViewer.Proofs.Wire.Frames

/-!
The members of a message may come in any order and among others. What a record takes from an object
is looked up by name, so that only the fields count that the message has names for.
-/
namespace TileViewer

namespace Json

namespace Record

variable {names : List String} {members members' extras : List (Literal × Json)}
  {fields fields' : List (String × Json)} {r r' : Record} {α : Type}

/-- What has no name of its own among the fields is passed over. -/
theorem known_eq_nil (h : ∀ m ∈ extras, ∃ name, m.1.text? = some name ∧ name ∉ names) :
    known names extras = [] := by
  rw [known, List.filter_eq_nil_iff]
  intro field hfield
  obtain ⟨m, hm, heq⟩ := List.mem_filterMap.1 hfield
  obtain ⟨name, htext, hname⟩ := h m hm
  rw [htext] at heq
  cases heq
  rwa [List.contains_iff_mem]

theorem known_perm (hperm : members'.Perm (members ++ extras))
    (h : ∀ m ∈ extras, ∃ name, m.1.text? = some name ∧ name ∉ names) :
    (known names members').Perm (known names members) := by
  have hsplit : known names (members ++ extras) = known names members := by
    rw [known, keyed, List.filterMap_append, List.filter_append]
    exact (congrArg _ (known_eq_nil h)).trans (List.append_nil _)
  rw [← hsplit]
  exact (hperm.filterMap _).filter _

/-- Fields with different names are found wherever they stand. -/
theorem lookup_eq_of_perm (hperm : fields.Perm fields') (hnodup : (fields.map Prod.fst).Nodup)
    (name : String) : fields.lookup name = fields'.lookup name := by
  induction hperm with
  | nil => rfl
  | cons field _ ih =>
    rw [lookup_cons, lookup_cons, ih (List.nodup_cons.1 hnodup).2]
  | swap field field' fields =>
    have hne : field'.1 ≠ field.1 := by
      intro heq
      exact (List.nodup_cons.1 hnodup).1 (heq ▸ List.mem_cons_self)
    rw [lookup_cons, lookup_cons, lookup_cons, lookup_cons]
    split_ifs with h h'
    · exact absurd (h.symm.trans h') hne
    all_goals rfl
  | trans hperm _ ih ih' =>
    exact (ih hnodup).trans (ih' ((hperm.map Prod.fst).nodup_iff.1 hnodup))

/-- Records with the same fields, in whatever order. -/
structure Alike (r r' : Record) : Prop where
  byPosition : r.byPosition = r'.byPosition
  lookup : ∀ name, r.fields.lookup name = r'.fields.lookup name

namespace Alike

theorem required? (h : r.Alike r') (name : String) (f : Json → Option α) :
    r.required? name f = r'.required? name f := by
  rw [Record.required?, h.lookup, Record.required?]

theorem optional? (h : r.Alike r') (name : String) (f : Json → Option α) :
    r.optional? name f = r'.optional? name f := by
  rw [Record.optional?, h.lookup, h.byPosition, Record.optional?]

theorem withDefault? (h : r.Alike r') (name : String) (d : α) (f : Json → Option α) :
    r.withDefault? name d f = r'.withDefault? name d f := by
  rw [Record.withDefault?, h.lookup, Record.withDefault?]

end Alike

/-- Whatever asks a record for its fields gets the same from both objects. -/
theorem bind_ofJson?_eq {f : Record → Option α} (hf : ∀ r r', Alike r r' → f r = f r')
    (hperm : members'.Perm (members ++ extras))
    (h : ∀ m ∈ extras, ∃ name, m.1.text? = some name ∧ name ∉ names) :
    (ofJson? names (.object members')).bind f = (ofJson? names (.object members)).bind f := by
  have htexts : (∀ m ∈ members', m.1.text?.isSome) ↔ ∀ m ∈ members, m.1.text?.isSome := by
    simp only [hperm.mem_iff, List.forall_mem_append]
    refine and_iff_left fun m hm => ?_
    obtain ⟨name, htext, -⟩ := h m hm
    rw [htext]
    rfl
  have hknown := known_perm hperm h
  have hnodup := (hknown.map Prod.fst).nodup_iff
  rw [ofJson?, ofJson?, ofMembers?_eq, ofMembers?_eq, if_congr (and_congr htexts hnodup) rfl rfl]
  split
  · next hgiven => exact hf _ _ ⟨rfl, lookup_eq_of_perm hknown (hnodup.2 hgiven.2)⟩
  · rfl

end Record

/-- A member as it is written for a name and a value. -/
def MemberText.ofField (name : String) (v : Json) (h : v.Written) : MemberText where
  key := (ofText name).renderChars
  value := v.renderChars
  name := .ofString name
  content := v
  key_eq := by
    have hread := Token.reads_of_written (written_ofText name) [] [] ends_nil
    rw [List.append_nil, List.append_nil, Token.readFrom?, List.reverse_reverse] at hread
    exact hread
  value_eq := by
    have hread := read?_render h
    rwa [read?, render, String.toList_ofList] at hread

end Json

namespace Message

open Json

variable {members members' extras : List (Literal × Json)}

/-- The names of the fields that are looked for in a line. -/
def fieldNames : List String :=
  ["type", "frame", "currWorldPosX", "currWorldPosY", "currViewWidth", "currViewHeight", "fullSent",
    "frameData", "creatures", "gameTicks", "newEventHtml", "currentPlayerScore",
    "currentPlayerRank", "currentPlayerBestTotalScore", "currentPlayerBestTotalRank",
    "currentRoundScores", "stats", "combatEvents", "roundState"]

/-- Members that are not looked for. -/
def Unasked (extras : List (Literal × Json)) : Prop :=
  ∀ m ∈ extras, ∃ name, m.1.text? = some name ∧ name ∉ fieldNames

theorem Unasked.of_subset (h : Unasked extras) {names : List String} (hnames : names ⊆ fieldNames) :
    ∀ m ∈ extras, ∃ name, m.1.text? = some name ∧ name ∉ names := by
  intro m hm
  obtain ⟨name, htext, hname⟩ := h m hm
  exact ⟨name, htext, fun hmem => hname (hnames hmem)⟩

theorem type?_eq (hperm : members'.Perm (members ++ extras)) (h : Unasked extras) :
    type? (.object members') = type? (.object members) := by
  refine Record.bind_ofJson?_eq ?_ hperm (h.of_subset (by decide))
  intro r r' halike
  exact halike.optional? _ _

theorem frameOfJson?_eq (hperm : members'.Perm (members ++ extras)) (h : Unasked extras) :
    FrameMessage.ofJson? (.object members') = FrameMessage.ofJson? (.object members) := by
  refine Record.bind_ofJson?_eq ?_ hperm (h.of_subset (by decide))
  intro r r' halike
  simp only [halike.required?, halike.withDefault?]

theorem sideOfJson?_eq (hperm : members'.Perm (members ++ extras)) (h : Unasked extras) :
    SideUpdate.ofJson? (.object members') = SideUpdate.ofJson? (.object members) := by
  refine Record.bind_ofJson?_eq ?_ hperm (h.of_subset (by decide))
  intro r r' halike
  simp only [halike.withDefault?]

theorem ofJson_eq (hperm : members'.Perm (members ++ extras)) (h : Unasked extras) :
    ofJson (.object members') = ofJson (.object members) := by
  rw [ofJson, ofFrameJson, type?_eq hperm h, frameOfJson?_eq hperm h, sideOfJson?_eq hperm h,
    ofJson, ofFrameJson]

/-- A line that holds an object is made of its members in some order, and any other order of them,
with any members put among them that are not looked for, gives the same message. -/
theorem parse_ignores_order_and_extras :
    (∀ text members, Json.read? text = some (.object members) ↔
      ∃ o : ObjectText, o.text = text ∧ o.entries = members) ∧
    ∀ (o o' : ObjectText) (extras : List MemberText), o'.members.Perm (o.members ++ extras) →
      Unasked (extras.map MemberText.entry) → parse o'.text = parse o.text := by
  refine ⟨?_, ?_⟩
  · intro text members
    refine ⟨ObjectText.exists_eq_text, ?_⟩
    rintro ⟨o, rfl, rfl⟩
    exact o.read?_text
  · intro o o' extras hperm hunasked
    have hentries : o'.entries.Perm (o.entries ++ extras.map MemberText.entry) := by
      rw [ObjectText.entries, ObjectText.entries, ← List.map_append]
      exact hperm.map _
    rw [parse, parse, o'.read?_text, o.read?_text]
    exact ofJson_eq hentries hunasked

/-- A frame with a patch, and the same one told backwards with a member in the middle that is not
looked for. -/
theorem parse_frame_ignores_order_and_extras :
    let line := "\x7b\"type\":\"JsonFrameUpdate\",\"frame\":7,\"currWorldPosX\":-3," ++
      "\"currWorldPosY\":4,\"currViewWidth\":2,\"currViewHeight\":1," ++
      "\"frameData\":[\x7b\"x\":1,\"y\":0,\"w\":1,\"h\":1,\"data\":[[[7,90]]]\x7d]," ++
      "\"gameTicks\":12\x7d"
    let line' := "\x7b\"gameTicks\":12," ++
      "\"frameData\":[\x7b\"x\":1,\"y\":0,\"w\":1,\"h\":1,\"data\":[[[7,90]]]\x7d]," ++
      "\"currViewHeight\":1,\"currViewWidth\":2,\"news\":[\x7b\x7d],\"currWorldPosY\":4," ++
      "\"currWorldPosX\":-3,\"frame\":7,\"type\":\"JsonFrameUpdate\"\x7d"
    let frame : Frame :=
      { seq := 7, viewX := -3, viewY := 4, viewWidth := 2, viewHeight := 1
        patches := [⟨1, 0, 1, 1, [[⟨7, .quarter⟩]]⟩], ticks := some 12 }
    parse line = .ok (.frame frame) ∧ parse line' = .ok (.frame frame) := by
  intro line line' frame
  let number (name : String) (z : Int) : MemberText := .ofField name (.ofInt z) (written_ofInt z)
  let patch : PatchMessage := ⟨1, 0, 1, 1, [[[7, 90]]]⟩
  let patches : MemberText := .ofField "frameData" (.array ([patch].map PatchMessage.toJson))
    (written_array_map fun p _ => p.written_toJson)
  let type : MemberText := .ofField "type" (.ofText "JsonFrameUpdate") (written_ofText _)
  let news : MemberText := .ofField "news" (.array ([[]].map Json.ofFields))
    (written_array_map fun fields h => List.mem_singleton.1 h ▸ written_ofFields nofun)
  let first := [type, number "frame" 7, number "currWorldPosX" (-3), number "currWorldPosY" 4]
  let second := [number "currViewWidth" 2, number "currViewHeight" 1, patches,
    number "gameTicks" 12]
  let o : ObjectText := ⟨[], [], first ++ second, [], List.forall_mem_nil _⟩
  let o' : ObjectText := ⟨[], [], (first ++ news :: second).reverse, [], List.forall_mem_nil _⟩
  have htext : o.text = line := by decide +kernel
  have htext' : o'.text = line' := by decide +kernel
  have hlast : ([news] ++ second).Perm (second ++ [news]) := List.perm_append_comm
  have hperm : o'.members.Perm (o.members ++ [news]) :=
    (List.reverse_perm _).trans (hlast.append_left first)
  have hunasked : Unasked [news.entry] := by
    intro m hm
    cases List.mem_singleton.1 hm
    exact ⟨"news", Literal.text?_ofString "news", by decide⟩
  have hparse : parse o.text = .ok (.frame frame) := by
    have hread : (match ofJson (.object o.entries) with
      | .ok (.frame f) => decide (f = frame)
      | _ => false) = true := by decide +kernel
    rw [parse, o.read?_text]
    dsimp only
    split at hread
    · next f hf => rw [hf, of_decide_eq_true hread]
    · cases hread
  have hparse' := parse_ignores_order_and_extras.2 o o' [news] hperm hunasked
  rw [← htext, ← htext', hparse']
  exact ⟨hparse, hparse⟩

end Message

end TileViewer
