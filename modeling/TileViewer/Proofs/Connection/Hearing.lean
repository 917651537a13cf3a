import TileViewer.Proofs.Connection.Transcript
import TileViewer.Proofs.Connection.Transport

/-!
What a session hears of the bytes that the server sends, whatever they are: the messages of the
lines up to the first that is no text. A line that is text never ends the session, message or not.
-/
namespace TileViewer

/-- Why bytes are no text. -/
def Text.fault? (bytes : List UInt8) : Option Utf8Fault :=
  match ofBytes bytes with
  | .error fault => some fault
  | .ok _ => none

/-- The message of a line of bytes, if the line is one. -/
def Message.ofBytes? (line : List UInt8) : Option Message :=
  (Text.ofBytes line).toOption.bind ofLine?

namespace Inbox

/-- The lines of bytes, each with its line feed. The last one may have none. -/
def lines : List UInt8 → List (List UInt8)
  | [] => []
  | b :: bytes =>
    if b = lineFeed then [b] :: lines bytes
    else
      match lines bytes with
      | [] => [[b]]
      | line :: rest => (b :: line) :: rest

end Inbox

/-- What a session can hear: messages, and the loss that it ends with. -/
structure Hearing where
  messages : List Message
  ending : Loss

namespace Hearing

/-- A line that is no text is the last one that is read. -/
def ofBytes (bytes : List UInt8) : Hearing where
  messages := ((Inbox.lines bytes).takeWhile fun line =>
    (Text.fault? line).isNone).filterMap Message.ofBytes?
  ending := match (Inbox.lines bytes).findSome? Text.fault? with
    | none => .closedByServer
    | some fault => .garbled fault

/-- What there would be to hear if no line could end the session. -/
def ofEveryLine (bytes : List UInt8) : Hearing where
  messages := (Inbox.lines bytes).filterMap Message.ofBytes?
  ending := .closedByServer

/-- What is heard after some messages that have been. -/
def after (h : Hearing) (heard : List Message) : Hearing :=
  { h with messages := heard ++ h.messages }

end Hearing

/-- How far a session has come with what it can hear in the whole. -/
structure Attends (whole : Hearing) (heard : List Message) (later : List UInt8) (inbox : Inbox) :
    Prop where
  rest : (Hearing.ofBytes (inbox.unread ++ later)).after heard = whole
  closed : inbox.isClosed → later = []

/-- What holds of a session at its stages. -/
inductive Listens (whole : Hearing) (heard : List Message) (later : List UInt8) : Stage → Prop
  | opened {stage : Stage} {inbox : Inbox} (hstage : stage.inbox? = some inbox)
    (h : Attends whole heard later inbox) : Listens whole heard later stage
  | ended {stage : Stage} (hstage : stage = .waiting ∨ stage = .stopped)
    (hheard : heard <+: whole.messages) : Listens whole heard later stage

/-- What has been heard, and what is to come of the lines, after one move. -/
structure Advances (whole : Hearing) (heard : List Message) (move : Move) (later' : List UInt8)
    (stage : Stage) (effects : List Effect) : Prop where
  listens : Listens whole (heard ++ delivered effects) later' stage
  losses : ∀ loss ∈ losses effects,
    (loss = whole.ending ∧ heard ++ delivered effects = whole.messages) ∨ move.Loses loss

variable {whole : Hearing} {heard : List Message}
  {sent later left chunk line body rest : List UInt8} {inbox inbox' : Inbox} {s t : Supervisor}
  {move : Move} {moves : List Move} {effects : List Effect} {stage : Stage}

namespace Inbox

theorem lines_of_feed (h : lineFeed ∉ body) :
    lines (body ++ lineFeed :: rest) = (body ++ [lineFeed]) :: lines rest := by
  induction body with
  | nil => exact if_pos rfl
  | cons b body ih =>
    rw [List.mem_cons, not_or] at h
    rw [List.cons_append, lines, if_neg (Ne.symm h.1), ih h.2]
    rfl

theorem lines_of_no_feed (h : lineFeed ∉ body) (hbody : body ≠ []) : lines body = [body] := by
  induction body with
  | nil => exact absurd rfl hbody
  | cons b body ih =>
    rw [List.mem_cons, not_or] at h
    rw [lines, if_neg (Ne.symm h.1)]
    cases body with
    | nil => rfl
    | cons c body => rw [ih h.2 (List.cons_ne_nil c body)]

/-- The line that is taken off the front is the first of what there is and of what is to come. -/
theorem lines_of_popLine? (h : inbox.popLine? = some (line, inbox'))
    (hclosed : inbox.isClosed → later = []) :
    lines (inbox.unread ++ later) = line :: lines (inbox'.unread ++ later) := by
  rcases popLine?_cases h with ⟨body, hbody, rfl, rfl⟩ | ⟨hnot, hisClosed, hunread, rfl, rfl⟩
  · rw [List.append_assoc, List.cons_append, lines_of_feed hbody]
  · rw [hclosed hisClosed, List.append_nil, lines_of_no_feed hnot hunread]
    rfl

end Inbox

namespace Hearing

theorem ofBytes_of_text {text : String} (hlines : Inbox.lines sent = line :: Inbox.lines rest)
    (htext : Text.ofBytes line = .ok text) :
    ofBytes sent = (ofBytes rest).after (Message.ofLine? text).toList := by
  have hfault : Text.fault? line = none := by simp only [Text.fault?, htext]
  have hmessage : Message.ofBytes? line = Message.ofLine? text := by
    rw [Message.ofBytes?, htext]
    rfl
  simp only [ofBytes, after, hlines, List.takeWhile_cons, List.findSome?_cons, hfault,
    Option.isNone_none, if_true, List.filterMap_cons, hmessage]
  cases Message.ofLine? text with
  | none => rfl
  | some m => rfl

theorem ofBytes_of_garbled {fault : Text.Utf8Fault}
    (hlines : Inbox.lines sent = line :: Inbox.lines rest)
    (hgarbled : Text.ofBytes line = .error fault) :
    ofBytes sent = ⟨[], .garbled fault⟩ := by
  have hfault : Text.fault? line = some fault := by simp only [Text.fault?, hgarbled]
  simp [ofBytes, hlines, hfault]

/-- Every line counts if all of them are text, and in no other case. -/
theorem ofBytes_eq_ofEveryLine_iff :
    ofBytes sent = ofEveryLine sent ↔ ∀ line ∈ Inbox.lines sent, Text.fault? line = none := by
  constructor
  · intro h
    have hending := congrArg ending h
    simp only [ofBytes, ofEveryLine] at hending
    split at hending
    · next hnone => exact List.findSome?_eq_none_iff.1 hnone
    · cases hending
  · intro h
    have htake : (Inbox.lines sent).takeWhile (fun line => (Text.fault? line).isNone) =
        Inbox.lines sent :=
      List.takeWhile_eq_self_iff.2 fun line hline => Option.isNone_iff_eq_none.2 (h line hline)
    simp only [ofBytes, ofEveryLine, htake, List.findSome?_eq_none_iff.2 h]

theorem ofBytes_nil : ofBytes [] = ⟨[], .closedByServer⟩ := rfl

theorem after_after (h : Hearing) (heard more : List Message) :
    (h.after more).after heard = h.after (heard ++ more) := by
  rw [after, after, after, List.append_assoc]

end Hearing

namespace Attends

theorem isPrefix (h : Attends whole heard later inbox) : heard <+: whole.messages :=
  ⟨_, congrArg Hearing.messages h.rest⟩

theorem push (h : Attends whole heard (chunk ++ later) inbox) (hopen : inbox.isClosed = false) :
    Attends whole heard later (inbox.push chunk) where
  rest := by rw [Inbox.push, List.append_assoc, h.rest]
  closed := fun hclosed => absurd (hopen.symm.trans hclosed) Bool.false_ne_true

theorem close (h : Attends whole heard [] inbox) : Attends whole heard [] inbox.close where
  rest := h.rest
  closed := fun _ => rfl

theorem popText {text : String} (h : Attends whole heard later inbox)
    (hpop : inbox.popLine? = some (line, inbox')) (htext : Text.ofBytes line = .ok text) :
    Attends whole (heard ++ (Message.ofLine? text).toList) later inbox' where
  rest := by
    have hlines := Inbox.lines_of_popLine? hpop h.closed
    rw [← Hearing.after_after, ← Hearing.ofBytes_of_text hlines htext, h.rest]
  closed := by
    rw [(Inbox.length_of_popLine? hpop).1]
    exact h.closed

/-- A line that is no text comes after all that the session can hear. -/
theorem popGarbled {fault : Text.Utf8Fault} (h : Attends whole heard later inbox)
    (hpop : inbox.popLine? = some (line, inbox')) (hgarbled : Text.ofBytes line = .error fault) :
    whole = ⟨heard, .garbled fault⟩ := by
  have hlines := Inbox.lines_of_popLine? hpop h.closed
  rw [← h.rest, Hearing.ofBytes_of_garbled hlines hgarbled, Hearing.after, List.append_nil]

theorem finish (h : Attends whole heard later inbox) (hfinished : inbox.isFinished) :
    whole = ⟨heard, .closedByServer⟩ := by
  rw [Inbox.isFinished, Bool.and_eq_true] at hfinished
  rw [← h.rest, h.closed hfinished.1, List.isEmpty_iff.1 hfinished.2, List.append_nil,
    Hearing.ofBytes_nil, Hearing.after, List.append_nil]

end Attends

/-- The step lemma, for a transport that is open. -/
theorem Handles.advances (h : Handles inbox move stage effects)
    (hattends : Attends whole heard later inbox) (hsends : Sends later (move :: moves) left) :
    ∃ later', Sends later' moves left ∧ Advances whole heard move later' stage effects := by
  have hquiet : heard ++ [] = heard := List.append_nil heard
  have hend : ∀ stage, stage = .waiting ∨ stage = .stopped →
      Listens whole (heard ++ []) later stage :=
    fun stage hstage => .ended hstage (hquiet.symm ▸ hattends.isPrefix)
  cases h with
  | waits hmove hstage =>
    exact ⟨later, hsends.of_other hmove, .opened hstage (hquiet.symm ▸ hattends),
      List.forall_mem_nil _⟩
  | greets hello =>
    exact ⟨later, hsends.of_other rfl, .opened rfl (hquiet.symm ▸ hattends),
      List.forall_mem_nil _⟩
  | fails n reason hello =>
    exact ⟨later, hsends.of_other rfl, hend _ (.inl rfl),
      List.forall_mem_singleton.2 (.inr rfl)⟩
  | arrives chunk hopen hstage =>
    cases hsends with
    | arrive _ hsends =>
      exact ⟨_, hsends, .opened hstage (hquiet.symm ▸ hattends.push hopen),
        List.forall_mem_nil _⟩
    | other hmove => cases hmove
  | closes hstage =>
    cases hsends with
    | close hsends =>
      exact ⟨_, hsends, .opened hstage (hquiet.symm ▸ hattends.close), List.forall_mem_nil _⟩
    | other hmove => cases hmove
  | @reads line text _ hline htext =>
    have hattends' := hattends.popText hline htext
    rw [← delivered_told (Message.ofLine? text).toList] at hattends'
    refine ⟨later, hsends.of_other rfl, .opened rfl hattends', ?_⟩
    rw [losses_told]
    exact List.forall_mem_nil _
  | garbled hline htext =>
    obtain rfl := hattends.popGarbled hline htext
    exact ⟨later, hsends.of_other rfl, hend _ (.inl rfl),
      List.forall_mem_singleton.2 (.inl ⟨rfl, hquiet⟩)⟩
  | finishes hfinished =>
    obtain rfl := hattends.finish hfinished
    exact ⟨later, hsends.of_other rfl, hend _ (.inl rfl),
      List.forall_mem_singleton.2 (.inl ⟨rfl, hquiet⟩)⟩
  | loses hmove hlost =>
    exact ⟨later, hsends.of_other hmove, hend _ (.inl rfl),
      List.forall_mem_singleton.2 (.inr hlost)⟩
  | shuts hmove =>
    exact ⟨later, hsends.of_other hmove, hend _ (.inr rfl), List.forall_mem_nil _⟩

theorem Listens.isPrefix (h : Listens whole heard later stage) : heard <+: whole.messages := by
  cases h with
  | opened _ h => exact h.isPrefix
  | ended _ hheard => exact hheard

namespace Supervisor

/-- The step lemma. -/
theorem advances_step (h : Listens whole heard later s.stage)
    (hstep : s.step move = some (t, effects)) (hsends : Sends later (move :: moves) left)
    (hone : .connecting ∉ phases effects) :
    ∃ later', Sends later' moves left ∧ Advances whole heard move later' t.stage effects := by
  cases h with
  | opened hstage h => exact (handles_step hstage hstep).advances h hsends
  | ended hstage hheard =>
    obtain ⟨hend, rfl⟩ := step_ended hstage hstep hone
    obtain ⟨later', hsends⟩ := hsends.tail
    exact ⟨later', hsends, .ended hend ((List.append_nil heard).symm ▸ hheard),
      List.forall_mem_nil _⟩

/-- The run lemma. -/
theorem advances_run (h : Listens whole heard later s.stage)
    (hrun : s.run moves = some (t, effects)) (hsends : Sends later moves left)
    (hone : .connecting ∉ phases effects) :
    Listens whole (heard ++ delivered effects) left t.stage ∧
    ∀ loss ∈ losses effects,
      (loss = whole.ending ∧ heard ++ delivered effects = whole.messages) ∨
        ∃ move ∈ moves, move.Loses loss := by
  induction moves generalizing s heard later effects with
  | nil =>
    cases hrun
    cases hsends
    exact ⟨(List.append_nil heard).symm ▸ h, List.forall_mem_nil _⟩
  | cons move moves ih =>
    obtain ⟨u, first, more, hstep, hrest, rfl⟩ := run_cons_eq_some hrun
    rw [phases_append, List.mem_append, not_or] at hone
    obtain ⟨later', hsends, hfirst⟩ := advances_step h hstep hsends hone.1
    obtain ⟨hlistens, hlosses⟩ := ih hfirst.listens hrest hsends hone.2
    rw [List.append_assoc, ← delivered_append] at hlistens hlosses
    refine ⟨hlistens, fun loss hloss => ?_⟩
    rw [losses_append] at hloss
    rcases List.mem_append.1 hloss with hloss | hloss
    · rcases hfirst.losses loss hloss with ⟨hending, hall⟩ | hlost
      · -- All has been heard, and no more than that can be.
        have hprefix := hlistens.isPrefix
        rw [delivered_append, ← List.append_assoc, hall] at hprefix ⊢
        refine .inl ⟨hending, hprefix.eq_of_length_le ?_⟩
        rw [List.length_append]
        exact Nat.le_add_right _ _
      · exact .inr ⟨move, List.mem_cons_self, hlost⟩
    · rcases hlosses loss hloss with hending | ⟨m, hm, hlost⟩
      · exact .inl hending
      · exact .inr ⟨m, List.mem_cons_of_mem _ hm, hlost⟩

/-- What has arrived is read to the end, once the server has closed. -/
theorem run_readLines (h : Attends whole heard [] inbox) (hclosed : inbox.isClosed = true)
    (hstage : s.stage = .reading inbox) :
    ∃ count t effects, s.run (List.replicate count .readLine) = some (t, effects) ∧
      whole.ending ∈ losses effects ∧ heard ++ delivered effects = whole.messages := by
  induction hlength : inbox.unread.length using Nat.strong_induction_on
    generalizing heard inbox s with
  | _ length ih =>
    cases hpop : inbox.popLine? with
    | none =>
      have hfinished := Inbox.isFinished_of_popLine? hclosed hpop
      obtain rfl := h.finish hfinished
      have hstep : s.step .readLine = some (s.lose .closedByServer) := by
        simp only [step, hstage, readLine, hpop, if_pos hfinished]
      exact ⟨1, _, Loss.closedByServer.effects, run_cons hstep rfl, List.mem_singleton_self _,
        List.append_nil heard⟩
    | some popped =>
      obtain ⟨line, inbox'⟩ := popped
      cases htext : Text.ofBytes line with
      | error fault =>
        obtain rfl := h.popGarbled hpop htext
        have hstep : s.step .readLine = some (s.lose (.garbled fault)) := by
          simp only [step, hstage, readLine, hpop, htext]
        exact ⟨1, _, (Loss.garbled fault).effects, run_cons hstep rfl,
          List.mem_singleton_self _, List.append_nil heard⟩
      | ok text =>
        obtain ⟨hclosed', hshorter⟩ := Inbox.length_of_popLine? hpop
        rw [hlength] at hshorter
        have hstep : s.step .readLine = some ({ s with stage := .reading inbox' },
            Message.told (Message.ofLine? text).toList) := by
          simp only [step, hstage, readLine, hpop, htext, map_notices]
        obtain ⟨count, t, effects, hrun, hlost, hall⟩ :=
          @ih _ hshorter _ inbox' { s with stage := .reading inbox' } (h.popText hpop htext)
            (hclosed'.trans hclosed) rfl rfl
        refine ⟨count + 1, t, _, run_cons hstep hrun, ?_, ?_⟩
        · rw [losses_append]
          exact List.mem_append_right _ hlost
        · rwa [delivered_append, delivered_told, ← List.append_assoc]

/-- What is left of the lines can still come while the session reads. -/
theorem exists_rest (h : Listens whole heard left s.stage) (hstage : s.stage = .reading inbox) :
    ∃ later t effects, s.run later = some (t, effects) ∧ Sends left later [] ∧
      whole.ending ∈ losses effects ∧ heard ++ delivered effects = whole.messages := by
  rw [hstage] at h
  cases h with
  | ended hend => rcases hend with hend | hend <;> cases hend
  | opened hinbox h =>
    cases hinbox
    cases hclosed : inbox.isClosed with
    | true =>
      have hleft := h.closed hclosed
      subst hleft
      obtain ⟨count, t, effects, hrun, hend⟩ := run_readLines h hclosed hstage
      exact ⟨_, t, effects, hrun, .readLines count [], hend⟩
    | false =>
      have harrive : s.step (.arrive left) =
          some ({ s with stage := .reading (inbox.push left) }, []) := by
        simp [step, hstage, hclosed]
      have hclose : ({ s with stage := .reading (inbox.push left) } : Supervisor).step .close =
          some ({ s with stage := .reading (inbox.push left).close }, []) := rfl
      have hall := (Attends.push ((List.append_nil left).symm ▸ h) hclosed).close
      obtain ⟨count, t, effects, hrun, hend⟩ := run_readLines
        (s := { s with stage := .reading (inbox.push left).close }) hall rfl rfl
      have hsends : Sends (left ++ []) (.arrive left :: .close ::
          List.replicate count .readLine) [] := .arrive left (.close (.readLines count []))
      rw [List.append_nil] at hsends
      exact ⟨_, t, effects, run_cons harrive (run_cons hclose hrun), hsends, hend⟩

/-- A session hears the lines of the server up to the first that is no text, whatever the bytes
are, whatever they are cut into and whatever happens in between. The line that is no text ends it,
as the server's end does if there is none: nothing but another move ends it before, and while it
reads, all that there is to hear can still come. So every line counts, and none ends the session,
only if all of them are text. -/
theorem session_hears (hstage : s.stage = .connecting)
    (hrun : s.run (.connect :: moves) = some (t, effects)) (hsends : Sends sent moves left)
    (hone : .connecting ∉ phases effects) :
    delivered effects <+: (Hearing.ofBytes sent).messages ∧
    (∀ loss ∈ losses effects, (loss = (Hearing.ofBytes sent).ending ∧
      delivered effects = (Hearing.ofBytes sent).messages) ∨ ∃ move ∈ moves, move.Loses loss) ∧
    (∀ inbox, t.stage = .reading inbox → ∃ later u more, t.run later = some (u, more) ∧
      Sends sent (moves ++ later) [] ∧ (Hearing.ofBytes sent).ending ∈ losses more ∧
      delivered (effects ++ more) = (Hearing.ofBytes sent).messages) ∧
    (Hearing.ofBytes sent = Hearing.ofEveryLine sent ↔
      ∀ line ∈ Inbox.lines sent, Text.fault? line = none) := by
  obtain ⟨u, first, more, hstep, hrest, rfl⟩ := run_cons_eq_some hrun
  have hopen : u.stage = .greeting {} ∧ first = [.enter .established, .tell .connected] := by
    simp only [step, hstage] at hstep
    cases hstep
    exact ⟨rfl, rfl⟩
  obtain ⟨hgreeting, rfl⟩ := hopen
  have hstart : Listens (Hearing.ofBytes sent) [] sent u.stage := by
    rw [hgreeting]
    exact .opened rfl ⟨rfl, Bool.noConfusion⟩
  rw [phases_append, List.mem_append, not_or] at hone
  obtain ⟨hlistens, hlosses⟩ := advances_run hstart hrest hsends hone.2
  refine ⟨hlistens.isPrefix, hlosses, fun inbox hreading => ?_, Hearing.ofBytes_eq_ofEveryLine_iff⟩
  obtain ⟨later, u, rest, hlater, hsends', hending, hall⟩ := exists_rest hlistens hreading
  refine ⟨later, u, rest, hlater, hsends.trans hsends', hending, ?_⟩
  rw [delivered_append]
  exact hall

/-- A message, a line that is no JSON and a second message, then a byte that no text has, and a
third message: two of them are heard. -/
theorem session_hears_two :
    ∃ (sent : List UInt8) (moves : List Move) (t : Supervisor) (effects : List Effect),
      (ofSettings {} "").run (.connect :: moves) = some (t, effects) ∧ Sends sent moves [] ∧
      .connecting ∉ phases effects ∧ losses effects = [(Hearing.ofBytes sent).ending] ∧
      delivered effects = (Hearing.ofBytes sent).messages ∧
      (Hearing.ofBytes sent).messages.length = 2 ∧
      (Hearing.ofEveryLine sent).messages.length = 3 := by
  let message : List UInt8 := "\x7b\"type\":\"a\"\x7d\n".toUTF8.toList
  let sent : List UInt8 :=
    message ++ [0x7B, 0x0A] ++ message ++ [0xFF, 0x0A] ++ message
  let moves : List Move :=
    [.arrive sent, .greet, .readLine, .readLine, .readLine, .close, .readLine]
  have hsends : Sends sent moves [] := by
    have hwhole : Sends (sent ++ []) moves [] := .arrive sent (.other rfl (.other rfl
      (.other rfl (.other rfl (.close (.readLines 1 []))))))
    rwa [List.append_nil] at hwhole
  have hends : (((ofSettings {} "").run (.connect :: moves)).any fun result =>
      decide (.connecting ∉ phases result.2 ∧
        losses result.2 = [(Hearing.ofBytes sent).ending])) = true := by
    decide +kernel
  rw [Option.any_eq_true] at hends
  obtain ⟨⟨t, effects⟩, hrun, hends⟩ := hends
  obtain ⟨hone, hlost⟩ := of_decide_eq_true hends
  have hheard := (session_hears rfl hrun hsends hone).2.1 (Hearing.ofBytes sent).ending
    (by rw [hlost]; exact List.mem_singleton_self _)
  refine ⟨sent, moves, t, effects, hrun, hsends, hone, hlost, ?_, by decide +kernel,
    by decide +kernel⟩
  rcases hheard with ⟨-, hall⟩ | ⟨move, hmove, hloses⟩
  · exact hall
  · simp only [moves, List.mem_cons, List.not_mem_nil, or_false] at hmove
    rcases hmove with rfl | rfl | rfl | rfl | rfl | rfl | rfl <;> cases hloses

/-- A byte that no text has costs the message of the next line too, and ends the session: no other
move could. -/
theorem garbled_line_ends_session :
    ∃ (sent : List UInt8) (moves : List Move) (t : Supervisor) (effects : List Effect),
      (ofSettings {} "").run (.connect :: moves) = some (t, effects) ∧ Sends sent moves [] ∧
      (∀ move ∈ moves, ∀ loss, ¬ move.Loses loss) ∧
      losses effects = [.garbled (.invalid 1 0)] ∧
      delivered effects = [] ∧
      ((Inbox.lines sent).map fun line => (Message.ofBytes? line).isSome) = [false, true] := by
  let sent : List UInt8 := [0xFF, 0x0A] ++ "\x7b\"type\":\"a\"\x7d\n".toUTF8.toList
  let moves : List Move := [.greet, .arrive sent, .readLine]
  have hsends : Sends sent moves [] := by
    have hwhole : Sends (sent ++ []) moves [] := .other rfl (.arrive sent (.readLines 1 []))
    rwa [List.append_nil] at hwhole
  have hends : (((ofSettings {} "").run (.connect :: moves)).any fun result =>
      decide ((delivered result.2).length = 0 ∧
        losses result.2 = [.garbled (.invalid 1 0)])) = true := by
    decide +kernel
  rw [Option.any_eq_true] at hends
  obtain ⟨⟨t, effects⟩, hrun, hends⟩ := hends
  obtain ⟨hnone, hlost⟩ := of_decide_eq_true hends
  refine ⟨sent, moves, t, effects, hrun, hsends, ?_, hlost,
    List.length_eq_zero_iff.1 hnone, by decide +kernel⟩
  intro move hmove loss hloses
  simp only [moves, List.mem_cons, List.not_mem_nil, or_false] at hmove
  rcases hmove with rfl | rfl | rfl <;> cases hloses

end Supervisor

end TileViewer
