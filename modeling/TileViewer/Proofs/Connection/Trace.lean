import Mathlib.Data.List.Chain
import TileViewer.Proofs.Connection.Stages

/-!
All that the connection's keeper does, in order. Whatever happens around it, its doings fall into
attempts: one that fails, or a transport that is greeted with one line, read, and lost.
-/
namespace TileViewer

namespace Effect

def phase? : Effect → Option Phase
  | .enter phase => some phase
  | _ => none

def notice? : Effect → Option Notice
  | .tell notice => some notice
  | _ => none

end Effect

namespace Message

/-- What the viewer is told is a matter of the messages alone. -/
theorem filterMap_told {α : Type} (f : Effect → Option α) (messages : List Message) :
    (told messages).filterMap f = messages.filterMap fun m => f (.tell (.message m)) :=
  List.filterMap_map

theorem phases_told (messages : List Message) :
    (told messages).filterMap Effect.phase? = [] := by
  rw [filterMap_told]
  exact List.filterMap_eq_nil_iff.2 fun _ _ => rfl

theorem notices_told (messages : List Message) :
    (told messages).filterMap Effect.notice? = messages.map .message := by
  rw [filterMap_told]
  exact congrFun List.filterMap_eq_map' messages

theorem told_append (messages more : List Message) :
    told (messages ++ more) = told messages ++ told more := List.map_append

end Message

/-- A line that has come whole is taken off the front. -/
theorem Inbox.popLine?_of_feed {line rest : List UInt8} {isClosed : Bool}
    (h : ∀ b ∈ line, b ≠ Inbox.lineFeed) :
    Inbox.popLine? ⟨line ++ Inbox.lineFeed :: rest, isClosed⟩ =
      some (line ++ [Inbox.lineFeed], ⟨rest, isClosed⟩) := by
  have hline : ∀ b ∈ line, decide (b ≠ Inbox.lineFeed) = true :=
    fun b hb => decide_eq_true (h b hb)
  simp only [Inbox.popLine?]
  rw [List.takeWhile_append_of_pos hline, List.dropWhile_append_of_pos hline,
    List.takeWhile_cons_of_neg (by simp), List.dropWhile_cons_of_neg (by simp), List.append_nil]

namespace Supervisor

variable {s t u : Supervisor} {move : Move} {moves : List Move} {hello : List UInt8}
  {stage stage' : Stage} {effects done last : List Effect}

/-- What is done on a transport that is open and greeted. -/
def opened (hello : List UInt8) (messages : List Message) : List Effect :=
  .enter .established :: .tell .connected :: .write hello :: Message.told messages

/-- An attempt that is over: the transport never opened, never took the whole hello, or was lost
after any number of messages. -/
inductive Attempt (hello : List UInt8) : List Effect → Prop
  | refused (reason : String) : Attempt hello (Loss.unconnected reason).effects
  | ungreeted (sent : Nat) (reason : String) :
    Attempt hello (.enter .established :: .tell .connected :: .write (hello.take sent) ::
      (Loss.ungreeted reason).effects)
  | session (messages : List Message) (loss : Loss) :
    Attempt hello (opened hello messages ++ loss.effects)

/-- What has been done since the last attempt began. A keeper that stops while it reads tells of no
loss. -/
inductive UnderWay (hello : List UInt8) : Stage → List Effect → Prop
  | connecting : UnderWay hello .connecting []
  | greeting (inbox : Inbox) :
    UnderWay hello (.greeting inbox) [.enter .established, .tell .connected]
  | reading (inbox : Inbox) (messages : List Message) :
    UnderWay hello (.reading inbox) (opened hello messages)
  | waiting {last : List Effect} (h : Attempt hello last) : UnderWay hello .waiting last
  | shut (messages : List Message) :
    UnderWay hello .stopped (opened hello messages ++ [.enter .closing])
  | left {last : List Effect} (h : Attempt hello last) : UnderWay hello .stopped last

/-- What the viewer is told of one attempt. -/
inductive Episode : List Notice → Prop
  | refused (reason : String) : Episode [.disconnected (.unconnected reason)]
  | session (messages : List Message) (loss : Loss) :
    Episode (.connected :: (messages.map .message ++ [.disconnected loss]))

/-- Attempts one after the other, and then what is under way. -/
def inTurn : List (List Effect) → List Effect → List Effect
  | [], last => last
  | a :: attempts, last => a ++ .enter .connecting :: inTurn attempts last

/-- All that has been done is a number of attempts that are over, and the last one. -/
def InAttempts (hello : List UInt8) (stage : Stage) (effects : List Effect) : Prop :=
  ∃ attempts last, effects = inTurn attempts last ∧ (∀ a ∈ attempts, Attempt hello a) ∧
    UnderWay hello stage last

theorem inTurn_append (attempts : List (List Effect)) (last effects : List Effect) :
    inTurn attempts last ++ effects = inTurn attempts (last ++ effects) := by
  induction attempts with
  | nil => rfl
  | cons a attempts ih => rw [inTurn, inTurn, List.append_assoc, List.cons_append, ih]

theorem inTurn_concat (attempts : List (List Effect)) (last : List Effect) :
    inTurn (attempts ++ [last]) [] = inTurn attempts (last ++ [.enter .connecting]) := by
  induction attempts with
  | nil => rfl
  | cons a attempts ih => rw [List.cons_append, inTurn, inTurn, ih]

/-- The step lemma: what is under way goes on, or is over and the next attempt begins. -/
theorem UnderWay.passes (h : UnderWay hello stage last) (hp : Passes hello stage stage' effects) :
    UnderWay hello stage' (last ++ effects) ∨
      Attempt hello last ∧ stage' = .connecting ∧ effects = [.enter .connecting] := by
  cases hp with
  | stays =>
    rw [List.append_nil]
    exact .inl h
  | opens =>
    cases h
    exact .inl (.greeting _)
  | refused reason =>
    cases h
    exact .inl (.waiting (.refused reason))
  | fills =>
    cases h
    exact .inl (.greeting _)
  | greets =>
    cases h
    exact .inl (.reading _ [])
  | ungreeted inbox sent reason =>
    cases h
    exact .inl (.waiting (.ungreeted sent reason))
  | reads before after more =>
    cases h with
    | reading _ messages =>
      have htold : opened hello messages ++ Message.told more =
          opened hello (messages ++ more) := by
        simp only [opened, Message.told_append, List.cons_append]
      rw [htold]
      exact .inl (.reading _ _)
  | loses inbox loss =>
    cases h with
    | reading _ messages => exact .inl (.waiting (.session messages loss))
  | shuts =>
    cases h with
    | reading _ messages => exact .inl (.shut messages)
  | leaves =>
    cases h with
    | waiting hlast =>
      rw [List.append_nil]
      exact .inl (.left hlast)
  | retries =>
    cases h with
    | waiting hlast => exact .inr ⟨hlast, rfl, rfl⟩

theorem InAttempts.passes (h : InAttempts hello stage done)
    (hp : Passes hello stage stage' effects) : InAttempts hello stage' (done ++ effects) := by
  obtain ⟨attempts, last, rfl, hattempts, hlast⟩ := h
  rcases hlast.passes hp with hlast' | ⟨hover, rfl, rfl⟩
  · exact ⟨attempts, last ++ effects, inTurn_append _ _ _, hattempts, hlast'⟩
  · refine ⟨attempts ++ [last], [], ?_, ?_, .connecting⟩
    · rw [inTurn_append, inTurn_concat]
    · intro a ha
      rcases List.mem_append.1 ha with ha | ha
      · exact hattempts a ha
      · rw [List.mem_singleton.1 ha]
        exact hover

/-- The run lemma. -/
theorem InAttempts.run (h : InAttempts s.hello s.stage done)
    (hrun : s.run moves = some (t, effects)) : InAttempts s.hello t.stage (done ++ effects) := by
  induction moves generalizing s done effects with
  | nil =>
    cases hrun
    rwa [List.append_nil]
  | cons move moves ih =>
    obtain ⟨u, first, rest, hstep, hrest, rfl⟩ := run_cons_eq_some hrun
    have hgoes := goes_step hstep
    have hnext := h.passes hgoes.passes
    rw [← hgoes.hello] at hnext ⊢
    rw [← List.append_assoc]
    exact ih hnext hrest

theorem phases_opened (messages : List Message) :
    (opened hello messages).filterMap Effect.phase? = [.established] :=
  congrArg (Phase.established :: ·) (Message.phases_told messages)

theorem notices_opened (messages : List Message) :
    (opened hello messages).filterMap Effect.notice? = .connected :: messages.map .message :=
  congrArg (Notice.connected :: ·) (Message.notices_told messages)

theorem Attempt.phases (h : Attempt hello last) :
    last.filterMap Effect.phase? = [.closing, .reconnecting] ∨
      last.filterMap Effect.phase? = [.established, .closing, .reconnecting] := by
  cases h with
  | refused reason => exact .inl rfl
  | ungreeted sent reason => exact .inr rfl
  | session messages loss =>
    rw [List.filterMap_append, phases_opened]
    exact .inr rfl

theorem Attempt.episode (h : Attempt hello last) : Episode (last.filterMap Effect.notice?) := by
  cases h with
  | refused reason => exact .refused reason
  | ungreeted sent reason => exact .session [] (.ungreeted reason)
  | session messages loss =>
    rw [List.filterMap_append, notices_opened]
    exact .session messages loss

/-- One phase may follow the other. -/
abbrev Follows (a b : Phase) : Prop := a.leadsTo b = true

theorem Attempt.follows (h : Attempt hello last) :
    (.connecting :: last.filterMap Effect.phase?).IsChain Follows := by
  rcases h.phases with hphases | hphases
  · rw [hphases]
    decide
  · rw [hphases]
    decide

theorem UnderWay.follows (h : UnderWay hello stage last) :
    (.connecting :: last.filterMap Effect.phase?).IsChain Follows := by
  cases h with
  | connecting => decide
  | greeting => decide
  | reading _ messages =>
    rw [phases_opened]
    decide
  | waiting hlast => exact hlast.follows
  | shut messages =>
    rw [List.filterMap_append, phases_opened]
    decide
  | left hlast => exact hlast.follows

/-- The phases are entered in a legal order. -/
theorem InAttempts.follows (h : InAttempts hello stage effects) :
    (.connecting :: effects.filterMap Effect.phase?).IsChain Follows := by
  obtain ⟨attempts, last, rfl, hattempts, hlast⟩ := h
  induction attempts with
  | nil => exact hlast.follows
  | cons a attempts ih =>
    obtain ⟨ha, hrest⟩ := List.forall_mem_cons.1 hattempts
    have hlater := ih hrest
    rw [inTurn, List.filterMap_append]
    rcases ha.phases with hphases | hphases
    · rw [hphases]
      exact .cons_cons rfl (.cons_cons rfl (.cons_cons rfl hlater))
    · rw [hphases]
      exact .cons_cons rfl (.cons_cons rfl (.cons_cons rfl (.cons_cons rfl hlater)))

/-- Episodes, and the beginning of one more. -/
def InEpisodes (notices : List Notice) : Prop :=
  ∃ (episodes : List (List Notice)) (unfinished : List Notice),
    notices = episodes.flatten ++ unfinished ∧ (∀ e ∈ episodes, Episode e) ∧
    (unfinished = [] ∨ ∃ messages : List Message,
      unfinished = .connected :: messages.map .message)

theorem Episode.before {notices later : List Notice} (h : Episode notices)
    (hlater : InEpisodes later) : InEpisodes (notices ++ later) := by
  obtain ⟨episodes, unfinished, rfl, hepisodes, hunfinished⟩ := hlater
  refine ⟨notices :: episodes, unfinished, ?_, List.forall_mem_cons.2 ⟨h, hepisodes⟩, hunfinished⟩
  rw [List.flatten_cons, List.append_assoc]

theorem inEpisodes_nil : InEpisodes [] := ⟨[], [], rfl, nofun, .inl rfl⟩

theorem Attempt.inEpisodes (h : Attempt hello last) :
    InEpisodes (last.filterMap Effect.notice?) := by
  have hone := h.episode.before inEpisodes_nil
  rwa [List.append_nil] at hone

theorem UnderWay.inEpisodes (h : UnderWay hello stage last) :
    InEpisodes (last.filterMap Effect.notice?) := by
  cases h with
  | connecting => exact inEpisodes_nil
  | greeting => exact ⟨[], _, rfl, nofun, .inr ⟨[], rfl⟩⟩
  | reading _ messages => exact ⟨[], _, rfl, nofun, .inr ⟨messages, notices_opened messages⟩⟩
  | waiting hlast => exact hlast.inEpisodes
  | shut messages =>
    have htold : (opened hello messages ++ [Effect.enter .closing]).filterMap Effect.notice? =
        .connected :: messages.map .message := by
      rw [List.filterMap_append, notices_opened]
      exact List.append_nil _
    exact ⟨[], _, rfl, nofun, .inr ⟨messages, htold⟩⟩
  | left hlast => exact hlast.inEpisodes

/-- What the viewer is told falls into episodes. -/
theorem InAttempts.inEpisodes (h : InAttempts hello stage effects) :
    InEpisodes (effects.filterMap Effect.notice?) := by
  obtain ⟨attempts, last, rfl, hattempts, hlast⟩ := h
  induction attempts with
  | nil => exact hlast.inEpisodes
  | cons a attempts ih =>
    obtain ⟨ha, hrest⟩ := List.forall_mem_cons.1 hattempts
    rw [inTurn, List.filterMap_append]
    exact ha.episode.before (ih hrest)

theorem Passes.of_stopped (h : Passes hello .stopped stage effects) :
    stage = .stopped ∧ effects = [] := by
  cases h
  exact ⟨rfl, rfl⟩

/-- A keeper that has stopped does nothing more. -/
theorem run_of_stopped (hstage : s.stage = .stopped) (h : s.run moves = some (t, effects)) :
    t.stage = .stopped ∧ effects = [] := by
  induction moves generalizing s effects with
  | nil =>
    cases h
    exact ⟨hstage, rfl⟩
  | cons move moves ih =>
    obtain ⟨u, first, rest, hstep, hrest, rfl⟩ := run_cons_eq_some h
    have hpasses := (goes_step hstep).passes
    rw [hstage] at hpasses
    obtain ⟨hstopped, rfl⟩ := hpasses.of_stopped
    exact ih hstopped hrest

/-- A transport is open and greeted whenever a line is read. -/
theorem reading_of_readLine (h : (s.step .readLine).isSome) :
    ∃ inbox, s.stage = .reading inbox := by
  cases hstage : s.stage with
  | reading inbox => exact ⟨inbox, rfl⟩
  | _ => simp [step, hstage] at h

/-- The keeper of a new connection goes through the phases in a legal order. What it does falls into
attempts, and what it tells into episodes. A transport takes the hello before a line is read, or
fails at it, and takes nothing else. Told to stop, or never to be told anything more, it stops
without another word. -/
theorem run_in_attempts {settings : ConnectionSettings} {uuid : String}
    (h : (ofSettings settings uuid).run moves = some (t, effects)) :
    (.connecting :: effects.filterMap Effect.phase?).IsChain Follows ∧
    InEpisodes (effects.filterMap Effect.notice?) ∧
    (∃ attempts last, effects = inTurn attempts last ∧
      (∀ a ∈ attempts, Attempt (settings.hello uuid).line.toUTF8.toList a) ∧
      UnderWay (settings.hello uuid).line.toUTF8.toList t.stage last ∧
      ((t.step .readLine).isSome → ∃ messages : List Message,
        last = opened (settings.hello uuid).line.toUTF8.toList messages)) ∧
    (∀ inbox rest, t.stage = .reading inbox → t.nextRequest? = some (.shutdown, rest) →
      ∃ u, t.step .obey = some (u, [.enter .closing]) ∧ u.stage = .stopped) ∧
    (t.stage = .stopped → ∀ later u more, t.run later = some (u, more) → more = []) := by
  have hstart : InAttempts (ofSettings settings uuid).hello (ofSettings settings uuid).stage [] :=
    ⟨[], [], rfl, nofun, .connecting⟩
  have hrun := hstart.run h
  rw [List.nil_append] at hrun
  refine ⟨hrun.follows, hrun.inEpisodes, ?_, fun inbox rest hstage hnext => ?_,
    fun hstage later u more hlater => ?_⟩
  · obtain ⟨attempts, last, heffects, hattempts, hlast⟩ := hrun
    refine ⟨attempts, last, heffects, hattempts, hlast, fun hread => ?_⟩
    obtain ⟨inbox, hstage⟩ := reading_of_readLine hread
    rw [hstage] at hlast
    cases hlast with
    | reading _ messages => exact ⟨messages, rfl⟩
  · refine ⟨{ t with requests := rest, stage := .stopped }, ?_, rfl⟩
    simp only [step, hstage, obey, hnext]
    rfl
  · exact (run_of_stopped hstage hlater).2

/-- A refused connection, a message and its session's end, a hello cut short, and a session that is
shut down. -/
theorem run_in_attempts_four :
    ∃ (moves : List Move) (t : Supervisor) (effects : List Effect) (m : Message),
      (ofSettings {} "").run moves = some (t, effects) ∧ t.stage = .stopped ∧
      effects.filterMap Effect.notice? =
        [.disconnected (.unconnected "refused"), .connected, .message m,
          .disconnected .closedByServer, .connected, .disconnected (.ungreeted "reset"),
          .connected] ∧
      (.connecting :: effects.filterMap Effect.phase?).IsChain Follows ∧
      InEpisodes (effects.filterMap Effect.notice?) := by
  let word := "\x7b\"type\":\"a\"\x7d"
  let line := word.toUTF8.toList
  let hello := (ofSettings {} "").hello
  let reads (inbox : Inbox) : Supervisor := { ofSettings {} "" with stage := .reading inbox }
  obtain ⟨m, hm⟩ : ∃ m, (notices (word ++ "\n")).map .tell = Message.told [m] := by
    have htold := map_notices (word ++ "\n")
    have hone : (notices (word ++ "\n")).length = 1 := by decide +kernel
    have hlength := congrArg List.length htold
    rw [List.length_map, hone, Message.told, List.length_map] at hlength
    obtain ⟨m, hm⟩ := List.length_eq_one_iff.1 hlength.symm
    rw [hm] at htold
    exact ⟨m, htold⟩
  have hopen : (ofSettings {} "").run [.failConnect "refused", .retry, .connect, .greet,
      .arrive (line ++ [Inbox.lineFeed])] = some (reads ⟨line ++ [Inbox.lineFeed], false⟩,
        inTurn [(Loss.unconnected "refused").effects] (opened hello [])) := rfl
  have hread : (reads ⟨line ++ [Inbox.lineFeed], false⟩).run [.readLine] =
      some (reads {}, Message.told [m]) := by
    have hpop : Inbox.popLine? ⟨line ++ [Inbox.lineFeed], false⟩ =
        some (line ++ [Inbox.lineFeed], {}) := Inbox.popLine?_of_feed (by decide +kernel)
    have htext : Text.ofBytes (line ++ [Inbox.lineFeed]) = .ok (word ++ "\n") := by
      decide +kernel
    simp [reads, run, step, readLine, hpop, htext, hm]
  have hclose : ∃ t, (reads {}).run [.close, .readLine, .retry, .connect, .failGreet 3 "reset",
      .retry, .connect, .greet, .request .shutdown, .obey] = some (t, Loss.closedByServer.effects ++
        .enter .connecting :: (.enter .established :: .tell .connected :: .write (hello.take 3) ::
          (Loss.ungreeted "reset").effects) ++ .enter .connecting :: opened hello [] ++
            [.enter .closing]) ∧ t.stage = .stopped := ⟨_, rfl, rfl⟩
  obtain ⟨t, hclose, hstopped⟩ := hclose
  have hrun := run_append (run_append hopen hread) hclose
  obtain ⟨hphases, hepisodes, -⟩ := run_in_attempts hrun
  exact ⟨_, t, _, m, hrun, hstopped, rfl, hphases, hepisodes⟩

end Supervisor

end TileViewer
