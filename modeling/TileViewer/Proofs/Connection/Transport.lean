import TileViewer.Proofs.Connection.Trace

/-!
What a move can do while a transport is open, and what the viewer and the server see of it: the
messages, the losses and the phases, and the bytes that have not arrived yet.
-/
namespace TileViewer

def Effect.message? : Effect → Option Message
  | .tell (.message m) => some m
  | _ => none

/-- The messages that the viewer is told of. -/
def delivered (effects : List Effect) : List Message := effects.filterMap Effect.message?

def Effect.loss? : Effect → Option Loss
  | .tell (.disconnected loss) => some loss
  | _ => none

/-- The losses that the viewer is told of. -/
def losses (effects : List Effect) : List Loss := effects.filterMap Effect.loss?

/-- The phases that are entered. -/
def phases (effects : List Effect) : List Phase := effects.filterMap Effect.phase?

/-- The server makes this move. -/
def Move.isServers : Move → Bool
  | .arrive _ | .close => true
  | _ => false

/-- The server's part in some moves: what arrives is the beginning of what it sends, and it closes
once all has arrived. The bytes at the end are those that have not arrived after the moves. -/
inductive Sends : List UInt8 → List Move → List UInt8 → Prop
  | done (bytes : List UInt8) : Sends bytes [] bytes
  | arrive (chunk : List UInt8) {bytes left : List UInt8} {moves : List Move}
    (h : Sends bytes moves left) : Sends (chunk ++ bytes) (.arrive chunk :: moves) left
  | close {left : List UInt8} {moves : List Move} (h : Sends [] moves left) :
    Sends [] (.close :: moves) left
  | other {move : Move} (hmove : move.isServers = false) {bytes left : List UInt8}
    {moves : List Move} (h : Sends bytes moves left) : Sends bytes (move :: moves) left

/-- A transport may be lost by this move, whatever its lines are. -/
def Move.Loses : Move → Loss → Prop
  | .failGreet _ reason, .ungreeted reason' => reason = reason'
  | .failRead reason, .unread reason' => reason = reason'
  | .checkHealth isSilent, .silent _ => isSilent = true
  | .obey, .tornDown => True
  | _, _ => False

/-- The bytes of a transport that is open. -/
def Stage.inbox? : Stage → Option Inbox
  | .greeting inbox => some inbox
  | .reading inbox => some inbox
  | _ => none

/-- What a move can do while a transport is open. -/
inductive Handles (inbox : Inbox) : Move → Stage → List Effect → Prop
  | waits {move : Move} {stage : Stage} (hmove : move.isServers = false)
    (hstage : stage.inbox? = some inbox) : Handles inbox move stage []
  | greets (hello : List UInt8) : Handles inbox .greet (.reading inbox) [.write hello]
  | fails (sent : Nat) (reason : String) (hello : List UInt8) :
    Handles inbox (.failGreet sent reason) .waiting
      (.write (hello.take sent) :: (Loss.ungreeted reason).effects)
  | arrives (chunk : List UInt8) {stage : Stage} (hopen : inbox.isClosed = false)
    (hstage : stage.inbox? = some (inbox.push chunk)) : Handles inbox (.arrive chunk) stage []
  | closes {stage : Stage} (hstage : stage.inbox? = some inbox.close) :
    Handles inbox .close stage []
  | reads {line : List UInt8} {text : String} {rest : Inbox}
    (hline : inbox.popLine? = some (line, rest)) (htext : Text.ofBytes line = .ok text) :
    Handles inbox .readLine (.reading rest) (Message.told (Message.ofLine? text).toList)
  | garbled {line : List UInt8} {fault : Text.Utf8Fault} {rest : Inbox}
    (hline : inbox.popLine? = some (line, rest)) (htext : Text.ofBytes line = .error fault) :
    Handles inbox .readLine .waiting (Loss.garbled fault).effects
  | finishes (hfinished : inbox.isFinished = true) :
    Handles inbox .readLine .waiting Loss.closedByServer.effects
  | loses {move : Move} {loss : Loss} (hmove : move.isServers = false) (hloss : move.Loses loss) :
    Handles inbox move .waiting loss.effects
  | shuts {move : Move} (hmove : move.isServers = false) :
    Handles inbox move .stopped [.enter .closing]

variable {later left : List UInt8} {inbox : Inbox} {s t : Supervisor} {move : Move}
  {moves moves' : List Move} {effects : List Effect} {stage : Stage}

theorem delivered_append (effects more : List Effect) :
    delivered (effects ++ more) = delivered effects ++ delivered more := List.filterMap_append

theorem delivered_told (messages : List Message) :
    delivered (Message.told messages) = messages := by
  rw [delivered, Message.filterMap_told]
  exact List.filterMap_some

theorem losses_append (effects more : List Effect) :
    losses (effects ++ more) = losses effects ++ losses more := List.filterMap_append

theorem losses_told (messages : List Message) : losses (Message.told messages) = [] := by
  rw [losses, Message.filterMap_told]
  exact List.filterMap_eq_nil_iff.2 fun _ _ => rfl

theorem phases_append (effects more : List Effect) :
    phases (effects ++ more) = phases effects ++ phases more := List.filterMap_append

namespace Sends

theorem trans {left' : List UInt8} (h : Sends later moves left) (h' : Sends left moves' left') :
    Sends later (moves ++ moves') left' := by
  induction h with
  | done => exact h'
  | arrive chunk _ ih => exact .arrive chunk (ih h')
  | close _ ih => exact .close (ih h')
  | other hmove _ ih => exact .other hmove (ih h')

theorem of_other (h : Sends later (move :: moves) left) (hmove : move.isServers = false) :
    Sends later moves left := by
  cases h with
  | arrive => cases hmove
  | close => cases hmove
  | other _ h => exact h

theorem tail (h : Sends later (move :: moves) left) : ∃ later', Sends later' moves left := by
  cases h with
  | arrive _ h => exact ⟨_, h⟩
  | close h => exact ⟨_, h⟩
  | other _ h => exact ⟨_, h⟩

theorem readLines (count : Nat) (later : List UInt8) :
    Sends later (List.replicate count .readLine) later := by
  induction count with
  | zero => exact .done later
  | succ count ih => exact .other rfl ih

end Sends

namespace Supervisor

theorem handles_readLine (h : s.readLine inbox = some (t, effects)) :
    Handles inbox .readLine t.stage effects := by
  unfold readLine at h
  split at h
  · split at h
    · next hfinished =>
      cases h
      exact .finishes hfinished
    · cases h
  · next hline =>
    split at h
    · next htext =>
      cases h
      exact .garbled hline htext
    · next htext =>
      rw [map_notices] at h
      cases h
      exact .reads hline htext

theorem handles_obey (hstage : s.stage = .reading inbox) (h : s.obey = some (t, effects)) :
    Handles inbox .obey t.stage effects := by
  obtain ⟨⟨r, requests⟩, -, h⟩ := Option.bind_eq_some_iff.1 h
  cases r with
  | teardown =>
    simp only [hstage] at h
    cases h
    exact .loses rfl trivial
  | shutdown =>
    simp only [hstage] at h
    cases h
    exact .shuts rfl

theorem handles_greeting (hstage : s.stage = .greeting inbox)
    (h : s.step move = some (t, effects)) : Handles inbox move t.stage effects := by
  cases move with
  | request r =>
    simp only [step, Option.ite_none_left_eq_some] at h
    cases h.2
    exact .waits rfl (congrArg Stage.inbox? hstage)
  | hangUp =>
    cases h
    exact .waits rfl (congrArg Stage.inbox? hstage)
  | greet =>
    simp only [step, hstage] at h
    cases h
    exact .greets s.hello
  | failGreet sent reason =>
    simp only [step, hstage] at h
    cases h
    exact .fails sent reason s.hello
  | arrive chunk =>
    simp only [step, hstage, Option.ite_none_left_eq_some, Bool.not_eq_true] at h
    cases h.2
    exact .arrives chunk h.1 rfl
  | close =>
    simp only [step, hstage] at h
    cases h
    exact .closes rfl
  | _ => simp [step, hstage] at h

theorem handles_reading (hstage : s.stage = .reading inbox)
    (h : s.step move = some (t, effects)) : Handles inbox move t.stage effects := by
  cases move with
  | request r =>
    simp only [step, Option.ite_none_left_eq_some] at h
    cases h.2
    exact .waits rfl (congrArg Stage.inbox? hstage)
  | hangUp =>
    cases h
    exact .waits rfl (congrArg Stage.inbox? hstage)
  | arrive chunk =>
    simp only [step, hstage, Option.ite_none_left_eq_some, Bool.not_eq_true] at h
    cases h.2
    exact .arrives chunk h.1 rfl
  | close =>
    simp only [step, hstage] at h
    cases h
    exact .closes rfl
  | readLine =>
    simp only [step, hstage] at h
    exact handles_readLine h
  | failRead reason =>
    simp only [step, hstage] at h
    cases h
    exact .loses rfl rfl
  | checkHealth isSilent =>
    simp only [step, hstage] at h
    cases isSilent with
    | true =>
      cases h
      exact .loses rfl rfl
    | false =>
      cases h
      exact .waits rfl (congrArg Stage.inbox? hstage)
  | obey =>
    simp only [step, hstage] at h
    exact handles_obey hstage h
  | _ => simp [step, hstage] at h

/-- Each move on an open transport does one of these things. -/
theorem handles_step (hinbox : s.stage.inbox? = some inbox)
    (h : s.step move = some (t, effects)) : Handles inbox move t.stage effects := by
  cases hstage : s.stage with
  | greeting =>
    rw [hstage] at hinbox
    cases hinbox
    exact handles_greeting hstage h
  | reading =>
    rw [hstage] at hinbox
    cases hinbox
    exact handles_reading hstage h
  | _ =>
    rw [hstage] at hinbox
    cases hinbox

/-- Nothing comes of a move after a session, unless it begins the next attempt. -/
theorem step_ended (hstage : s.stage = .waiting ∨ s.stage = .stopped)
    (h : s.step move = some (t, effects)) (hone : .connecting ∉ phases effects) :
    (t.stage = .waiting ∨ t.stage = .stopped) ∧ effects = [] := by
  have hpasses := (goes_step h).passes
  rcases hstage with hstage | hstage
  · rw [hstage] at hpasses
    generalize t.stage = stage at hpasses
    cases hpasses with
    | stays => exact ⟨.inl rfl, rfl⟩
    | leaves => exact ⟨.inr rfl, rfl⟩
    | retries => exact absurd List.mem_cons_self hone
  · rw [hstage] at hpasses
    obtain ⟨hstopped, hnone⟩ := hpasses.of_stopped
    exact ⟨.inr hstopped, hnone⟩

end Supervisor

end TileViewer
