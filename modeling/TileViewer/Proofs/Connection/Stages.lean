import TileViewer.Connection.Supervisor

/-!
What one move can do to the connection's keeper: from which stage to which it goes, what is done on
the way, and which requests wait then.
-/
namespace TileViewer

/-- The end of a transport, or of an attempt at one. -/
def Loss.effects (loss : Loss) : List Effect :=
  [.enter .closing, .tell (.disconnected loss), .enter .reconnecting]

/-- The messages as the viewer is told of them. -/
def Message.told (messages : List Message) : List Effect := messages.map fun m => .tell (.message m)

/-- The message of a line, if the line is one. -/
def Message.ofLine? (line : String) : Option Message :=
  if Text.trim line = "" then none else (Message.parse (Text.trim line)).toOption

namespace Supervisor

variable {s t u : Supervisor} {move : Move} {moves moves' : List Move}
  {effects more : List Effect}

/-- The ways from stage to stage. -/
inductive Passes (hello : List UInt8) : Stage → Stage → List Effect → Prop
  | stays (stage : Stage) : Passes hello stage stage []
  | opens : Passes hello .connecting (.greeting {}) [.enter .established, .tell .connected]
  | refused (reason : String) : Passes hello .connecting .waiting (Loss.unconnected reason).effects
  | fills (before after : Inbox) : Passes hello (.greeting before) (.greeting after) []
  | greets (inbox : Inbox) : Passes hello (.greeting inbox) (.reading inbox) [.write hello]
  | ungreeted (inbox : Inbox) (sent : Nat) (reason : String) :
    Passes hello (.greeting inbox) .waiting
      (.write (hello.take sent) :: (Loss.ungreeted reason).effects)
  | reads (before after : Inbox) (messages : List Message) :
    Passes hello (.reading before) (.reading after) (Message.told messages)
  | loses (inbox : Inbox) (loss : Loss) : Passes hello (.reading inbox) .waiting loss.effects
  | shuts (inbox : Inbox) : Passes hello (.reading inbox) .stopped [.enter .closing]
  | leaves : Passes hello .waiting .stopped []
  | retries : Passes hello .waiting .connecting [.enter .connecting]

/-- The requests in line after a move. One that is made goes to the end, and the first is taken. -/
def lineAfter (requests : List Request) : Move → List Request
  | .request r => requests ++ [r]
  | .obey => requests.tail
  | _ => requests

/-- All that a move does. -/
structure Goes (s : Supervisor) (move : Move) (t : Supervisor) (effects : List Effect) : Prop where
  hello : t.hello = s.hello
  requests : t.requests = lineAfter s.requests move
  passes : Passes s.hello s.stage t.stage effects

theorem map_notices (line : String) :
    (notices line).map .tell = Message.told (Message.ofLine? line).toList := by
  simp only [notices, Message.ofLine?]
  split
  · next hblank =>
    rw [if_pos hblank]
    rfl
  · next htext =>
    rw [if_neg htext]
    cases Message.parse (Text.trim line) with
    | error fault => rfl
    | ok m => rfl

theorem goes_readLine {inbox : Inbox} (hstage : s.stage = .reading inbox)
    (h : s.readLine inbox = some (t, effects)) : s.Goes .readLine t effects := by
  unfold readLine at h
  split at h
  · split at h
    · cases h
      exact ⟨rfl, rfl, hstage ▸ .loses inbox .closedByServer⟩
    · cases h
  · next line rest _ =>
    split at h
    · cases h
      exact ⟨rfl, rfl, hstage ▸ .loses inbox _⟩
    · next text _ =>
      rw [map_notices] at h
      cases h
      exact ⟨rfl, rfl, hstage ▸ .reads inbox rest _⟩

theorem rest_of_nextRequest? {r : Request} {rest : List Request}
    (h : s.nextRequest? = some (r, rest)) : rest = s.requests.tail := by
  unfold nextRequest? at h
  split at h
  · next hline =>
    cases h
    rw [hline, List.tail_cons]
  · next hline =>
    split at h
    · cases h
      rw [hline, List.tail_nil]
    · cases h

theorem goes_obey (h : s.obey = some (t, effects)) : s.Goes .obey t effects := by
  obtain ⟨⟨r, rest⟩, hnext, h⟩ := Option.bind_eq_some_iff.1 h
  have hrest := rest_of_nextRequest? hnext
  cases hstage : s.stage with
  | reading inbox =>
    cases r with
    | teardown =>
      simp only [hstage] at h
      cases h
      refine ⟨rfl, hrest, ?_⟩
      rw [hstage]
      exact .loses inbox .tornDown
    | shutdown =>
      simp only [hstage] at h
      cases h
      exact ⟨rfl, hrest, hstage ▸ .shuts inbox⟩
  | waiting =>
    cases r with
    | teardown =>
      simp only [hstage] at h
      cases h
      refine ⟨rfl, hrest, ?_⟩
      rw [hstage]
      exact .stays .waiting
    | shutdown =>
      simp only [hstage] at h
      cases h
      exact ⟨rfl, hrest, hstage ▸ .leaves⟩
  | _ => simp [hstage] at h

theorem goes_step (h : s.step move = some (t, effects)) : s.Goes move t effects := by
  cases move with
  | request r =>
    simp only [step] at h
    split at h
    · cases h
    · cases h
      exact ⟨rfl, rfl, .stays s.stage⟩
  | hangUp =>
    cases h
    exact ⟨rfl, rfl, .stays s.stage⟩
  | connect =>
    cases hstage : s.stage with
    | connecting =>
      simp only [step, hstage] at h
      cases h
      exact ⟨rfl, rfl, hstage ▸ .opens⟩
    | _ => simp [step, hstage] at h
  | failConnect reason =>
    cases hstage : s.stage with
    | connecting =>
      simp only [step, hstage] at h
      cases h
      exact ⟨rfl, rfl, hstage ▸ .refused reason⟩
    | _ => simp [step, hstage] at h
  | greet =>
    cases hstage : s.stage with
    | greeting inbox =>
      simp only [step, hstage] at h
      cases h
      exact ⟨rfl, rfl, hstage ▸ .greets inbox⟩
    | _ => simp [step, hstage] at h
  | failGreet sent reason =>
    cases hstage : s.stage with
    | greeting inbox =>
      simp only [step, hstage] at h
      cases h
      exact ⟨rfl, rfl, hstage ▸ .ungreeted inbox sent reason⟩
    | _ => simp [step, hstage] at h
  | arrive bytes =>
    cases hstage : s.stage with
    | greeting inbox =>
      simp only [step, hstage, Option.ite_none_left_eq_some, Option.some.injEq] at h
      obtain ⟨-, h⟩ := h
      cases h
      exact ⟨rfl, rfl, hstage ▸ .fills inbox _⟩
    | reading inbox =>
      simp only [step, hstage, Option.ite_none_left_eq_some, Option.some.injEq] at h
      obtain ⟨-, h⟩ := h
      cases h
      exact ⟨rfl, rfl, hstage ▸ .reads inbox _ []⟩
    | _ => simp [step, hstage] at h
  | close =>
    cases hstage : s.stage with
    | greeting inbox =>
      simp only [step, hstage] at h
      cases h
      exact ⟨rfl, rfl, hstage ▸ .fills inbox _⟩
    | reading inbox =>
      simp only [step, hstage] at h
      cases h
      exact ⟨rfl, rfl, hstage ▸ .reads inbox _ []⟩
    | _ => simp [step, hstage] at h
  | readLine =>
    cases hstage : s.stage with
    | reading inbox =>
      simp only [step, hstage] at h
      exact goes_readLine hstage h
    | _ => simp [step, hstage] at h
  | failRead reason =>
    cases hstage : s.stage with
    | reading inbox =>
      simp only [step, hstage] at h
      cases h
      exact ⟨rfl, rfl, hstage ▸ .loses inbox _⟩
    | _ => simp [step, hstage] at h
  | checkHealth isSilent =>
    cases hstage : s.stage with
    | reading inbox =>
      simp only [step, hstage] at h
      cases isSilent with
      | true =>
        cases h
        exact ⟨rfl, rfl, hstage ▸ .loses inbox _⟩
      | false =>
        cases h
        exact ⟨rfl, rfl, .stays s.stage⟩
    | _ => simp [step, hstage] at h
  | obey =>
    have hobey : s.obey = some (t, effects) := by
      cases hstage : s.stage with
      | reading inbox => simpa only [step, hstage] using h
      | waiting => simpa only [step, hstage] using h
      | _ => simp [step, hstage] at h
    exact goes_obey hobey
  | retry =>
    cases hstage : s.stage with
    | waiting =>
      simp only [step, hstage] at h
      cases h
      exact ⟨rfl, rfl, hstage ▸ .retries⟩
    | _ => simp [step, hstage] at h

theorem run_cons_eq_some (h : s.run (move :: moves) = some (u, effects)) :
    ∃ t first rest, s.step move = some (t, first) ∧ t.run moves = some (u, rest) ∧
      effects = first ++ rest := by
  obtain ⟨⟨t, first⟩, hstep, h⟩ := Option.bind_eq_some_iff.1 h
  obtain ⟨⟨w, rest⟩, hrun, h⟩ := Option.bind_eq_some_iff.1 h
  cases h
  exact ⟨t, first, rest, hstep, hrun, rfl⟩

theorem run_cons (h : s.step move = some (t, effects)) (h' : t.run moves = some (u, more)) :
    s.run (move :: moves) = some (u, effects ++ more) := by
  simp only [run, h, h', Option.bind_eq_bind, Option.bind_some]
  rfl

theorem run_append (h : s.run moves = some (t, effects)) (h' : t.run moves' = some (u, more)) :
    s.run (moves ++ moves') = some (u, effects ++ more) := by
  induction moves generalizing s effects with
  | nil =>
    cases h
    exact h'
  | cons move moves ih =>
    obtain ⟨w, first, rest, hstep, hrest, rfl⟩ := run_cons_eq_some h
    rw [List.append_assoc]
    exact run_cons hstep (ih hrest)

end Supervisor

end TileViewer
