import TileViewer.Proofs.Connection.Hearing

/-!
What a session passes on. However the lines of the server are cut into pieces on their way, and
whatever happens between the pieces, each message is passed on once and in order, and a line that is
no message is as if it had not been sent.
-/
namespace TileViewer

/-- How far a session has come. What has not been read and what is to arrive spell the rest of what
the server sends. -/
structure Awaits (sent : Transcript) (heard : List Message) (later : List UInt8)
    (rest : Transcript) (inbox : Inbox) : Prop where
  bytes : inbox.unread ++ later = rest.bytes
  messages : heard ++ rest.messages = sent.messages
  closed : inbox.isClosed → later = []

/-- What holds of a session with a transcript, at its stages. All of it can be heard. -/
def Stands (sent : Transcript) : List Message → List UInt8 → Stage → Prop :=
  Listens ⟨sent.messages, .closedByServer⟩

variable {sent rest : Transcript} {heard : List Message} {later left : List UInt8}
  {inbox : Inbox} {s t : Supervisor} {moves : List Move} {effects : List Effect} {stage : Stage}

/-- The lines of a transcript are text, all of them. -/
theorem Transcript.ofBytes_bytes (sent : Transcript) :
    Hearing.ofBytes sent.bytes = ⟨sent.messages, .closedByServer⟩ := by
  obtain ⟨lines, last⟩ := sent
  induction lines with
  | nil =>
    have hbytes : bytes ⟨[], last⟩ = last.text.toUTF8.toList := rfl
    rw [messages_last]
    by_cases hlast : last.text = ""
    · rw [hbytes, hlast, Text.toUTF8_empty]
      rfl
    · have hnot : last.text.toUTF8.toList ≠ [] := mt Text.eq_empty_of_toUTF8 hlast
      have hlines : Inbox.lines last.text.toUTF8.toList =
          last.text.toUTF8.toList :: Inbox.lines [] :=
        Inbox.lines_of_no_feed (lineFeed_not_mem last.isLine) hnot
      rw [hbytes, Hearing.ofBytes_of_text hlines (Text.ofBytes_toUTF8 last.text),
        Hearing.ofBytes_nil, Hearing.after, List.append_nil]
  | cons first lines ih =>
    obtain ⟨line, ending⟩ := first
    obtain ⟨body, hbody, hline, hcons⟩ := bytes_cons line ending lines last
    have hlines : Inbox.lines (bytes ⟨(line, ending) :: lines, last⟩) =
        (line.text ++ ending.text).toUTF8.toList :: Inbox.lines (bytes ⟨lines, last⟩) := by
      rw [hcons, Inbox.lines_of_feed hbody, hline]
    rw [Hearing.ofBytes_of_text hlines (Text.ofBytes_toUTF8 _), ih, Message.ofLine?_append,
      messages_cons]
    rfl

theorem Stands.opened (hstage : stage.inbox? = some inbox)
    (h : Awaits sent heard later rest inbox) : Stands sent heard later stage := by
  refine Listens.opened hstage ⟨?_, h.closed⟩
  rw [h.bytes, rest.ofBytes_bytes, Hearing.after, h.messages]

namespace Supervisor

/-- A session passes on the messages of the lines that the server sends, whatever their bytes are
cut into and whatever happens in between, until the next attempt begins. Each is passed on once and
in order, and all of them are if the server ends the session. No line ends it: it is lost by one of
the other moves, and while it is not, all that is left of the lines can still come. -/
theorem session_delivers (hstage : s.stage = .connecting)
    (hrun : s.run (.connect :: moves) = some (t, effects)) (hsends : Sends sent.bytes moves left)
    (hone : .connecting ∉ phases effects) :
    delivered effects <+: sent.messages ∧
    (.closedByServer ∈ losses effects → delivered effects = sent.messages) ∧
    (∀ loss ∈ losses effects, loss = .closedByServer ∨ ∃ move ∈ moves, move.Loses loss) ∧
    ∀ inbox, t.stage = .reading inbox → ∃ later u more, t.run later = some (u, more) ∧
      Sends sent.bytes (moves ++ later) [] ∧ .closedByServer ∈ losses more ∧
      delivered (effects ++ more) = sent.messages := by
  obtain ⟨u, first, more, hstep, hrest, rfl⟩ := run_cons_eq_some hrun
  have hopen : u.stage = .greeting {} ∧ first = [.enter .established, .tell .connected] := by
    simp only [step, hstage] at hstep
    cases hstep
    exact ⟨rfl, rfl⟩
  obtain ⟨hgreeting, rfl⟩ := hopen
  have hnothing : Awaits sent [] sent.bytes sent {} := ⟨rfl, rfl, Bool.noConfusion⟩
  have hstart : Stands sent [] sent.bytes u.stage := by
    rw [hgreeting]
    exact .opened rfl hnothing
  rw [phases_append, List.mem_append, not_or] at hone
  obtain ⟨hstands, hlosses⟩ := advances_run hstart hrest hsends hone.2
  refine ⟨hstands.isPrefix, fun hclosed => ?_, fun loss hloss => ?_, fun inbox hreading => ?_⟩
  · rcases hlosses _ hclosed with ⟨-, hall⟩ | ⟨move, -, hmove⟩
    · exact hall
    · cases move <;> cases hmove
  · exact (hlosses loss hloss).imp_left And.left
  · obtain ⟨later, u, rest, hlater, hsends', hclosed, hall⟩ := exists_rest hstands hreading
    refine ⟨later, u, rest, hlater, hsends.trans hsends', hclosed, ?_⟩
    rw [delivered_append]
    exact hall

/-- Two messages with a blank line and a bad one between them, cut within the first line. -/
theorem session_delivers_two :
    ∃ (sent : Transcript) (moves : List Move) (t : Supervisor) (effects : List Effect),
      (ofSettings {} "").run (.connect :: moves) = some (t, effects) ∧
      Sends sent.bytes moves [] ∧ .connecting ∉ phases effects ∧
      .closedByServer ∈ losses effects ∧ sent.lines.length = 3 ∧ sent.messages.length = 2 ∧
      delivered effects = sent.messages := by
  let sent : Transcript :=
    ⟨[(⟨"\x7b\"type\":\"a\"\x7d", by decide⟩, .returnAndFeed), (⟨" ", by decide⟩, .feed),
      (⟨"\x7b", by decide⟩, .feed)], ⟨"\x7b\"type\":\"b\"\x7d", by decide⟩⟩
  let moves : List Move := [.arrive (sent.bytes.take 7), .greet, .checkHealth false,
    .arrive (sent.bytes.drop 7), .readLine, .checkHealth false, .readLine, .readLine, .close,
    .readLine, .readLine]
  have hsends : Sends sent.bytes moves [] := by
    have hpieces : Sends (sent.bytes.take 7 ++ (sent.bytes.drop 7 ++ [])) moves [] :=
      .arrive _ (.other rfl (.other rfl (.arrive _ (.other rfl (.other rfl (.other rfl
        (.other rfl (.close (.readLines 2 [])))))))))
    rwa [List.append_nil, List.take_append_drop] at hpieces
  have hends : (((ofSettings {} "").run (.connect :: moves)).any fun result =>
      decide (.connecting ∉ phases result.2 ∧ .closedByServer ∈ losses result.2)) = true := by
    decide +kernel
  rw [Option.any_eq_true] at hends
  obtain ⟨⟨t, effects⟩, hrun, hends⟩ := hends
  obtain ⟨hone, hclosed⟩ := of_decide_eq_true hends
  have hall := (session_delivers rfl hrun hsends hone).2.1 hclosed
  exact ⟨sent, moves, t, effects, hrun, hsends, hone, hclosed, rfl, by decide +kernel, hall⟩

end Supervisor

end TileViewer
