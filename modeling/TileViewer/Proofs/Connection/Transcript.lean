import Mathlib.Data.List.TakeWhile
import TileViewer.Proofs.Connection.Trace
import TileViewer.Proofs.Text.Lines

/-!
What the server sends in one session, and how a transport's inbox takes it apart again, however it
was cut into pieces on its way.
-/
namespace TileViewer

/-- A text without line feeds. -/
structure Line where
  text : String
  isLine : '\n' ∉ text.toList

inductive LineEnd
  | feed
  | returnAndFeed

/-- What stands before the line feed of an end. -/
def LineEnd.start : LineEnd → String
  | .feed => ""
  | .returnAndFeed => "\r"

def LineEnd.text (ending : LineEnd) : String := ending.start ++ "\n"

/-- Lines with their ends, and a last one that has none. -/
structure Transcript where
  lines : List (Line × LineEnd)
  last : Line

namespace Transcript

def bytes (sent : Transcript) : List UInt8 :=
  sent.lines.flatMap (fun (line, ending) => (line.text ++ ending.text).toUTF8.toList) ++
    sent.last.text.toUTF8.toList

/-- The messages of the lines that are one. -/
def messages (sent : Transcript) : List Message :=
  (sent.lines.map Prod.fst ++ [sent.last]).filterMap fun line => Message.ofLine? line.text

end Transcript

variable {line : List UInt8} {inbox inbox' : Inbox}

namespace Inbox

/-- A line is taken at its line feed, or else when no more bytes can come. -/
theorem popLine?_cases (h : inbox.popLine? = some (line, inbox')) :
    (∃ body, lineFeed ∉ body ∧ line = body ++ [lineFeed] ∧
      inbox = ⟨body ++ lineFeed :: inbox'.unread, inbox'.isClosed⟩) ∨
    (lineFeed ∉ inbox.unread ∧ inbox.isClosed = true ∧ inbox.unread ≠ [] ∧ line = inbox.unread ∧
      inbox' = ⟨[], true⟩) := by
  have hsplit := unread_eq_of_popLine? h
  simp only [popLine?] at h
  split at h
  · next feed after hafter =>
    have hfeed : feed = lineFeed := by
      have hstop := List.head?_dropWhile_not (· ≠ lineFeed) inbox.unread
      rw [hafter] at hstop
      simpa using hstop
    have hbody : lineFeed ∉ inbox.unread.takeWhile (· ≠ lineFeed) :=
      fun hmem => by simpa using List.mem_takeWhile_imp hmem
    cases h
    subst hfeed
    refine .inl ⟨_, hbody, rfl, ?_⟩
    rw [List.append_assoc, List.singleton_append] at hsplit
    rw [← hsplit]
  · next hnone =>
    have hall := List.dropWhile_eq_nil_iff.1 hnone
    rw [List.takeWhile_eq_self_iff.2 hall, Option.ite_none_right_eq_some] at h
    obtain ⟨⟨hclosed, hunread⟩, h⟩ := h
    cases h
    rw [hclosed]
    exact .inr ⟨fun hmem => by simpa using hall _ hmem, rfl, hunread, rfl, rfl⟩

/-- A line that is taken leaves fewer bytes. -/
theorem length_of_popLine? (h : inbox.popLine? = some (line, inbox')) :
    inbox'.isClosed = inbox.isClosed ∧ inbox'.unread.length < inbox.unread.length := by
  rcases popLine?_cases h with ⟨body, -, -, rfl⟩ | ⟨-, hclosed, hunread, -, rfl⟩
  · refine ⟨rfl, ?_⟩
    rw [List.length_append, List.length_cons]
    omega
  · exact ⟨hclosed.symm, List.length_pos_iff.2 hunread⟩

/-- Once no more bytes can come, all of them are taken. -/
theorem isFinished_of_popLine? (hclosed : inbox.isClosed) (h : inbox.popLine? = none) :
    inbox.isFinished := by
  have hunread : inbox.unread = [] := by
    simp only [popLine?] at h
    split at h
    · cases h
    · next hnone =>
      have hall := List.dropWhile_eq_nil_iff.1 hnone
      rw [List.takeWhile_eq_self_iff.2 hall] at h
      by_contra hunread
      rw [if_pos ⟨hclosed, hunread⟩] at h
      cases h
  rw [isFinished, hclosed, hunread]
  rfl

end Inbox

theorem Message.ofLine?_append (line : String) (ending : LineEnd) :
    ofLine? (line ++ ending.text) = ofLine? line := by
  have hblank : ending.text.toList.all Text.isBlank = true := by
    cases ending with
    | feed => decide
    | returnAndFeed => decide
  rw [ofLine?, Text.trim_append (List.all_eq_true.1 hblank), ofLine?]

theorem lineFeed_not_mem {text : String} (h : '\n' ∉ text.toList) :
    Inbox.lineFeed ∉ text.toUTF8.toList := by
  intro hmem
  rw [Text.toUTF8_toList] at hmem
  obtain ⟨c, hc, hbyte⟩ := List.mem_flatMap.1 hmem
  exact h (Text.eq_lineFeed_of_mem hbyte ▸ hc)

namespace Transcript

/-- A line is sent as bytes with one feed, at their end. -/
theorem bytes_cons (line : Line) (ending : LineEnd) (lines : List (Line × LineEnd)) (last : Line) :
    ∃ body : List UInt8, Inbox.lineFeed ∉ body ∧
      (line.text ++ ending.text).toUTF8.toList = body ++ [Inbox.lineFeed] ∧
      bytes ⟨(line, ending) :: lines, last⟩ = body ++ Inbox.lineFeed :: bytes ⟨lines, last⟩ := by
  have hstart : '\n' ∉ (line.text ++ ending.start).toList := by
    intro hmem
    rw [String.toList_append] at hmem
    rcases List.mem_append.1 hmem with hmem | hmem
    · exact line.isLine hmem
    · cases ending with
      | feed => revert hmem; decide
      | returnAndFeed => revert hmem; decide
  have hbytes : (line.text ++ ending.text).toUTF8.toList =
      (line.text ++ ending.start).toUTF8.toList ++ [Inbox.lineFeed] := by
    have hfeed : "\n".toList.flatMap String.utf8EncodeChar = [Inbox.lineFeed] := by decide
    simp only [Text.toUTF8_toList, LineEnd.text, String.toList_append, List.flatMap_append,
      hfeed, List.append_assoc]
  refine ⟨_, lineFeed_not_mem hstart, hbytes, ?_⟩
  simp only [bytes, List.flatMap_cons, hbytes, List.append_assoc, List.cons_append,
    List.nil_append]

theorem messages_cons (line : Line) (ending : LineEnd) (lines : List (Line × LineEnd))
    (last : Line) : messages ⟨(line, ending) :: lines, last⟩ =
      (Message.ofLine? line.text).toList ++ messages ⟨lines, last⟩ := by
  simp only [messages, List.map_cons, List.cons_append, List.filterMap_cons]
  cases Message.ofLine? line.text with
  | none => rfl
  | some m => rfl

theorem messages_last (last : Line) :
    messages ⟨[], last⟩ = (Message.ofLine? last.text).toList := by
  simp only [messages, List.map_nil, List.nil_append, List.filterMap_cons]
  cases Message.ofLine? last.text with
  | none => rfl
  | some m => rfl

end Transcript

end TileViewer
