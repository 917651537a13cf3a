import TileViewer.Text.Utf8

/-!
Bytes from the server, cut into lines. A line ends at a line feed; what follows the last one is a
line of its own once no more bytes can come.
-/
namespace TileViewer

/-- The bytes that have arrived and are not read yet, and whether no more can follow. -/
structure Inbox where
  unread : List UInt8 := []
  isClosed : Bool := false

namespace Inbox

def lineFeed : UInt8 := 0x0A

def push (b : Inbox) (bytes : List UInt8) : Inbox := { b with unread := b.unread ++ bytes }

def close (b : Inbox) : Inbox := { b with isClosed := true }

/-- Nothing is left to read and nothing can follow. -/
def isFinished (b : Inbox) : Bool := b.isClosed && b.unread.isEmpty

/-- The first line, with its line feed. -/
def popLine? (b : Inbox) : Option (List UInt8 × Inbox) :=
  let line := b.unread.takeWhile (· ≠ lineFeed)
  match b.unread.dropWhile (· ≠ lineFeed) with
  | feed :: rest => some (line ++ [feed], { b with unread := rest })
  | [] => if b.isClosed ∧ line ≠ [] then some (line, { b with unread := [] }) else none

/-- A line is taken off the front, and no byte is lost. -/
theorem unread_eq_of_popLine? {b rest : Inbox} {line : List UInt8}
    (h : b.popLine? = some (line, rest)) : b.unread = line ++ rest.unread := by
  have split := List.takeWhile_append_dropWhile (p := (· ≠ lineFeed)) (l := b.unread)
  unfold popLine? at h
  dsimp only at h
  cases hd : b.unread.dropWhile (· ≠ lineFeed) with
  | nil =>
    rw [hd] at h split
    simp only [Option.ite_none_right_eq_some, Option.some.injEq, Prod.mk.injEq] at h
    obtain ⟨-, rfl, rfl⟩ := h
    exact split.symm
  | cons feed tail =>
    rw [hd] at h split
    cases h
    simpa using split.symm

end Inbox

end TileViewer
