import TileViewer.Word
import TileViewer.Frame

/-!
Frames waiting for their turn. They arrive in any order and leave in ascending order of their
sequence numbers. A gap is not waited for: the lowest number at or above the cursor leaves next,
and whatever lies below it is thrown away at that moment.
-/
namespace TileViewer

/-- Too many frames are waiting. -/
structure Backlog where
  pending : Nat
  limit : Nat
  deriving DecidableEq, Repr

def Backlog.message (b : Backlog) : String :=
  s!"frame backlog overflow: {b.pending} frames pending (limit {b.limit})"

/-- Adds a frame at its place. A number that is already there keeps its first frame. -/
def insertFrame (f : Frame) : List Frame → List Frame
  | [] => [f]
  | g :: gs =>
    if f.seq < g.seq then f :: g :: gs
    else if f.seq = g.seq then g :: gs
    else g :: insertFrame f gs

theorem mem_insertFrame {f g : Frame} {gs : List Frame} (h : g ∈ insertFrame f gs) :
    g = f ∨ g ∈ gs := by
  induction gs with
  | nil => simpa [insertFrame] using h
  | cons k gs ih =>
    unfold insertFrame at h
    split at h
    · simpa using h
    · split at h
      · exact .inr h
      · rcases List.mem_cons.1 h with rfl | h
        · simp
        · rcases ih h with h | h <;> simp [h]

/-- Ascending by sequence number, so that no number occurs twice. -/
abbrev Ascending (fs : List Frame) : Prop := fs.Pairwise (·.seq < ·.seq)

theorem ascending_insertFrame {f : Frame} {gs : List Frame} (h : Ascending gs) :
    Ascending (insertFrame f gs) := by
  induction gs with
  | nil => simp [insertFrame]
  | cons g gs ih =>
    rw [Ascending, List.pairwise_cons] at h
    unfold insertFrame
    split
    · next hlt =>
      refine .cons (fun k hk => ?_) (.cons h.1 h.2)
      rcases List.mem_cons.1 hk with rfl | hk
      · exact hlt
      · exact UInt64.lt_trans hlt (h.1 k hk)
    · split
      · exact .cons h.1 h.2
      · next hle hne =>
        refine .cons (fun k hk => ?_) (ih h.2)
        rcases mem_insertFrame hk with rfl | hk
        · exact UInt64.lt_of_le_of_ne (UInt64.not_lt.1 hle) (Ne.symm hne)
        · exact h.1 k hk

/-- The waiting frames, the number awaited next, and how many may wait. -/
structure FrameQueue where
  pending : List Frame := []
  cursor : Option UInt64 := none
  limit : Nat := 100
  ascending : Ascending pending := by exact .nil

namespace FrameQueue

def size (q : FrameQueue) : Nat := q.pending.length

/-- Takes in a frame. The first one of all sets the cursor. -/
def push (q : FrameQueue) (f : Frame) : FrameQueue :=
  { q with
    pending := insertFrame f q.pending
    cursor := q.cursor.or (some f.seq)
    ascending := ascending_insertFrame q.ascending }

/-- Set while more frames wait than the limit allows. -/
def backlog? (q : FrameQueue) : Option Backlog :=
  if q.limit < q.size then some { pending := q.size, limit := q.limit } else none

/-- Throws away the frames below `least`. -/
def dropBelow (q : FrameQueue) (least : UInt64) : FrameQueue :=
  { q with
    pending := q.pending.dropWhile (·.seq < least)
    ascending := q.ascending.sublist (List.dropWhile_sublist _) }

/-- Takes the lowest frame. -/
def popFirst (q : FrameQueue) : Option (Frame × FrameQueue) :=
  match q.pending, q.ascending with
  | [], _ => none
  | f :: rest, h => some (f, { q with pending := rest, ascending := h.tail })

/-- Throws away the frames below `least` and takes the lowest of the others. -/
def takeFrom (q : FrameQueue) (least : UInt64) : Option Frame × FrameQueue :=
  let kept := q.dropBelow least
  match kept.popFirst with
  | none => (none, kept)
  | some (f, rest) => (some f, rest)

/-- Takes the next frame at or above the cursor and moves the cursor past it. -/
def pop (q : FrameQueue) : Except Overflow (Option Frame × FrameQueue) :=
  match q.cursor with
  | none => .ok (none, q)
  | some least =>
    match q.takeFrom least with
    | (none, rest) => .ok (none, rest)
    | (some f, rest) => do
      let next ← Word.plus f.seq 1
      return (some f, { rest with cursor := some next })

/-- Whether `pop` has a frame to give. -/
def isReady (q : FrameQueue) : Bool :=
  match q.cursor with
  | none => false
  | some least => q.pending.any (least ≤ ·.seq)

end FrameQueue

end TileViewer
