/-! When the next piece of work is due. The more frames wait, the shorter the pauses. -/
namespace TileViewer

namespace Pacing

/-- With more frames than this waiting, frames are applied but not painted. -/
def backlogLimit : Nat := 10

/-- The least time between two frames of the world view, in milliseconds. -/
def frameInterval (backlog : Nat) : Nat := 30 + 7 * (backlogLimit - backlog)

/-- The least time between two camera steps, in milliseconds. -/
def stepInterval (backlog : Nat) : Nat := 20 - 4 * backlog

/-- Whether a frame is applied without painting it. -/
def skips (backlog : Nat) (full : Bool) : Bool := backlogLimit < backlog && !full

end Pacing

/-- The time of the last piece of work, if there was one. -/
structure Pacer where
  last : Option UInt64 := none
  deriving DecidableEq, Repr

namespace Pacer

/-- Whether `interval` has passed since the last piece of work. A clock that went back counts as
no time at all. -/
def isDue (p : Pacer) (now : UInt64) (interval : Nat) : Bool :=
  match p.last with
  | none => true
  | some t => interval ≤ now.toNat - t.toNat

def mark (_ : Pacer) (now : UInt64) : Pacer := { last := some now }

end Pacer

end TileViewer
