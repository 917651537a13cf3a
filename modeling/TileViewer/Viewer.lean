import TileViewer.Frame.Queue
import TileViewer.Pacing
import TileViewer.Painter
import TileViewer.Patcher
import TileViewer.Settings
import TileViewer.SideData
import TileViewer.Wire.Message

/-!
A viewer takes in messages at any time and does at most one piece of work at each tick: it applies
and paints a frame, or moves the camera one step.
-/
namespace TileViewer

/-- Running counts. Words of 64 bits hold them (`Viewer.stats_fit`). -/
structure ViewerStats where
  framesDrawn : Nat := 0
  framesSkipped : Nat := 0
  cameraSteps : Nat := 0
  overflows : Nat := 0
  cellsWritten : Nat := 0
  deriving DecidableEq, Repr

structure Viewer where
  view : View
  sprite : UInt32
  surfaceWidth : UInt32
  surfaceHeight : UInt32
  seed : UInt32
  queue : FrameQueue := {}
  patcher : Patcher
  tiles : TileStore := {}
  dirty : DirtyGrid
  camera : Camera := {}
  numbers : DamageNumbers
  painter : Painter
  framePacer : Pacer := {}
  stepPacer : Pacer := {}
  tracked : Option TileRect
  lastWindow : Option Window := none
  lastSeq : Option UInt64 := none
  side : SideData := {}
  stats : ViewerStats := {}

/-- What became of a message. After an overflow the connection has to be given up. -/
inductive Intake
  | accepted
  | overflow
  deriving DecidableEq, Repr

/-- What a tick did. -/
inductive Outcome
  | idle
  | drawn (seq : UInt64) (cells : Nat)
  | skipped (seq : UInt64)
  | stepped (remaining : Nat)
  deriving DecidableEq, Repr

namespace Viewer

def ofSettings (s : ViewerSettings) (sprites : SpriteSheet) : Except Overflow Viewer := do
  let sprite := max s.sprite 1
  let dirty ← DirtyGrid.ofSprite sprite
  let numbers ← DamageNumbers.ofSeed sprite s.seed
  return {
    view := s.view, sprite, surfaceWidth := s.surfaceWidth, surfaceHeight := s.surfaceHeight
    seed := s.seed, patcher := Patcher.ofSprite sprite, dirty, numbers
    painter := Painter.ofView s.view s.surfaceWidth s.surfaceHeight sprite sprites
    tracked := s.tracked }

def surface (v : Viewer) : Surface := v.painter.surface

/-- Takes in a message. -/
def ingest (v : Viewer) : Message → Intake × Viewer
  | .frame f =>
    let queue := v.queue.push f
    match queue.backlog? with
    | none => (.accepted, { v with queue })
    | some _ =>
      (.overflow, { v with queue, stats := { v.stats with overflows := v.stats.overflows + 1 } })
  | .side u =>
    (.accepted, { v with side := v.side.apply u, numbers := v.numbers.queue (u.hits.getD []) })
  | .unknown _ => (.accepted, v)

/-- Shows the next camera step, if it is due. -/
def cameraStep (v : Viewer) (now : UInt64) (backlog : Nat) : Except Overflow (Outcome × Viewer) :=
  if v.stepPacer.isDue now (Pacing.stepInterval backlog) then
    match v.camera.next with
    | (none, _) => .ok (.idle, v)
    | (some step, camera) => do
      let (_, painter) ← v.painter.present step
      let stats := { v.stats with cameraSteps := v.stats.cameraSteps + 1 }
      return (.stepped camera.steps.length,
        { v with camera, painter, stepPacer := v.stepPacer.mark now, stats })
  else .ok (.idle, v)

/-- Brings a frame into the world, without painting it. The marks made since the last painting are
given back with the viewer, which itself has none. -/
def applyFrame (v : Viewer) (frame : Frame) (window : Window) (now : UInt64) :
    Except Overflow (DirtyGrid × Viewer) := do
  let (summary, patcher, tiles, marks) ← v.patcher.apply frame window v.tiles v.dirty
  let (_, numbers) := v.numbers.release frame.seq
  return (marks, { v with
    patcher, tiles, numbers
    dirty := v.dirty.cleared
    side := { v.side with ticks := frame.ticks.or v.side.ticks }
    lastWindow := some window
    lastSeq := some frame.seq
    framePacer := v.framePacer.mark now
    stats := { v.stats with cellsWritten := v.stats.cellsWritten + summary.cellsWritten } })

/-- Paints a frame that has been applied, and sends the camera to it. -/
def paintFrame (v : Viewer) (frame : Frame) (window : Window) (marks : DirtyGrid) :
    Except Overflow (Outcome × Viewer) := do
  let (drawn, numbers) ← v.numbers.advance
  let overlay : Overlay :=
    { creatures := frame.creatures, numbers := drawn, seq := frame.seq, tracked := v.tracked }
  let scope := if frame.full then Scope.all else Scope.dirty marks
  let (painted, painter) ← v.painter.draw window v.tiles scope overlay
  let (camera, stepPacer) ← match v.view with
    | .world => pure (v.camera, v.stepPacer)
    | .follow => do
      let target ← Camera.targetOf frame v.surfaceWidth v.surfaceHeight v.sprite
      let (_, camera) ← v.camera.retarget target
      pure (camera, {})
  let stats := { v.stats with framesDrawn := v.stats.framesDrawn + 1 }
  return (.drawn frame.seq painted.cells, { v with numbers, painter, camera, stepPacer, stats })

/-- Takes the next frame, if there is one, and applies it. It is painted too, unless too many
frames wait behind it; then its marks are kept for the next one that is painted. -/
def nextFrame (v : Viewer) (now : UInt64) (backlog : Nat) :
    Except Overflow (Outcome × Viewer) := do
  match ← v.queue.pop with
  | (none, queue) => return (.idle, { v with queue })
  | (some frame, queue) =>
    let window ← Window.ofFrame v.view frame v.surfaceWidth v.surfaceHeight v.sprite
    let (marks, v) ← applyFrame { v with queue } frame window now
    if Pacing.skips backlog frame.full then
      let stats := { v.stats with framesSkipped := v.stats.framesSkipped + 1 }
      return (.skipped frame.seq, { v with dirty := v.dirty.absorb marks, stats })
    else paintFrame v frame window marks

/-- Does at most one piece of work. In the follow view the camera comes first, and only when it has
arrived the next frame; in the world view frames keep their distance in time. -/
def tick (v : Viewer) (now : UInt64) : Except Overflow (Outcome × Viewer) :=
  let backlog := v.queue.size
  match v.view with
  | .follow =>
    if v.camera.steps.isEmpty then v.nextFrame now backlog else v.cameraStep now backlog
  | .world =>
    if v.framePacer.isDue now (Pacing.frameInterval backlog) then v.nextFrame now backlog
    else .ok (.idle, v)

/-- Forgets everything about the session, when the connection is lost. The side data and the counts
stay. -/
def reset (v : Viewer) : Viewer :=
  { v with
    queue := {}
    patcher := v.patcher.reset
    tiles := {}
    dirty := v.dirty.cleared
    camera := {}
    numbers := v.numbers.restart v.seed
    painter := v.painter.reset
    framePacer := {}
    stepPacer := {}
    lastWindow := none
    lastSeq := none }

end Viewer

end TileViewer
