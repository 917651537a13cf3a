import TileViewer.Viewer
import TileViewer.Proofs.Exact
import TileViewer.Proofs.Frame.Ready
import TileViewer.Proofs.Picture.Pixels
import TileViewer.Proofs.Tile.Writes

/-!
Runs of a viewer: messages, ticks and resets in any order. A tick paints a frame, applies one
without painting it, or leaves everything that a later picture depends on as it was.
-/
namespace TileViewer

/-- A frame that has been applied: its window, the stored tiles, and the squares out of date. -/
structure Job where
  frame : Frame
  window : Window
  tiles : TileStore
  marks : DirtyGrid

namespace Job

/-- The cells to repaint. -/
def scope (j : Job) : Scope := if j.frame.full then .all else .dirty j.marks

end Job

namespace Viewer

/-- The frame that comes next, applied. -/
def job (v : Viewer) : Except Overflow (Option Job) := do
  match ← v.queue.pop with
  | (none, _) => return none
  | (some frame, _) =>
    let window ← Window.ofFrame v.view frame v.surfaceWidth v.surfaceHeight v.sprite
    let (_, _, tiles, marks) ← v.patcher.apply frame window v.tiles v.dirty
    return some { frame, window, tiles, marks }

/-- What lies on top of the picture of a frame. -/
def overlayOf (v : Viewer) (frame : Frame) : Except Overflow Overlay := do
  let (numbers, _) ← (v.numbers.release frame.seq).2.advance
  return { creatures := frame.creatures, numbers, seq := frame.seq, tracked := v.tracked }

/-- What happens to a viewer. -/
inductive Event
  | message (m : Message)
  | tick (now : UInt64)
  | reset

def step (v : Viewer) : Event → Except Overflow Viewer
  | .message m => .ok (v.ingest m).2
  | .tick now => (v.tick now).map Prod.snd
  | .reset => .ok v.reset

def run (v : Viewer) (events : List Event) : Except Overflow Viewer := events.foldlM step v

variable {v v' : Viewer} {now : UInt64} {out : Outcome} {j : Job} {backlog : Nat}

/-- Nothing that a later picture depends on has changed, apart from the waiting frames. -/
structure Rests (v v' : Viewer) : Prop where
  view : v'.view = v.view
  sprite : v'.sprite = v.sprite
  surfaceWidth : v'.surfaceWidth = v.surfaceWidth
  surfaceHeight : v'.surfaceHeight = v.surfaceHeight
  patcher : v'.patcher = v.patcher
  tiles : v'.tiles = v.tiles
  dirty : v'.dirty = v.dirty
  painterView : v'.painter.view = v.painter.view
  painterSprite : v'.painter.sprite = v.painter.sprite
  canvas : v'.painter.canvas = v.painter.canvas
  sprites : v'.painter.sprites = v.painter.sprites
  width : v'.painter.surface.width = v.painter.surface.width
  height : v'.painter.surface.height = v.painter.surface.height

/-- A job has been taken and applied. -/
structure Took (v : Viewer) (j : Job) (v' : Viewer) : Prop where
  view : v'.view = v.view
  sprite : v'.sprite = v.sprite
  surfaceWidth : v'.surfaceWidth = v.surfaceWidth
  surfaceHeight : v'.surfaceHeight = v.surfaceHeight
  patcher : v'.patcher = { v.patcher with lastOrigin := some (j.frame.viewX, j.frame.viewY) }
  tiles : v'.tiles = j.tiles
  lastWindow : v'.lastWindow = some j.window

/-- How a tick can go. -/
inductive Ticked (v : Viewer) : Outcome → Viewer → Prop
  | rested {o : Outcome} {w : Viewer} (h : v.Rests w) (hout : ∀ seq cells, o ≠ .drawn seq cells)
    (hpending : ∀ f ∈ w.queue.pending, f ∈ v.queue.pending) : Ticked v o w
  | skipped {j : Job} {w : Viewer} (hj : v.job = .ok (some j)) (h : v.Took j w)
    (hdirty : w.dirty = v.dirty.cleared.absorb j.marks) (hpainter : w.painter = v.painter)
    (hpending : ∀ f ∈ w.queue.pending, f ∈ v.queue.pending) :
    Ticked v (.skipped j.frame.seq) w
  | drawn {j : Job} {w : Viewer} {overlay : Overlay} {stats : PaintStats}
    (hj : v.job = .ok (some j)) (h : v.Took j w)
    (hdirty : w.dirty = v.dirty.cleared) (hoverlay : v.overlayOf j.frame = .ok overlay)
    (hpaint : v.painter.draw j.window j.tiles j.scope overlay = .ok (stats, w.painter))
    (hpending : ∀ f ∈ w.queue.pending, f ∈ v.queue.pending) :
    Ticked v (.drawn j.frame.seq stats.cells) w

theorem step_tick_eq_ok (h : v.step (.tick now) = .ok v') : ∃ out, v.tick now = .ok (out, v') := by
  cases htick : v.tick now with
  | error e => simp [step, htick, Except.map] at h
  | ok ticked =>
    obtain ⟨out, w⟩ := ticked
    simp only [step, htick, Except.map, Except.ok.injEq] at h
    exact ⟨out, by rw [h]⟩

theorem run_cons_eq_ok {e : Event} {events : List Event} (h : v.run (e :: events) = .ok v') :
    ∃ w, v.step e = .ok w ∧ w.run events = .ok v' := by
  rw [run, List.foldlM_cons] at h
  exact bind_eq_ok h

theorem run_cons_of_step {e : Event} (h : v.step e = .ok v') (events : List Event) :
    v.run (e :: events) = v'.run events := by
  rw [run, List.foldlM_cons, h]
  rfl

theorem step_tick_of_tick (h : v.tick now = .ok (out, v')) : v.step (.tick now) = .ok v' := by
  rw [step, h]
  rfl

theorem job_eq_ok (hj : v.job = .ok (some j)) : ∃ queue summary patcher,
    v.queue.pop = .ok (some j.frame, queue) ∧
    Window.ofFrame v.view j.frame v.surfaceWidth v.surfaceHeight v.sprite = .ok j.window ∧
    v.patcher.apply j.frame j.window v.tiles v.dirty =
      .ok (summary, patcher, j.tiles, j.marks) := by
  obtain ⟨⟨next, queue⟩, hpop, hj⟩ := bind_eq_ok hj
  cases next with
  | none => cases hj
  | some frame =>
    obtain ⟨window, hwindow, hj⟩ := bind_eq_ok hj
    obtain ⟨⟨summary, patcher, tiles, marks⟩, happly, hj⟩ := bind_eq_ok hj
    cases hj
    exact ⟨queue, summary, patcher, hpop, hwindow, happly⟩

/-- The stored tiles of a job are those from before it and its frame's. -/
theorem job_tiles (hj : v.job = .ok (some j)) :
    j.tiles = v.tiles.insertAll (Patcher.writes j.frame) := by
  obtain ⟨queue, summary, patcher, -, -, happly⟩ := job_eq_ok hj
  exact (Patcher.apply_eq_ok happly).2.2.2

theorem frame_eq_of_pop {frame : Frame} {queue : FrameQueue}
    (hpop : v.queue.pop = .ok (some frame, queue)) (hj : v.job = .ok (some j)) :
    j.frame = frame := by
  obtain ⟨queue', summary, patcher, hpop', -⟩ := job_eq_ok hj
  cases hpop.symm.trans hpop'
  rfl

theorem job_of_apply {frame : Frame} {queue : FrameQueue} {window : Window}
    {summary : PatchSummary} {patcher : Patcher} {tiles : TileStore} {marks : DirtyGrid}
    (hpop : v.queue.pop = .ok (some frame, queue))
    (hwindow : Window.ofFrame v.view frame v.surfaceWidth v.surfaceHeight v.sprite = .ok window)
    (happly : v.patcher.apply frame window v.tiles v.dirty = .ok (summary, patcher, tiles, marks)) :
    v.job = .ok (some { frame, window, tiles, marks }) := by
  simp only [job, hpop, hwindow, happly, bind, Except.bind, pure, Except.pure]

theorem Rests.refl (v : Viewer) : v.Rests v := by
  constructor <;> rfl

theorem rests_ingest (v : Viewer) (m : Message) : v.Rests (v.ingest m).2 := by
  cases m with
  | frame f =>
    simp only [ingest]
    split <;> constructor <;> rfl
  | side u => constructor <;> rfl
  | unknown type => exact .refl v

theorem ingest_frame (v : Viewer) (f : Frame) : (v.ingest (.frame f)).2.queue = v.queue.push f ∧
    (v.ingest (.frame f)).2.numbers = v.numbers ∧
    (v.ingest (.frame f)).2.framePacer = v.framePacer ∧
    (v.ingest (.frame f)).2.tracked = v.tracked := by
  simp only [ingest]
  split <;> exact ⟨rfl, rfl, rfl, rfl⟩

theorem mem_pending_ingest {m : Message} {f : Frame} (h : f ∈ (v.ingest m).2.queue.pending) :
    f ∈ v.queue.pending ∨ m = .frame f := by
  cases m with
  | frame g =>
    rw [(v.ingest_frame g).1] at h
    rcases mem_insertFrame h with rfl | h
    · exact .inr rfl
    · exact .inl h
  | side u => exact .inl h
  | unknown type => exact .inl h

/-- What painting a frame comes to. In either view the rest only moves the camera. -/
theorem paintFrame_eq_ok {frame : Frame} {window : Window} {marks : DirtyGrid}
    (h : v.paintFrame frame window marks = .ok (out, v')) :
    ∃ drawn numbers painted painter camera stepPacer,
      v.numbers.advance = .ok (drawn, numbers) ∧
      v.painter.draw window v.tiles (if frame.full then .all else .dirty marks)
        ⟨frame.creatures, drawn, frame.seq, v.tracked⟩ = .ok (painted, painter) ∧
      out = .drawn frame.seq painted.cells ∧
      v' = { v with
        numbers, painter, camera, stepPacer
        stats := { v.stats with framesDrawn := v.stats.framesDrawn + 1 } } := by
  obtain ⟨⟨drawn, numbers⟩, hadvance, h⟩ := bind_eq_ok h
  obtain ⟨⟨painted, painter⟩, hpaint, h⟩ := bind_eq_ok h
  refine ⟨drawn, numbers, painted, painter, ?_⟩
  cases hview : v.view with
  | world =>
    simp only [hview] at h
    cases h
    exact ⟨_, _, hadvance, hpaint, rfl, rfl⟩
  | follow =>
    simp only [hview] at h
    obtain ⟨target, -, h⟩ := bind_eq_ok h
    obtain ⟨⟨n, camera⟩, -, h⟩ := bind_eq_ok h
    cases h
    exact ⟨_, _, hadvance, hpaint, rfl, rfl⟩

theorem applyFrame_eq_ok {frame : Frame} {window : Window} {marks : DirtyGrid} {w : Viewer}
    (h : v.applyFrame frame window now = .ok (marks, w)) :
    ∃ summary patcher tiles,
      v.patcher.apply frame window v.tiles v.dirty = .ok (summary, patcher, tiles, marks) ∧
      v.Took ⟨frame, window, tiles, marks⟩ w ∧ w.queue = v.queue ∧ w.dirty = v.dirty.cleared ∧
      w.painter = v.painter ∧ w.numbers = (v.numbers.release frame.seq).2 ∧
      w.tracked = v.tracked ∧ w.framePacer = { last := some now } ∧
      w.stats = { v.stats with
        cellsWritten := v.stats.cellsWritten +
          (Patcher.writes frame).countP (rowFits ·.1.2) } := by
  obtain ⟨⟨summary, patcher, tiles, marks⟩, happly, h⟩ := bind_eq_ok h
  cases h
  obtain ⟨-, hsummary, hpatcher, -⟩ := Patcher.apply_eq_ok happly
  refine ⟨summary, patcher, tiles, happly, ⟨rfl, rfl, rfl, rfl, hpatcher, rfl, rfl⟩, rfl, rfl, rfl,
    rfl, rfl, rfl, ?_⟩
  rw [hsummary]

/-- What comes of the next frame. If there is one, `w` is the viewer that has just applied it. -/
theorem nextFrame_eq_ok (h : v.nextFrame now backlog = .ok (out, v')) :
    (∃ queue, v.queue.pop = .ok (none, queue) ∧ out = .idle ∧ v' = { v with queue }) ∨
    ∃ j w, v.job = .ok (some j) ∧ v.queue.pop = .ok (some j.frame, w.queue) ∧ v.Took j w ∧
      w.dirty = v.dirty.cleared ∧ w.painter = v.painter ∧
      w.numbers = (v.numbers.release j.frame.seq).2 ∧ w.tracked = v.tracked ∧
      w.framePacer = { last := some now } ∧
      w.stats = { v.stats with
        cellsWritten := v.stats.cellsWritten +
          (Patcher.writes j.frame).countP (rowFits ·.1.2) } ∧
      ((out = .skipped j.frame.seq ∧
          v' = { w with
            dirty := w.dirty.absorb j.marks
            stats := { w.stats with framesSkipped := w.stats.framesSkipped + 1 } }) ∨
        w.paintFrame j.frame j.window j.marks = .ok (out, v')) := by
  obtain ⟨⟨next, queue⟩, hpop, h⟩ := bind_eq_ok h
  cases next with
  | none =>
    cases h
    exact .inl ⟨queue, hpop, rfl, rfl⟩
  | some frame =>
    obtain ⟨window, hwindow, h⟩ := bind_eq_ok h
    obtain ⟨⟨marks, w⟩, happlied, h⟩ := bind_eq_ok h
    obtain ⟨summary, patcher, tiles, happly, htook, hqueue, hrest⟩ := applyFrame_eq_ok happlied
    obtain ⟨hdirty, hpainter, hnumbers, htracked, hpacer, hstats⟩ := hrest
    refine .inr ⟨⟨frame, window, tiles, marks⟩, w, job_of_apply hpop hwindow happly,
      hqueue ▸ hpop, { htook with }, hdirty, hpainter, hnumbers, htracked, hpacer, hstats, ?_⟩
    dsimp only at h
    split at h
    · cases h
      exact .inl ⟨rfl, rfl⟩
    · exact .inr h

theorem ticked_nextFrame (h : v.nextFrame now backlog = .ok (out, v')) : v.Ticked out v' := by
  rcases nextFrame_eq_ok h with ⟨queue, hpop, rfl, rfl⟩ | ⟨j, w, hj, hpop, htook, hdirty, hpainter,
    hnumbers, htracked, -, -, ⟨rfl, rfl⟩ | hpaint⟩
  · exact .rested (by constructor <;> rfl) (fun _ _ => nofun) (FrameQueue.pending_of_pop hpop)
  · exact .skipped hj { htook with } (by rw [hdirty]) hpainter (FrameQueue.pending_of_pop hpop)
  · obtain ⟨drawn, numbers, painted, painter, camera, stepPacer, hadvance, hdraw, rfl, rfl⟩ :=
      paintFrame_eq_ok hpaint
    rw [hpainter, htracked, htook.tiles] at hdraw
    refine .drawn hj { htook with } hdirty ?_ hdraw (FrameQueue.pending_of_pop hpop)
    rw [hnumbers] at hadvance
    simp only [overlayOf, hadvance, bind, Except.bind, pure, Except.pure]

theorem overlayOf_eq_ok {frame : Frame} {overlay : Overlay}
    (h : v.overlayOf frame = .ok overlay) : ∃ drawn numbers,
      (v.numbers.release frame.seq).2.advance = .ok (drawn, numbers) ∧
      overlay = ⟨frame.creatures, drawn, frame.seq, v.tracked⟩ := by
  obtain ⟨⟨drawn, numbers⟩, hadvance, h⟩ := bind_eq_ok h
  cases h
  exact ⟨drawn, numbers, hadvance, rfl⟩

/-- In the world view a frame is painted if its numbers and its picture give no overflow. -/
theorem nextFrame_draws {overlay : Overlay} {stats : PaintStats} {painter : Painter}
    (hview : v.view = .world) (hj : v.job = .ok (some j))
    (hskip : Pacing.skips backlog j.frame.full = false)
    (hoverlay : v.overlayOf j.frame = .ok overlay)
    (hpaint : v.painter.draw j.window j.tiles j.scope overlay = .ok (stats, painter))
    (now : UInt64) :
    ∃ v', v.nextFrame now backlog = .ok (.drawn j.frame.seq stats.cells, v') := by
  obtain ⟨queue, summary, patcher, hpop, hwindow, happly⟩ := job_eq_ok hj
  obtain ⟨drawn, numbers, hadvance, rfl⟩ := overlayOf_eq_ok hoverlay
  unfold Job.scope at hpaint
  rw [hview] at hwindow
  simp [nextFrame, hpop, hwindow, applyFrame, happly, hskip, paintFrame, hadvance, hpaint,
    hview, bind, Except.bind, pure, Except.pure]

/-- What a painted frame leaves to the next one. -/
theorem nextFrame_leaves {seq : UInt64} {cells : Nat}
    (h : v.nextFrame now backlog = .ok (.drawn seq cells, v')) :
    ∃ frame, v.queue.pop = .ok (some frame, v'.queue) ∧ v'.framePacer = { last := some now } := by
  rcases nextFrame_eq_ok h with ⟨queue, -, hout, -⟩ | ⟨j, w, -, hpop, -, -, -, -, -, hpacer,
    -, ⟨hout, -⟩ | hpaint⟩
  · cases hout
  · cases hout
  · obtain ⟨drawn, numbers, painted, painter, camera, stepPacer, -, -, -, rfl⟩ :=
      paintFrame_eq_ok hpaint
    exact ⟨j.frame, hpop, hpacer⟩

theorem rests_present {painter : Painter} {step : Point} {shown : Bool}
    (h : v.painter.present step = .ok (shown, painter)) : v.Rests { v with painter } := by
  unfold Painter.present at h
  split at h
  · obtain ⟨surface, hblit, h⟩ := bind_eq_ok h
    cases h
    obtain ⟨hw, hh⟩ := Surface.size_blitWindow hblit
    exact ⟨rfl, rfl, rfl, rfl, rfl, rfl, rfl, rfl, rfl, rfl, rfl, hw, hh⟩
  · cases h
    exact .refl v

/-- What comes of the camera's turn: it waits, or the next step is shown. -/
theorem cameraStep_eq_ok (h : v.cameraStep now backlog = .ok (out, v')) :
    (out = .idle ∧ v' = v) ∨ ∃ p camera shown painter,
      v.camera.next = (some p, camera) ∧ v.painter.present p = .ok (shown, painter) ∧
      out = .stepped camera.steps.length ∧
      v' = { v with
        camera, painter, stepPacer := { last := some now }
        stats := { v.stats with cameraSteps := v.stats.cameraSteps + 1 } } := by
  unfold cameraStep at h
  split at h
  · split at h
    · cases h
      exact .inl ⟨rfl, rfl⟩
    · next p camera hnext =>
      obtain ⟨⟨shown, painter⟩, hpresent, h⟩ := bind_eq_ok h
      cases h
      exact .inr ⟨p, camera, shown, painter, hnext, hpresent, rfl, rfl⟩
  · cases h
    exact .inl ⟨rfl, rfl⟩

/-- A tick takes the next frame, gives the camera its turn, or waits. -/
theorem tick_cases (h : v.tick now = .ok (out, v')) :
    v.nextFrame now v.queue.size = .ok (out, v') ∨
      v.cameraStep now v.queue.size = .ok (out, v') ∨ (out = .idle ∧ v' = v) := by
  unfold tick at h
  dsimp only at h
  split at h
  · split at h
    · exact .inl h
    · exact .inr (.inl h)
  · split at h
    · exact .inl h
    · cases h
      exact .inr (.inr ⟨rfl, rfl⟩)

theorem ticked_idle (v : Viewer) : v.Ticked .idle v :=
  .rested (.refl v) (fun _ _ => nofun) fun _ hf => hf

theorem ticked_cameraStep (h : v.cameraStep now backlog = .ok (out, v')) : v.Ticked out v' := by
  rcases cameraStep_eq_ok h with ⟨rfl, rfl⟩ | ⟨p, camera, shown, painter, -, hpresent, rfl, rfl⟩
  · exact ticked_idle v'
  · exact .rested { rests_present hpresent with } (fun _ _ => nofun) fun _ hf => hf

theorem ticked_tick (h : v.tick now = .ok (out, v')) : v.Ticked out v' := by
  rcases tick_cases h with hnext | hcamera | ⟨rfl, rfl⟩
  · exact ticked_nextFrame hnext
  · exact ticked_cameraStep hcamera
  · exact ticked_idle v'

/-- A frame that a tick has skipped has been applied, and its marks are kept. -/
theorem took_of_skipped {seq : UInt64} (h : v.tick now = .ok (.skipped seq, v')) :
    ∃ j, v.job = .ok (some j) ∧ v.Took j v' ∧ v'.dirty = v.dirty.cleared.absorb j.marks := by
  rcases tick_cases h with hnext | hcamera | ⟨hout, -⟩
  · rcases nextFrame_eq_ok hnext with ⟨queue, -, hout, -⟩ | ⟨j, w, hj, -, htook, hdirty, -, -, -, -,
      -, ⟨-, rfl⟩ | hpaint⟩
    · cases hout
    · exact ⟨j, hj, { htook with }, by rw [hdirty]⟩
    · obtain ⟨drawn, numbers, painted, painter, camera, stepPacer, -, -, hout, -⟩ :=
        paintFrame_eq_ok hpaint
      cases hout
  · rcases cameraStep_eq_ok hcamera with ⟨hout, -⟩ | ⟨p, camera, shown, painter, -, -, hout, -⟩
    · cases hout
    · cases hout
  · cases hout

theorem took_of_drawn {seq : UInt64} {cells : Nat} (h : v.tick now = .ok (.drawn seq cells, v')) :
    ∃ j, v.job = .ok (some j) ∧ v.Took j v' ∧ v'.dirty = v.dirty.cleared := by
  cases ticked_tick h with
  | rested _ hout => exact absurd rfl (hout seq cells)
  | drawn hj htook hdirty => exact ⟨_, hj, htook, hdirty⟩

end Viewer

end TileViewer
