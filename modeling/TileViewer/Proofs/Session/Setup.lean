import TileViewer.Proofs.Damage.Numbers
import TileViewer.Proofs.Marks.Grid
import TileViewer.Proofs.Picture.Board
import TileViewer.Proofs.Picture.Overlay
import TileViewer.Proofs.Session.Run

/-! What a viewer has from its settings and keeps along every run. -/
namespace TileViewer

variable {s : ViewerSettings} {sheet : SpriteSheet}

/-- The side of a sprite, which is never zero. -/
def ViewerSettings.side (s : ViewerSettings) : UInt32 := max s.sprite 1

theorem ViewerSettings.side_pos (s : ViewerSettings) : 0 < s.side.toNat := max_one_pos s.sprite

/-- A painter as it was built, apart from what it has painted. -/
structure Painter.Configured (s : ViewerSettings) (sheet : SpriteSheet) (p : Painter) : Prop where
  view : p.view = s.view
  sprite : p.sprite = s.side
  width : p.surface.width = s.surfaceWidth
  height : p.surface.height = s.surfaceHeight
  built : p.sprites.BuiltFor s.side
  images : p.sprites.forgetScaled = sheet.forgetScaled

namespace Viewer

variable {v v' : Viewer} {j : Job} {now : UInt64} {out : Outcome}

structure Configured (s : ViewerSettings) (sheet : SpriteSheet) (v : Viewer) : Prop where
  view : v.view = s.view
  sprite : v.sprite = s.side
  surfaceWidth : v.surfaceWidth = s.surfaceWidth
  surfaceHeight : v.surfaceHeight = s.surfaceHeight
  patcher : v.patcher.sprite = s.side
  dirty : v.dirty.ForSprite s.side
  painter : v.painter.Configured s sheet

theorem max_side (s : ViewerSettings) : max s.side 1 = s.side := max_one s.side_pos

theorem ofSettings_eq_ok (h : ofSettings s sheet = .ok v) : ∃ dirty numbers,
    DirtyGrid.ofSprite s.side = .ok dirty ∧ DamageNumbers.ofSeed s.side s.seed = .ok numbers ∧
    v = {
      view := s.view, sprite := s.side, surfaceWidth := s.surfaceWidth
      surfaceHeight := s.surfaceHeight, seed := s.seed, patcher := Patcher.ofSprite s.side
      dirty, numbers, tracked := s.tracked
      painter := Painter.ofView s.view s.surfaceWidth s.surfaceHeight s.side sheet } := by
  obtain ⟨dirty, hdirty, h⟩ := bind_eq_ok h
  obtain ⟨numbers, hnumbers, h⟩ := bind_eq_ok h
  cases h
  exact ⟨dirty, numbers, hdirty, hnumbers, rfl⟩

/-- Sprites of any usual size can be shown. -/
theorem exists_ofSettings (s : ViewerSettings) (h : 7 * s.side.toNat < 2 ^ 32)
    (sheet : SpriteSheet) :
    ∃ v, ofSettings s sheet = .ok v := by
  obtain ⟨dirty, hdirty⟩ := DirtyGrid.exists_ofSprite s.side_pos (by omega)
  obtain ⟨numbers, hnumbers⟩ := DamageNumbers.exists_ofSeed h s.seed
  rw [ViewerSettings.side] at hdirty hnumbers
  rw [ofSettings, hdirty, hnumbers]
  exact ⟨_, rfl⟩

theorem painter_configured_ofView (hsheet : sheet.BuiltFor s.side) :
    (Painter.ofView s.view s.surfaceWidth s.surfaceHeight s.sprite sheet).Configured s sheet :=
  ⟨rfl, rfl, rfl, rfl, hsheet, rfl⟩

theorem configured_ofSettings (hsheet : sheet.BuiltFor s.side) (h : ofSettings s sheet = .ok v) :
    v.Configured s sheet := by
  obtain ⟨dirty, numbers, hd, -, rfl⟩ := ofSettings_eq_ok h
  exact ⟨rfl, rfl, rfl, rfl, max_side s, DirtyGrid.ofSprite_forSprite s.side_pos hd,
    rfl, max_side s, rfl, rfl, hsheet, rfl⟩

/-- No hits wait and no numbers are shown. -/
structure Quiet (s : ViewerSettings) (v : Viewer) : Prop where
  waiting : v.numbers.waiting = []
  live : v.numbers.live = []
  tracked : v.tracked = s.tracked

theorem quiet_ofSettings (h : ofSettings s sheet = .ok v) : v.Quiet s := by
  obtain ⟨dirty, numbers, -, hn, rfl⟩ := ofSettings_eq_ok h
  obtain ⟨speed, -, hn⟩ := bind_eq_ok hn
  cases hn
  exact ⟨rfl, rfl, rfl⟩

theorem Quiet.ingest_frame (h : v.Quiet s) (frame : Frame) :
    (v.ingest (.frame frame)).2.Quiet s := by
  obtain ⟨-, hnumbers, -, htracked⟩ := v.ingest_frame frame
  exact ⟨hnumbers ▸ h.waiting, hnumbers ▸ h.live, htracked.trans h.tracked⟩

/-! Without hits and numbers none come of their own. -/

theorem Quiet.release {seq : UInt64} (h : v.Quiet s)
    (hnumbers : v'.numbers = (v.numbers.release seq).2) (htracked : v'.tracked = v.tracked) :
    v'.Quiet s := by
  refine ⟨?_, ?_, htracked.trans h.tracked⟩ <;>
    simp [hnumbers, DamageNumbers.release, DamageNumbers.split, h.waiting, h.live]

theorem Quiet.advance {drawn : List DamageNumber} {numbers : DamageNumbers} (h : v.Quiet s)
    (hadvance : v.numbers.advance = .ok (drawn, numbers)) (hnumbers : v'.numbers = numbers)
    (htracked : v'.tracked = v.tracked) : v'.Quiet s := by
  simp only [DamageNumbers.advance, h.live, List.mapM_nil, List.filter_nil, bind, Except.bind,
    pure, Except.pure, Except.ok.injEq, Prod.mk.injEq] at hadvance
  obtain ⟨-, rfl⟩ := hadvance
  exact ⟨hnumbers ▸ h.waiting, hnumbers ▸ rfl, htracked.trans h.tracked⟩

/-- The overlay is only what the frame brings. -/
theorem Quiet.overlayOf (h : v.Quiet s) (frame : Frame) :
    v.overlayOf frame = .ok ⟨frame.creatures, [], frame.seq, s.tracked⟩ := by
  simp [Viewer.overlayOf, DamageNumbers.release, DamageNumbers.split, DamageNumbers.advance,
    h.waiting, h.live, h.tracked, bind, Except.bind, pure, Except.pure]

theorem Quiet.nextFrame {backlog : Nat} (hq : v.Quiet s)
    (h : v.nextFrame now backlog = .ok (out, v')) : v'.Quiet s := by
  rcases nextFrame_eq_ok h with ⟨queue, -, -, rfl⟩ | ⟨j, w, -, -, -, -, -, hnumbers, htracked, -, -,
    ⟨-, rfl⟩ | hpaint⟩
  · exact { hq with }
  · exact { hq.release hnumbers htracked with }
  · obtain ⟨drawn, numbers, painted, painter, camera, stepPacer, hadvance, -, -, rfl⟩ :=
      paintFrame_eq_ok hpaint
    exact (hq.release hnumbers htracked).advance hadvance rfl rfl

theorem Quiet.tick (hq : v.Quiet s) (h : v.tick now = .ok (out, v')) : v'.Quiet s := by
  rcases tick_cases h with hnext | hcamera | ⟨-, rfl⟩
  · exact hq.nextFrame hnext
  · rcases cameraStep_eq_ok hcamera with ⟨-, rfl⟩ | ⟨p, camera, shown, painter, -, -, -, rfl⟩
    · exact hq
    · exact { hq with }
  · exact hq

/-- After the first frame of all nothing else has happened yet. -/
theorem run_first (h : ofSettings s sheet = .ok v) (frame : Frame) (hf : Passable frame) :
    ∃ w, v.run [.message (.frame frame)] = .ok w ∧ w.queue.size = 1 ∧
      w.queue.pop = .ok (some frame, { cursor := some (frame.seq + 1) }) ∧ w.framePacer = {} ∧
      w.camera = {} ∧ w.Quiet s := by
  have hquiet := quiet_ofSettings h
  obtain ⟨dirty, numbers, -, -, hv⟩ := ofSettings_eq_ok h
  have hqueue : (v.ingest (.frame frame)).2.queue = ({} : FrameQueue).push frame := by
    rw [(v.ingest_frame frame).1, hv]
  refine ⟨(v.ingest (.frame frame)).2, rfl, ?_, ?_, ?_, ?_, hquiet.ingest_frame frame⟩
  · rw [hqueue]
    rfl
  · rw [hqueue, FrameQueue.pop_push_new hf]
  · rw [(v.ingest_frame frame).2.2.1, hv]
  · rw [hv]
    rfl

/-- After the first two frames of all the lower one is next, and then the other. -/
theorem run_two (h : ofSettings s sheet = .ok v) (f g : Frame) (hlt : f.seq < g.seq)
    (hg : Passable g) :
    ∃ w queue queue', v.run [.message (.frame f), .message (.frame g)] = .ok w ∧
      w.queue.size = 2 ∧ w.queue.pop = .ok (some f, queue) ∧
      queue.pop = .ok (some g, queue') ∧ queue.size = 1 ∧ w.framePacer = {} ∧ w.Quiet s := by
  have hf : Passable f := UInt64.lt_trans hlt hg
  obtain ⟨hqueue₁, -, hpacer₁, -⟩ := v.ingest_frame f
  obtain ⟨hqueue₂, -, hpacer₂, -⟩ := (v.ingest (.frame f)).2.ingest_frame g
  have hquiet := ((quiet_ofSettings h).ingest_frame f).ingest_frame g
  obtain ⟨dirty, numbers, -, -, hv⟩ := ofSettings_eq_ok h
  have hpending : ((v.ingest (.frame f)).2.ingest (.frame g)).2.queue.pending = [f, g] := by
    have hnlt : ¬ g.seq < f.seq := UInt64.not_lt.2 (UInt64.le_of_lt hlt)
    have hne : g.seq ≠ f.seq := (UInt64.ne_of_lt hlt).symm
    rw [hqueue₂, hqueue₁, hv]
    simp [FrameQueue.push, insertFrame, hnlt, hne]
  have hcursor : ((v.ingest (.frame f)).2.ingest (.frame g)).2.queue.cursor = some f.seq := by
    rw [hqueue₂, hqueue₁, hv]
    rfl
  have hready : ((v.ingest (.frame f)).2.ingest (.frame g)).2.queue.ready = [f, g] := by
    rw [FrameQueue.ready_of_cursor hcursor, hpending]
    simp [UInt64.le_of_lt hlt]
  obtain ⟨queue, hpop, hrest, hready', -⟩ := FrameQueue.pop_of_ready_cons hready hf
  obtain ⟨queue', hpop', -⟩ := FrameQueue.pop_of_ready_cons hready' hg
  refine ⟨_, queue, queue', rfl, congrArg List.length hpending, hpop, hpop',
    congrArg List.length hrest, ?_, hquiet⟩
  rw [hpacer₂, hpacer₁, hv]

theorem Configured.job_window (h : v.Configured s sheet) (hj : v.job = .ok (some j)) :
    Window.ofFrame s.view j.frame s.surfaceWidth s.surfaceHeight s.side = .ok j.window := by
  obtain ⟨queue, summary, patcher, -, hwindow, -⟩ := job_eq_ok hj
  rwa [h.view, h.surfaceWidth, h.surfaceHeight, h.sprite] at hwindow

theorem Configured.rests (h : v.Configured s sheet) (hr : v.Rests v') : v'.Configured s sheet where
  view := hr.view.trans h.view
  sprite := hr.sprite.trans h.sprite
  surfaceWidth := hr.surfaceWidth.trans h.surfaceWidth
  surfaceHeight := hr.surfaceHeight.trans h.surfaceHeight
  patcher := hr.patcher ▸ h.patcher
  dirty := hr.dirty ▸ h.dirty
  painter := ⟨hr.painterView.trans h.painter.view, hr.painterSprite.trans h.painter.sprite,
    hr.width.trans h.painter.width, hr.height.trans h.painter.height,
    hr.sprites ▸ h.painter.built, hr.sprites ▸ h.painter.images⟩

theorem Configured.took (h : v.Configured s sheet) (ht : v.Took j v')
    (hdirty : v'.dirty.ForSprite s.side) (hpainter : v'.painter.Configured s sheet) :
    v'.Configured s sheet where
  view := ht.view.trans h.view
  sprite := ht.sprite.trans h.sprite
  surfaceWidth := ht.surfaceWidth.trans h.surfaceWidth
  surfaceHeight := ht.surfaceHeight.trans h.surfaceHeight
  patcher := ht.patcher ▸ h.patcher
  dirty := hdirty
  painter := hpainter

theorem Configured.reset (h : v.Configured s sheet) : v.reset.Configured s sheet :=
  { h with
    dirty := h.dirty.sameSize ⟨rfl, rfl⟩
    painter := { h.painter with built := h.painter.built.forgetScaled } }

end Viewer

end TileViewer
