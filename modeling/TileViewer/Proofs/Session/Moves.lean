import TileViewer.Proofs.Camera.Way
import TileViewer.Proofs.Session.Run

/-!
What a tick of the follow view does: it waits, shows the next step of the camera, or takes the next
frame once no step is left.
-/
namespace TileViewer

namespace Camera

variable {c c' : Camera} {target : Point} {n : Nat}

theorem between_self (a b : Int32) (hn : 0 < n) : between a b n n = b := by
  have hend : a.toInt + (b.toInt - a.toInt) = b.toInt := by omega
  rw [between, Int.mul_ediv_cancel _ (by omega), hend, Int32.ofInt_toInt]

theorem getLast?_path (a b : Point) (hn : 0 < n) : (path a b n).getLast? = some b := by
  obtain ⟨k, rfl⟩ := Nat.exists_eq_succ_of_ne_zero (Nat.ne_of_gt hn)
  rw [path, List.range_succ, List.map_append, List.map_singleton, List.getLast?_concat,
    between_self _ _ hn, between_self _ _ hn]

/-- A glide ends at its target, and so does the camera. -/
theorem retarget_eq_ok (h : c.retarget target = .ok (n, c')) :
    c'.target = some target ∧ c'.steps.length = n ∧ c'.steps.getLast? = some target := by
  unfold retarget at h
  split at h
  · cases h
    exact ⟨rfl, rfl, rfl⟩
  · split at h
    · cases h
      exact ⟨rfl, rfl, rfl⟩
    · obtain ⟨dy, -, h⟩ := bind_eq_ok h
      cases h
      have hpos : 0 < stepCount dy := Nat.lt_of_lt_of_le (by decide) (stepCount_bounds dy).1
      refine ⟨rfl, ?_, getLast?_path _ _ hpos⟩
      rw [path, List.length_map, List.length_range]

end Camera

namespace Viewer

variable {v w : Viewer} {now : UInt64} {out : Outcome}

/-- How a tick of the follow view can go. -/
inductive Moves (v : Viewer) (now : UInt64) : Outcome → Viewer → Prop
  | early (hsteps : v.camera.steps ≠ [])
    (hdue : v.stepPacer.isDue now (Pacing.stepInterval v.queue.size) = false) : Moves v now .idle v
  | empty {queue : FrameQueue} (hsteps : v.camera.steps = [])
    (hpop : v.queue.pop = .ok (none, queue)) : Moves v now .idle { v with queue }
  | skipped {frame : Frame} {w : Viewer} (hsteps : v.camera.steps = [])
    (hpop : v.queue.pop = .ok (some frame, w.queue))
    (hskip : Pacing.skips v.queue.size frame.full = true) (hcamera : w.camera = v.camera)
    (hcanvas : w.painter.canvas = v.painter.canvas) : Moves v now (.skipped frame.seq) w
  | stepped {p : Point} {rest : List Point} {shown : Bool} {w : Viewer}
    (hsteps : v.camera.steps = p :: rest) (hcamera : w.camera = ⟨v.camera.target, rest⟩)
    (hpresent : v.painter.present p = .ok (shown, w.painter)) (hqueue : w.queue = v.queue) :
    Moves v now (.stepped rest.length) w
  | drawn {j : Job} {overlay : Overlay} {painted : PaintStats} {target : Point} {n : Nat}
    {w : Viewer} (hsteps : v.camera.steps = []) (hj : v.job = .ok (some j))
    (hpop : v.queue.pop = .ok (some j.frame, w.queue))
    (hpaint : v.painter.draw j.window j.tiles j.scope overlay = .ok (painted, w.painter))
    (htarget : Camera.targetOf j.frame v.surfaceWidth v.surfaceHeight v.sprite = .ok target)
    (hretarget : v.camera.retarget target = .ok (n, w.camera)) (hpacer : w.stepPacer = {})
    (hskip : Pacing.skips v.queue.size j.frame.full = false) :
    Moves v now (.drawn j.frame.seq painted.cells) w

theorem paintFrame_camera {frame : Frame} {window : Window} {marks : DirtyGrid}
    (hview : v.view = .follow) (h : v.paintFrame frame window marks = .ok (out, w)) :
    ∃ target n, Camera.targetOf frame v.surfaceWidth v.surfaceHeight v.sprite = .ok target ∧
      v.camera.retarget target = .ok (n, w.camera) ∧ w.stepPacer = {} := by
  obtain ⟨⟨drawn, numbers⟩, -, h⟩ := bind_eq_ok h
  obtain ⟨⟨painted, painter⟩, -, h⟩ := bind_eq_ok h
  simp only [hview] at h
  obtain ⟨target, htarget, h⟩ := bind_eq_ok h
  obtain ⟨⟨n, camera⟩, hretarget, h⟩ := bind_eq_ok h
  cases h
  exact ⟨target, n, htarget, hretarget, rfl⟩

theorem moves_nextFrame (hview : v.view = .follow) (hsteps : v.camera.steps = [])
    (h : v.nextFrame now v.queue.size = .ok (out, w)) : v.Moves now out w := by
  obtain ⟨⟨next, queue⟩, hpop, h⟩ := bind_eq_ok h
  cases next with
  | none =>
    cases h
    exact .empty hsteps hpop
  | some frame =>
    obtain ⟨window, hwindow, h⟩ := bind_eq_ok h
    obtain ⟨⟨marks, u⟩, happlied, h⟩ := bind_eq_ok h
    obtain ⟨⟨summary, patcher, tiles, marks⟩, happly, happlied⟩ := bind_eq_ok happlied
    cases happlied
    dsimp only at h
    split at h
    · next hskip =>
      cases h
      exact .skipped hsteps hpop hskip rfl rfl
    · next hskip =>
      have hcamera := h
      obtain ⟨target, n, htarget, hretarget, hpacer⟩ := paintFrame_camera (by exact hview) hcamera
      obtain ⟨drawn, numbers, painted, painter, camera, stepPacer, -, hpaint, rfl, rfl⟩ :=
        paintFrame_eq_ok h
      have hj := job_of_apply hpop hwindow happly
      exact .drawn hsteps hj hpop hpaint htarget hretarget hpacer (Bool.eq_false_iff.2 hskip)

theorem moves_cameraStep (hsteps : v.camera.steps ≠ [])
    (h : v.cameraStep now v.queue.size = .ok (out, w)) : v.Moves now out w := by
  unfold cameraStep at h
  split at h
  · obtain ⟨p, rest, hcons⟩ := List.exists_cons_of_ne_nil hsteps
    simp only [Camera.next, hcons] at h
    obtain ⟨⟨shown, painter⟩, hpresent, h⟩ := bind_eq_ok h
    cases h
    exact .stepped hcons rfl hpresent rfl
  · next hdue =>
    cases h
    exact .early hsteps (Bool.eq_false_iff.2 hdue)

theorem moves_tick (hview : v.view = .follow) (h : v.tick now = .ok (out, w)) :
    v.Moves now out w := by
  simp only [tick, hview] at h
  split at h
  · next hempty => exact moves_nextFrame hview (List.isEmpty_iff.1 hempty) h
  · next hpending => exact moves_cameraStep (fun hnil => hpending (List.isEmpty_iff.2 hnil)) h

/-- While steps are left no frame leaves the queue. -/
theorem Moves.waits (h : v.Moves now out w) (hsteps : v.camera.steps ≠ []) :
    w.queue = v.queue ∧ (out = .idle ∨ ∃ left, out = .stepped left) := by
  cases h with
  | early => exact ⟨rfl, .inl rfl⟩
  | empty hnone => exact absurd hnone hsteps
  | skipped hnone => exact absurd hnone hsteps
  | stepped _ _ _ hqueue => exact ⟨hqueue, .inr ⟨_, rfl⟩⟩
  | drawn hnone => exact absurd hnone hsteps

theorem Moves.exists_step {left : Nat} (h : v.Moves now (.stepped left) w) :
    ∃ p rest, v.camera.steps = p :: rest := by
  cases h with
  | stepped hsteps => exact ⟨_, _, hsteps⟩

/-- A step that is due is shown. -/
theorem tick_shows {p : Point} {rest : List Point} (hview : v.view = .follow)
    (hsteps : v.camera.steps = p :: rest)
    (hdue : v.stepPacer.isDue now (Pacing.stepInterval v.queue.size) = true)
    (htick : v.tick now = .ok (out, w)) :
    out = .stepped rest.length ∧ w.camera = ⟨v.camera.target, rest⟩ ∧ w.queue = v.queue := by
  cases moves_tick hview htick with
  | early _ hnot => cases hnot.symm.trans hdue
  | empty hnone => cases hnone.symm.trans hsteps
  | skipped hnone => cases hnone.symm.trans hsteps
  | drawn hnone => cases hnone.symm.trans hsteps
  | stepped hsteps' hcamera _ hqueue =>
    cases hsteps'.symm.trans hsteps
    exact ⟨rfl, hcamera, hqueue⟩

/-- When no step is left, a frame is painted unless too many wait behind it. -/
theorem tick_paints {frame : Frame} {queue : FrameQueue} (hview : v.view = .follow)
    (hsteps : v.camera.steps = []) (hpop : v.queue.pop = .ok (some frame, queue))
    (hskip : Pacing.skips v.queue.size frame.full = false) (htick : v.tick now = .ok (out, w)) :
    ∃ cells target n, out = .drawn frame.seq cells ∧
      v.camera.retarget target = .ok (n, w.camera) ∧ w.queue = queue ∧ w.stepPacer = {} := by
  cases moves_tick hview htick with
  | early hpending => exact absurd hsteps hpending
  | empty _ hpop' => cases hpop'.symm.trans hpop
  | skipped _ hpop' hskip' =>
    cases hpop'.symm.trans hpop
    cases hskip.symm.trans hskip'
  | stepped hpending => cases hpending.symm.trans hsteps
  | drawn _ _ hpop' _ _ hretarget hpacer _ =>
    obtain ⟨hframe, hqueue⟩ := Prod.mk.inj (Except.ok.inj (hpop'.symm.trans hpop))
    cases hframe
    exact ⟨_, _, _, rfl, hretarget, hqueue, hpacer⟩

/-- And if too many wait it is skipped. -/
theorem tick_skips {frame : Frame} {queue : FrameQueue} (hview : v.view = .follow)
    (hsteps : v.camera.steps = []) (hpop : v.queue.pop = .ok (some frame, queue))
    (hskip : Pacing.skips v.queue.size frame.full = true) (htick : v.tick now = .ok (out, w)) :
    out = .skipped frame.seq ∧ w.camera = v.camera ∧ w.queue = queue := by
  cases moves_tick hview htick with
  | early hpending => exact absurd hsteps hpending
  | empty _ hpop' => cases hpop'.symm.trans hpop
  | skipped _ hpop' _ hcamera =>
    cases hpop'.symm.trans hpop
    exact ⟨rfl, hcamera, rfl⟩
  | stepped hpending => cases hpending.symm.trans hsteps
  | drawn _ _ hpop' _ _ _ _ hskip' =>
    obtain ⟨hframe, -⟩ := Prod.mk.inj (Except.ok.inj (hpop'.symm.trans hpop))
    rw [Option.some.inj hframe, hskip] at hskip'
    cases hskip'

end Viewer

end TileViewer
