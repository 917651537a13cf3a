import TileViewer.Proofs.Session.Arrival

/-!
Frames that are applied without being painted, to catch up. What they changed is painted later if
another frame is ready behind them. A queue that is long only because of late frames has none: they
are thrown away with the next frame that leaves, and what that one changed stays out of sight.
-/
namespace TileViewer

namespace FrameQueue

variable {q q' : FrameQueue} {f : Frame} {next : Option Frame}

/-- No frame below the cursor waits. -/
def Flows (q : FrameQueue) : Prop := q.ready = q.pending

theorem Flows.pop (h : q.Flows) (hpop : q.pop = .ok (next, q')) : q'.Flows := by
  rcases pop_eq_ok hpop with ⟨-, hr, hc, hpending, -⟩ | ⟨f, -, -, -, hready⟩
  · cases hcur : q.cursor with
    | none =>
      rw [FrameQueue.pop, hcur] at hpop
      cases hpop
      exact h
    | some least =>
      have hnil := hpending (by simp [hcur])
      rw [Flows, ready_of_cursor (hc.trans hcur), hnil, List.filter_nil]
  · exact hready

/-- A frame that is not late keeps it so. -/
theorem Flows.push (h : q.Flows) (hf : ∀ least, q.cursor = some least → least ≤ f.seq) :
    (q.push f).Flows := by
  cases hc : q.cursor with
  | none =>
    have hnil : q.pending = [] := by
      rw [← h, ready, hc]
    have hcur : (q.push f).cursor = some f.seq := by
      simp [FrameQueue.push, hc]
    rw [Flows, ready_of_cursor hcur]
    simp [FrameQueue.push, hnil, insertFrame]
  | some least =>
    rw [Flows, ready_of_cursor (cursor_push hc f), List.filter_eq_self]
    intro g hg
    refine decide_eq_true ?_
    rcases mem_pending_push.1 hg with hg | ⟨rfl, -⟩
    · rw [← h] at hg
      exact ((mem_ready_iff hc).1 hg).2
    · exact hf least hc

end FrameQueue

namespace Viewer

variable {s : ViewerSettings} {sheet : SpriteSheet} {v v' v₀ : Viewer} {now last seq : UInt64}
  {out : Outcome} {backlog : Nat}

/-- Each frame of the run comes before the queue's cursor has passed its number. -/
def NoneLate (v : Viewer) : List Event → Prop
  | [] => True
  | e :: events =>
    (∀ f least, e = .message (.frame f) → v.queue.cursor = some least → least ≤ f.seq) ∧
    ∀ w, v.step e = .ok w → w.NoneLate events

/-- One of the ticks at these times paints a frame. -/
def Paints (v : Viewer) : List UInt64 → Prop
  | [] => False
  | now :: nows =>
    ∃ out w, v.tick now = .ok (out, w) ∧ ((∃ seq cells, out = .drawn seq cells) ∨ w.Paints nows)

/-- Time enough between two ticks for a frame, however few wait. -/
def Apart (last now : UInt64) : Prop := last.toNat + 100 ≤ now.toNat

theorem isDue_of_apart {p : Pacer} (hp : p = { last := some last }) (h : Apart last now)
    (backlog : Nat) : p.isDue now (Pacing.frameInterval backlog) = true := by
  subst hp
  refine decide_eq_true ?_
  unfold Apart at h
  unfold Pacing.frameInterval Pacing.backlogLimit
  omega

/-- A tick takes at most one frame from the queue. -/
theorem queue_tick (h : v.tick now = .ok (out, v')) :
    v'.queue = v.queue ∨ ∃ next, v.queue.pop = .ok (next, v'.queue) := by
  rcases tick_cases h with hnext | hcamera | ⟨-, rfl⟩
  · right
    rcases nextFrame_eq_ok hnext with ⟨queue, hpop, -, rfl⟩ | ⟨j, w, -, hpop, -, -, -, -, -, -, -,
      ⟨-, rfl⟩ | hpaint⟩
    · exact ⟨none, hpop⟩
    · exact ⟨some j.frame, hpop⟩
    · obtain ⟨drawn, numbers, painted, painter, camera, stepPacer, -, -, -, rfl⟩ :=
        paintFrame_eq_ok hpaint
      exact ⟨some j.frame, hpop⟩
  · left
    rcases cameraStep_eq_ok hcamera with ⟨-, rfl⟩ | ⟨p, camera, shown, painter, -, -, -, rfl⟩
    · rfl
    · rfl
  · exact .inl rfl

theorem flows_step {e : Event} (h : v.queue.Flows)
    (he : ∀ f least, e = .message (.frame f) → v.queue.cursor = some least → least ≤ f.seq)
    (hstep : v.step e = .ok v') : v'.queue.Flows := by
  cases e with
  | message m =>
    cases hstep
    cases m with
    | frame f =>
      rw [(v.ingest_frame f).1]
      exact h.push fun least => he f least rfl
    | side u => exact h
    | unknown type => exact h
  | tick now =>
    obtain ⟨out, htick⟩ := step_tick_eq_ok hstep
    rcases queue_tick htick with hsame | ⟨next, hpop⟩
    · rwa [hsame]
    · exact h.pop hpop
  | reset =>
    cases hstep
    rfl

theorem flows_run {events : List Event} (h : v.queue.Flows) (hlate : v.NoneLate events)
    (hrun : v.run events = .ok v') : v'.queue.Flows := by
  induction events generalizing v with
  | nil =>
    cases hrun
    exact h
  | cons e events ih =>
    obtain ⟨w, hstep, hrun⟩ := run_cons_eq_ok hrun
    exact ih (flows_step h hlate.1 hstep) (hlate.2 w hstep) hrun

/-- No late frame waits, and no camera step. -/
structure Clear (v : Viewer) : Prop where
  flows : v.queue.Flows
  steps : v.view = .follow → v.camera.steps = []

theorem Clear.tick_eq (h : v.Clear)
    (hdue : v.framePacer.isDue now (Pacing.frameInterval v.queue.size) = true) :
    v.tick now = v.nextFrame now v.queue.size := by
  unfold tick
  dsimp only
  split
  · next hview => rw [h.steps hview, List.isEmpty_nil, if_pos rfl]
  · rw [if_pos hdue]

theorem nextFrame_skipped (h : v.nextFrame now backlog = .ok (.skipped seq, v')) :
    ∃ f, v.queue.pop = .ok (some f, v'.queue) ∧ Pacing.skips backlog f.full = true ∧
      v'.view = v.view ∧ v'.camera = v.camera ∧ v'.framePacer = { last := some now } := by
  obtain ⟨⟨next, queue⟩, hpop, h⟩ := bind_eq_ok h
  cases next with
  | none => cases h
  | some f =>
    obtain ⟨window, -, h⟩ := bind_eq_ok h
    obtain ⟨⟨marks, w⟩, happlied, h⟩ := bind_eq_ok h
    obtain ⟨applied, -, happlied⟩ := bind_eq_ok happlied
    cases happlied
    dsimp only at h
    split at h
    · next hskip =>
      cases h
      exact ⟨f, hpop, hskip, rfl, rfl, rfl⟩
    · obtain ⟨drawn, numbers, painted, painter, camera, stepPacer, -, -, hout, -⟩ :=
        paintFrame_eq_ok h
      cases hout

theorem backlog_lt_of_skips {full : Bool} (h : Pacing.skips backlog full = true) :
    10 < backlog := by
  simp only [Pacing.skips, Pacing.backlogLimit, Bool.and_eq_true] at h
  exact of_decide_eq_true h.1

/-- What a tick that skips a frame leaves. -/
theorem tick_skipped (h : v.tick now = .ok (.skipped seq, v')) :
    v'.Clear ∧ v'.framePacer = { last := some now } ∧ 10 < v.queue.size ∧
      ∃ f, v.queue.ready = f :: v'.queue.pending := by
  have hnext (h : v.nextFrame now v.queue.size = .ok (.skipped seq, v'))
      (hsteps : v.view = .follow → v.camera.steps = []) :
      v'.Clear ∧ v'.framePacer = { last := some now } ∧ 10 < v.queue.size ∧
        ∃ f, v.queue.ready = f :: v'.queue.pending := by
    obtain ⟨f, hpop, hskip, hview, hcamera, hpacer⟩ := nextFrame_skipped h
    rcases FrameQueue.pop_eq_ok hpop with ⟨hnone, -⟩ | ⟨g, -, -, hready, hflows⟩
    · cases hnone
    · refine ⟨⟨hflows, ?_⟩, hpacer, backlog_lt_of_skips hskip, g, hready⟩
      rwa [hview, hcamera]
  unfold tick at h
  dsimp only at h
  split at h
  · next hview =>
    split at h
    · next hempty => exact hnext h fun _ => List.isEmpty_iff.1 hempty
    · rcases cameraStep_eq_ok h with ⟨hout, -⟩ | ⟨p, camera, shown, painter, -, -, hout, -⟩
      · cases hout
      · cases hout
  · next hview =>
    split at h
    · exact hnext h fun hfollow => by simp [hview] at hfollow
    · cases h

/-- Where only frames wait that can leave, ticks alone come to paint one. -/
theorem Clear.paints (h : v.Clear) (hlast : v.framePacer = { last := some last })
    {nows : List UInt64} (hnows : (last :: nows).IsChain Apart) (hwaits : v.queue.pending ≠ [])
    (hlong : v.queue.size ≤ nows.length) :
    v.Paints nows ∨ ∃ e, v.run (nows.map .tick) = .error e := by
  induction nows generalizing v last with
  | nil => exact absurd (List.length_eq_zero_iff.1 (Nat.le_zero.1 hlong)) hwaits
  | cons now nows ih =>
    obtain ⟨hapart, hnows⟩ := List.isChain_cons_cons.1 hnows
    have htick := h.tick_eq (isDue_of_apart hlast hapart v.queue.size)
    cases hnext : v.nextFrame now v.queue.size with
    | error e =>
      refine .inr ⟨e, ?_⟩
      rw [List.map_cons, run, List.foldlM_cons, step, htick, hnext]
      rfl
    | ok ticked =>
      obtain ⟨out, w⟩ := ticked
      rw [hnext] at htick
      have hrun : v.run ((now :: nows).map .tick) = w.run (nows.map .tick) := by
        rw [List.map_cons, run_cons_of_step (step_tick_of_tick htick)]
      rcases nextFrame_eq_ok hnext with ⟨queue, hpop, -, -⟩ | ⟨j, u, -, -, -, -, -, -, -, -, -,
        ⟨rfl, -⟩ | hpaint⟩
      · rcases FrameQueue.pop_eq_ok hpop with ⟨-, hready, -⟩ | ⟨f, hnone, -⟩
        · exact absurd (h.flows.symm.trans hready) hwaits
        · cases hnone
      · obtain ⟨hclear, hpacer, hmany, f, hready⟩ := tick_skipped htick
        have hsize : v.queue.size = w.queue.size + 1 := by
          rw [FrameQueue.size, ← h.flows, hready]
          rfl
        rw [List.length_cons] at hlong
        have hwaits' : w.queue.pending ≠ [] := by
          intro hnil
          rw [FrameQueue.size, FrameQueue.size, hnil, List.length_nil] at hsize
          rw [FrameQueue.size] at hmany
          omega
        rw [hrun]
        refine (ih hclear hpacer hnows hwaits' (by omega)).imp_left ?_
        exact fun hpaints => ⟨_, w, htick, .inr hpaints⟩
      · obtain ⟨drawn, numbers, painted, painter, camera, stepPacer, -, -, rfl, -⟩ :=
          paintFrame_eq_ok hpaint
        exact .inl ⟨_, w, htick, .inl ⟨_, _, rfl⟩⟩

/-- Where no frame waits, a tick finds nothing to do. -/
theorem Clear.tick_idle (h : v.Clear) (hnone : v.queue.pending = [])
    (htick : v.tick now = .ok (out, v')) :
    out = .idle ∧ v'.Clear ∧ v'.queue.pending = [] := by
  have hnext (h' : v.nextFrame now v.queue.size = .ok (out, v')) :
      out = .idle ∧ v'.Clear ∧ v'.queue.pending = [] := by
    rcases nextFrame_eq_ok h' with ⟨queue, hpop, rfl, rfl⟩ | ⟨j, w, -, hpop, -⟩
    · refine ⟨rfl, ⟨h.flows.pop hpop, h.steps⟩, List.eq_nil_iff_forall_not_mem.2 fun g hg => ?_⟩
      exact List.not_mem_nil (hnone ▸ FrameQueue.pending_of_pop hpop g hg)
    · rcases FrameQueue.pop_eq_ok hpop with ⟨hsome, -⟩ | ⟨f, -, -, hready, -⟩
      · cases hsome
      · exact absurd (hready.symm.trans (h.flows.trans hnone)) (List.cons_ne_nil _ _)
  unfold tick at htick
  dsimp only at htick
  split at htick
  · next hview =>
    rw [h.steps hview, List.isEmpty_nil, if_pos rfl] at htick
    exact hnext htick
  · split at htick
    · exact hnext htick
    · cases htick
      exact ⟨rfl, h, hnone⟩

theorem Clear.not_paints (h : v.Clear) (hnone : v.queue.pending = []) (nows : List UInt64) :
    ¬ v.Paints nows := by
  induction nows generalizing v with
  | nil => exact id
  | cons now nows ih =>
    rintro ⟨out, w, htick, hpaints⟩
    obtain ⟨rfl, hclear, hnone'⟩ := h.tick_idle hnone htick
    rcases hpaints with ⟨seq, cells, hout⟩ | hpaints
    · cases hout
    · exact ih hclear hnone' hpaints

/-- Frames at or above the cursor are not late. -/
theorem noneLate_frames {least : UInt64} {fs : List Frame} (hc : v.queue.cursor = some least)
    (h : ∀ f ∈ fs, least ≤ f.seq) : v.NoneLate (fs.map fun f => .message (.frame f)) := by
  induction fs generalizing v with
  | nil => trivial
  | cons f fs ih =>
    rw [List.forall_mem_cons] at h
    refine ⟨?_, ?_⟩
    · intro g least' hg hc'
      cases hg
      cases hc.symm.trans hc'
      exact h.1
    · intro w hstep
      cases hstep
      exact ih (by rw [(v.ingest_frame f).1]; exact FrameQueue.cursor_push hc f) h.2

/-- A frame is applied without being painted if too many wait. -/
theorem nextFrame_skips {j : Job} (hj : v.job = .ok (some j))
    (hskip : Pacing.skips backlog j.frame.full = true) (now : UInt64) :
    ∃ v', v.nextFrame now backlog = .ok (.skipped j.frame.seq, v') := by
  obtain ⟨queue, summary, patcher, hpop, hwindow, happly⟩ := job_eq_ok hj
  simp [nextFrame, hpop, hwindow, applyFrame, happly, hskip, bind, Except.bind, pure, Except.pure]

/-- In the world view, when the first frames of all come before the first tick and are too many, the
one that leaves first is applied and not painted. -/
theorem exists_skipped (fs : List Frame) (f : Frame) (hview : s.view = .world)
    (hside : 7 * s.side.toNat < 2 ^ 32) (hsheet : sheet.BuiltFor s.side)
    (hfresh : ({} : FrameQueue).Fresh fs) (hmany : 10 < (fs.foldl FrameQueue.push {}).size)
    (hhead : (fs.foldl FrameQueue.push {}).ready.head? = some f) (hpass : Passable f)
    (hfull : f.full = false)
    (hsafe : f.SafeIn ⟨f.viewX, f.viewY, f.viewWidth, f.viewHeight⟩ s.side s.surfaceWidth
      s.surfaceHeight) :
    ∃ v₀ v v', ofSettings s sheet = .ok v₀ ∧ v₀.queue = {} ∧
      v₀.run (fs.map fun f => .message (.frame f)) = .ok v ∧
      v.queue = fs.foldl FrameQueue.push {} ∧ v.tick 0 = .ok (.skipped f.seq, v') := by
  obtain ⟨v₀, hstart⟩ := exists_ofSettings s hside sheet
  obtain ⟨hempty, hpacer⟩ : v₀.queue = {} ∧ v₀.framePacer = {} := by
    obtain ⟨dirty, numbers, -, -, rfl⟩ := ofSettings_eq_ok hstart
    exact ⟨rfl, rfl⟩
  obtain ⟨v, hrun, hqueue, hpacer, hconf⟩ : ∃ v,
      v₀.run (fs.map fun f => .message (.frame f)) = .ok v ∧
      v.queue = fs.foldl FrameQueue.push {} ∧ v.framePacer = {} ∧ v.Configured s sheet := by
    obtain ⟨v, hrun, hqueue, hrests, -, -, -, hsame⟩ := run_frames (v := v₀) (by rwa [hempty])
    exact ⟨v, hrun, hempty ▸ hqueue, hsame.trans hpacer,
      (configured_ofSettings hsheet hstart).rests hrests⟩
  obtain ⟨rest, hready⟩ := List.head?_eq_some_iff.1 hhead
  obtain ⟨queue, hpop, -⟩ := FrameQueue.pop_of_ready_cons hready hpass
  obtain ⟨tiles, marks, hj⟩ := exists_job hconf (hqueue.symm ▸ hpop)
    (by rw [hconf.view, hview]; rfl) hsafe
  have hskip : Pacing.skips v.queue.size f.full = true := by
    rw [hqueue, hfull, Pacing.skips, Pacing.backlogLimit, decide_eq_true hmany]
    rfl
  obtain ⟨v', hnext⟩ := nextFrame_skips hj hskip 0
  refine ⟨v₀, v, v', hstart, hempty, hrun, hqueue, ?_⟩
  rw [tick, hconf.view, hview, ← hnext]
  exact if_pos (by rw [hpacer]; rfl)

/-- A frame was applied without being painted. What it changed is painted by ticks alone exactly if
another frame was ready behind it, and one was if no frame ever came late; but late frames count
among those it was hurried for. -/
theorem skipped_paints_iff {events : List Event} (hstart : ofSettings s sheet = .ok v₀)
    (hrun : v₀.run events = .ok v) (htick : v.tick now = .ok (.skipped seq, v')) :
    (v'.queue.isReady = true ↔ 2 ≤ v.queue.ready.length) ∧
      (v₀.NoneLate events → v'.queue.isReady = true) ∧
      (v'.queue.isReady = true → ∀ nows, (now :: nows).IsChain Apart →
        v'.queue.size ≤ nows.length →
          v'.Paints nows ∨ ∃ e, v'.run (nows.map .tick) = .error e) ∧
      (v'.queue.isReady = false → ∀ nows, ¬ v'.Paints nows) := by
  obtain ⟨hclear, hpacer, hmany, f, hready⟩ := tick_skipped htick
  have hwaits : v'.queue.isReady = true ↔ v'.queue.pending ≠ [] := by
    rw [FrameQueue.isReady_iff, hclear.flows]
  have htwo : v'.queue.isReady = true ↔ 2 ≤ v.queue.ready.length := by
    rw [hwaits, hready, List.length_cons, ← List.length_pos_iff]
    omega
  refine ⟨htwo, fun hlate => ?_, fun hpos nows hnows hlong => ?_, fun hneg nows => ?_⟩
  · have hflows : v₀.queue.Flows := by
      obtain ⟨dirty, numbers, -, -, rfl⟩ := ofSettings_eq_ok hstart
      rfl
    have hall : v.queue.ready = v.queue.pending := flows_run hflows hlate hrun
    rw [htwo, hall]
    exact Nat.le_of_lt (Nat.lt_of_le_of_lt (by decide) hmany)
  · exact hclear.paints hpacer hnows (hwaits.1 hpos) hlong
  · refine hclear.not_paints ?_ nows
    by_contra hne
    rw [hwaits.2 hne] at hneg
    cases hneg

/-- Twelve frames come in their order before the first tick. -/
theorem skipped_paints_of_twelve :
    ∃ (s : ViewerSettings) (sheet : SpriteSheet) (fs : List Frame) (v₀ v v' : Viewer),
      let events : List Event := fs.map fun f => .message (.frame f)
      s.view = .world ∧ fs.length = 12 ∧ ofSettings s sheet = .ok v₀ ∧ v₀.run events = .ok v ∧
      v₀.NoneLate events ∧ v.tick 0 = .ok (.skipped 1, v') ∧ v'.queue.isReady = true := by
  let s : ViewerSettings := { view := .world, sprite := 1, surfaceWidth := 2, surfaceHeight := 2 }
  let frame (n : Nat) : Frame :=
    { seq := .ofNat n, viewX := 5, viewY := 7, viewWidth := 2, viewHeight := 2 }
  let fs := (List.range 12).map fun i => frame (i + 1)
  obtain ⟨v₀, v, v', hstart, hempty, hrun, hqueue, htick⟩ := exists_skipped (s := s) fs
    (frame 1) rfl (by decide) (SpriteSheet.builtFor_ofSprite 1) ⟨by decide +kernel, nofun⟩
    (by decide +kernel) (by decide +kernel) (by decide) rfl
    (.of_inside ⟨by decide, by decide, by decide⟩ (by decide) (by decide) (by decide)
      (by decide) (by decide) (by decide))
  have hlate : v₀.NoneLate (fs.map fun f => .message (.frame f)) := by
    refine ⟨fun f least _ hc => ?_, fun w hstep => ?_⟩
    · rw [hempty] at hc
      cases hc
    · cases hstep
      have hcursor : (v₀.ingest (.frame (frame 1))).2.queue.cursor = some 1 := by
        rw [(v₀.ingest_frame (frame 1)).1, hempty]
        rfl
      exact noneLate_frames hcursor (by decide +kernel)
  have h := skipped_paints_iff hstart hrun htick
  exact ⟨s, .ofSprite 1, fs, v₀, v, v', rfl, rfl, hstart, hrun, hlate, htick, h.2.1 hlate⟩

/-- Ten late frames hurry the only frame that can leave, and it is never painted. -/
theorem skipped_never_painted :
    ∃ (s : ViewerSettings) (sheet : SpriteSheet) (fs : List Frame) (v₀ v v' : Viewer),
      s.view = .world ∧ ofSettings s sheet = .ok v₀ ∧
      v₀.run (fs.map fun f => .message (.frame f)) = .ok v ∧
      v.tick 0 = .ok (.skipped 100, v') ∧ v'.queue.isReady = false ∧
      ∀ nows, ¬ v'.Paints nows := by
  let s : ViewerSettings := { view := .world, sprite := 4, surfaceWidth := 16, surfaceHeight := 16 }
  let frame (n : Nat) (patches : List Patch) : Frame :=
    { seq := .ofNat n, viewX := 0, viewY := 0, viewWidth := 4, viewHeight := 4, patches }
  let first := frame 100 [⟨1, 1, 1, 1, [[⟨1, .none⟩]]⟩]
  let fs := first :: (List.range 10).map fun i => frame (i + 1) []
  obtain ⟨v₀, v, v', hstart, hempty, hrun, hqueue, htick⟩ := exists_skipped (s := s) fs first
    rfl (by decide) (SpriteSheet.builtFor_ofSprite 4) ⟨by decide +kernel, nofun⟩
    (by decide +kernel) (by decide +kernel) (by decide) rfl
    (.of_inside ⟨by decide, by decide, by decide⟩ (by decide) (by decide) (by decide)
      (by decide) (by decide) (by decide))
  obtain ⟨hclear, -, -, f, hready⟩ := tick_skipped htick
  have hnone : v'.queue.pending = [] := by
    have hlength := congrArg List.length hready
    rw [hqueue, List.length_cons] at hlength
    have hone : (fs.foldl FrameQueue.push {}).ready.length = 1 := by decide +kernel
    exact List.length_eq_zero_iff.1 (by omega)
  refine ⟨s, .ofSprite 4, fs, v₀, v, v', rfl, hstart, hrun, htick, ?_, hclear.not_paints hnone⟩
  refine Bool.eq_false_iff.2 fun hpos => ?_
  exact (FrameQueue.isReady_iff _).1 hpos (hclear.flows.trans hnone)

end Viewer

end TileViewer
