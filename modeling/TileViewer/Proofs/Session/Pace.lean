import TileViewer.Proofs.Session.Bounds

/-!
The pace of the work. In the world view the frames keep their distance in time, in the follow view
the steps of one glide do, and what waits in the queue makes the distances smaller. How far apart
they are is told by what the ticks since the last reset have done.
-/
namespace TileViewer

theorem Pacer.isDue_iff (p : Pacer) (now : UInt64) (interval : Nat) :
    p.isDue now interval = true ↔ ∀ t, p.last = some t → interval ≤ now.toNat - t.toNat := by
  unfold isDue
  split
  · next hlast => simp [hlast]
  · next t hlast => simp [hlast]

namespace FrameQueue

variable {q q' : FrameQueue} {next : Option Frame}

theorem pop_of_not_ready (h : ¬ q.isReady = true) : ∃ q', q.pop = .ok (none, q') := by
  cases hc : q.cursor with
  | none => exact ⟨q, by rw [pop, hc]⟩
  | some least =>
    have hnil : q.ready = [] := not_not.1 (mt q.isReady_iff.2 h)
    obtain ⟨q', hpop, -⟩ := pop_of_ready_nil hnil (by simp [hc])
    exact ⟨q', hpop⟩

theorem isReady_of_pop_some {f : Frame} (h : q.pop = .ok (some f, q')) : q.isReady = true := by
  rw [isReady_iff, ready_of_pop_some h]
  exact List.cons_ne_nil _ _

theorem not_ready_of_pop_none (h : q.pop = .ok (none, q')) : ¬ q.isReady = true := by
  rcases pop_eq_ok h with ⟨-, hnil, -⟩ | ⟨f, hsome, -⟩
  · exact fun hready => q.isReady_iff.1 hready hnil
  · cases hsome

end FrameQueue

namespace Viewer

/-- A tick has taken the next frame from the queue and stored its tiles, and tells which frame it
was and whether it has been painted. -/
def Applies (v : Viewer) (out : Outcome) (w : Viewer) : Prop :=
  ∃ j, v.job = .ok (some j) ∧ v.queue.pop = .ok (some j.frame, w.queue) ∧ w.tiles = j.tiles ∧
    ((∃ cells, out = .drawn j.frame.seq cells) ∨ out = .skipped j.frame.seq)

/-- A tick has shown the next step of the camera, and nothing else. -/
def ShowsStep (v : Viewer) (out : Outcome) (w : Viewer) : Prop :=
  out = .stepped (v.camera.steps.length - 1) ∧ w.camera.steps = v.camera.steps.tail ∧
    w.queue = v.queue ∧ w.tiles = v.tiles

/-- The ticks of a run since the last reset in it, the latest first. -/
def lately (v : Viewer) (past : List Beat) : List Event → List Beat
  | [] => past
  | .message m :: events => (v.ingest m).2.lately past events
  | .reset :: events => v.reset.lately [] events
  | .tick now :: events =>
    match v.tick now with
    | .ok (outcome, w) => w.lately (⟨v, now, outcome, w⟩ :: past) events
    | .error _ => past

/-- When a frame was applied last, painted or not. -/
def lastApplied : List Beat → Option UInt64
  | [] => none
  | b :: past =>
    match b.outcome with
    | .drawn _ _ | .skipped _ => some b.now
    | .stepped _ | .idle => lastApplied past

/-- When the current glide took its last step. A glide begins with the painting of a frame. -/
def lastStep : List Beat → Option UInt64
  | [] => none
  | b :: past =>
    match b.outcome with
    | .stepped _ => some b.now
    | .drawn _ _ => none
    | .skipped _ | .idle => lastStep past

/-- The pacers know the times that matter. -/
structure Paced (view : View) (past : List Beat) (v : Viewer) : Prop where
  view_eq : v.view = view
  frame : v.framePacer.last = lastApplied past
  step : view = .follow → v.stepPacer.last = lastStep past

variable {s : ViewerSettings} {sheet : SpriteSheet} {view : View} {v w : Viewer} {now : UInt64}
  {out : Outcome} {backlog : Nat} {past : List Beat} {events : List Event}

theorem paced_ofSettings (h : ofSettings s sheet = .ok v) : v.Paced s.view [] := by
  obtain ⟨dirty, numbers, -, -, rfl⟩ := ofSettings_eq_ok h
  exact ⟨rfl, rfl, fun _ => rfl⟩

theorem Paced.reset (h : v.Paced view past) : v.reset.Paced view [] :=
  ⟨h.view_eq, rfl, fun _ => rfl⟩

theorem Paced.ingest (h : v.Paced view past) (m : Message) : (v.ingest m).2.Paced view past := by
  obtain ⟨hview, hframe, hstep⟩ := h
  cases m with
  | frame f =>
    simp only [Viewer.ingest]
    split <;> exact ⟨hview, hframe, hstep⟩
  | side u => exact ⟨hview, hframe, hstep⟩
  | unknown type => exact ⟨hview, hframe, hstep⟩

theorem Paced.idle (h : v.Paced view past) (now : UInt64) :
    v.Paced view (⟨v, now, .idle, v⟩ :: past) := ⟨h.view_eq, h.frame, h.step⟩

theorem Paced.cameraStep (h : v.Paced view past) (hs : v.cameraStep now backlog = .ok (out, w)) :
    w.Paced view (⟨v, now, out, w⟩ :: past) := by
  rcases cameraStep_eq_ok hs with ⟨rfl, rfl⟩ | ⟨p, camera, shown, painter, -, -, rfl, rfl⟩
  · exact h.idle now
  · exact ⟨h.view_eq, h.frame, fun _ => rfl⟩

theorem applyFrame_pacers {frame : Frame} {window : Window} {marks : DirtyGrid}
    (h : v.applyFrame frame window now = .ok (marks, w)) :
    w.view = v.view ∧ w.framePacer = { last := some now } ∧ w.stepPacer = v.stepPacer := by
  obtain ⟨applied, -, h⟩ := bind_eq_ok h
  cases h
  exact ⟨rfl, rfl, rfl⟩

theorem paintFrame_pacers {frame : Frame} {window : Window} {marks : DirtyGrid}
    (h : v.paintFrame frame window marks = .ok (out, w)) :
    (∃ seq cells, out = .drawn seq cells) ∧ w.view = v.view ∧ w.framePacer = v.framePacer ∧
      (v.view = .follow → w.stepPacer = {}) := by
  have hglide (hview : v.view = .follow) : w.stepPacer = {} := by
    obtain ⟨target, n, -, -, hpacer⟩ := paintFrame_camera hview h
    exact hpacer
  obtain ⟨drawn, numbers, painted, painter, camera, stepPacer, -, -, rfl, rfl⟩ :=
    paintFrame_eq_ok h
  exact ⟨⟨_, _, rfl⟩, rfl, rfl, hglide⟩

/-- A frame that is painted begins a glide, one that is skipped leaves the old one as it was. -/
theorem Paced.nextFrame (h : v.Paced view past) (hs : v.nextFrame now backlog = .ok (out, w)) :
    w.Paced view (⟨v, now, out, w⟩ :: past) := by
  obtain ⟨⟨next, queue⟩, -, hs⟩ := bind_eq_ok hs
  cases next with
  | none =>
    cases hs
    exact ⟨h.view_eq, h.frame, h.step⟩
  | some frame =>
    obtain ⟨window, -, hs⟩ := bind_eq_ok hs
    obtain ⟨⟨marks, u⟩, happlied, hs⟩ := bind_eq_ok hs
    obtain ⟨hview, hframe, hstep⟩ := applyFrame_pacers happlied
    dsimp only at hs hview hstep
    rw [h.view_eq] at hview
    split at hs
    · cases hs
      refine ⟨hview, congrArg Pacer.last hframe, fun hfollow => ?_⟩
      exact (congrArg Pacer.last hstep).trans (h.step hfollow)
    · obtain ⟨⟨seq, cells, rfl⟩, hview', hframe', hglide⟩ := paintFrame_pacers hs
      refine ⟨hview'.trans hview, congrArg Pacer.last (hframe'.trans hframe), fun hfollow => ?_⟩
      exact congrArg Pacer.last (hglide (hview.trans hfollow))

/-- The step lemma: what a tick does is put before what the ticks before it did. -/
theorem Paced.tick (h : v.Paced view past) (ht : v.tick now = .ok (out, w)) :
    w.Paced view (⟨v, now, out, w⟩ :: past) := by
  rcases tick_cases ht with hnext | hcamera | ⟨rfl, rfl⟩
  · exact h.nextFrame hnext
  · exact h.cameraStep hcamera
  · exact h.idle now

theorem lastApplied_cons {b : Beat} (h : b.before.Applies b.outcome b.after) :
    lastApplied (b :: past) = some b.now := by
  obtain ⟨j, -, -, -, h⟩ := h
  rcases h with ⟨cells, h⟩ | h <;> simp only [lastApplied, h]

theorem lately_tick_cons (htick : v.tick now = .ok (out, w)) (past : List Beat)
    (events : List Event) :
    v.lately past (.tick now :: events) = w.lately (⟨v, now, out, w⟩ :: past) events := by
  simp only [lately, htick]

theorem Paced.run (h : v.Paced view past) (hrun : v.run events = .ok w) :
    w.Paced view (v.lately past events) := by
  induction events generalizing v past with
  | nil =>
    cases hrun
    exact h
  | cons e events ih =>
    obtain ⟨u, hstep, hrest⟩ := run_cons_eq_ok hrun
    cases e with
    | message m =>
      cases hstep
      exact ih (h.ingest m) hrest
    | reset =>
      cases hstep
      exact ih h.reset hrest
    | tick now =>
      obtain ⟨out, htick⟩ := step_tick_eq_ok hstep
      rw [lately_tick_cons htick]
      exact ih (h.tick htick) hrest

/-- A tick does this work exactly when it is due. When it is not, the tick does nothing. -/
structure WorksWhen (v : Viewer) (now : UInt64) (work : Outcome → Viewer → Prop) (due : Prop) :
    Prop where
  works : ∀ out w, v.tick now = .ok (out, w) → (work out w ↔ due)
  rests : ¬ due → ∃ w, v.tick now = .ok (.idle, w)

theorem WorksWhen.intro {work : Outcome → Viewer → Prop} {due : Prop}
    (hidle : ∀ w, ¬ work .idle w) (hdue : due → ∀ out w, v.tick now = .ok (out, w) → work out w)
    (hnot : ¬ due → ∃ w, v.tick now = .ok (.idle, w)) : v.WorksWhen now work due := by
  refine ⟨fun out w htick => ⟨fun hwork => ?_, fun h => hdue h out w htick⟩, hnot⟩
  by_contra hearly
  obtain ⟨w', hrest⟩ := hnot hearly
  cases htick.symm.trans hrest
  exact hidle w hwork

/-- Which queue is left is known by the queue that was there. -/
theorem Applies.queue_eq {next : Option Frame} {queue : FrameQueue} (h : v.Applies out w)
    (hpop : v.queue.pop = .ok (next, queue)) : w.queue = queue := by
  obtain ⟨j, -, hpopped, -⟩ := h
  cases hpopped.symm.trans hpop
  rfl

theorem not_applies_idle (v w : Viewer) : ¬ v.Applies .idle w := by
  rintro ⟨j, -, -, -, ⟨cells, hdrawn⟩ | hskipped⟩
  · cases hdrawn
  · cases hskipped

theorem not_showsStep_idle (v w : Viewer) : ¬ v.ShowsStep .idle w := by
  rintro ⟨hstepped, -⟩
  cases hstepped

/-- A frame that is ready is taken from the queue and applied. -/
theorem nextFrame_applies (hready : v.queue.isReady = true)
    (h : v.nextFrame now backlog = .ok (out, w)) : v.Applies out w := by
  rcases nextFrame_eq_ok h with ⟨queue, hpop, -⟩ | ⟨j, u, hj, hpop, htook, -, -, -, -, -, -,
    ⟨rfl, rfl⟩ | hpaint⟩
  · exact absurd hready (FrameQueue.not_ready_of_pop_none hpop)
  · exact ⟨j, hj, hpop, htook.tiles, .inr rfl⟩
  · obtain ⟨drawn, numbers, painted, painter, camera, stepPacer, -, -, rfl, rfl⟩ :=
      paintFrame_eq_ok hpaint
    exact ⟨j, hj, hpop, htook.tiles, .inl ⟨_, rfl⟩⟩

theorem nextFrame_idle (hready : ¬ v.queue.isReady = true) (now : UInt64) (backlog : Nat) :
    ∃ w, v.nextFrame now backlog = .ok (.idle, w) := by
  obtain ⟨queue, hpop⟩ := FrameQueue.pop_of_not_ready hready
  rw [nextFrame, hpop]
  exact ⟨_, rfl⟩

/-- The world view: `t` is the time of the last frame. -/
theorem Paced.frames (h : v.Paced .world past) (now : UInt64) :
    v.WorksWhen now v.Applies (v.queue.isReady = true ∧
      ∀ t, lastApplied past = some t → t.toNat + 30 + 7 * (10 - v.queue.size) ≤ now.toNat) := by
  have hdue : v.framePacer.isDue now (Pacing.frameInterval v.queue.size) = true ↔
      ∀ t, lastApplied past = some t → t.toNat + 30 + 7 * (10 - v.queue.size) ≤ now.toNat := by
    rw [Pacer.isDue_iff, h.frame]
    refine forall₂_congr fun t _ => ?_
    unfold Pacing.frameInterval Pacing.backlogLimit
    omega
  have htick : v.tick now = if v.framePacer.isDue now (Pacing.frameInterval v.queue.size) then
      v.nextFrame now v.queue.size else .ok (.idle, v) := by
    simp only [Viewer.tick, h.view_eq]
  rw [← hdue]
  refine .intro v.not_applies_idle ?_ fun hnot => ?_
  · rintro ⟨hready, hpaced⟩ out w hw
    rw [htick, if_pos hpaced] at hw
    exact nextFrame_applies hready hw
  · rw [htick]
    split
    · next hpaced => exact nextFrame_idle (fun hready => hnot ⟨hready, hpaced⟩) now _
    · exact ⟨v, rfl⟩

/-- The follow view while steps are left: `t` is the time of the glide's last step. -/
theorem Paced.steps (h : v.Paced .follow past) (hsteps : v.camera.steps ≠ []) (now : UInt64) :
    v.WorksWhen now v.ShowsStep
      (∀ t, lastStep past = some t → 20 - 4 * v.queue.size ≤ now.toNat - t.toNat) := by
  rw [← h.step rfl]
  change v.WorksWhen now _
    (∀ t, v.stepPacer.last = some t → Pacing.stepInterval v.queue.size ≤ now.toNat - t.toNat)
  rw [← Pacer.isDue_iff]
  refine .intro v.not_showsStep_idle (fun hdue out w htick => ?_) fun hnot => ?_
  · obtain ⟨p, rest, hcons⟩ := List.exists_cons_of_ne_nil hsteps
    obtain ⟨rfl, hcamera, hqueue⟩ := tick_shows h.view_eq hcons hdue htick
    refine ⟨?_, ?_, hqueue, ?_⟩
    · rw [hcons, List.length_cons, Nat.add_sub_cancel]
    · rw [hcamera, hcons, List.tail_cons]
    · cases ticked_tick htick with
      | rested hrests => exact hrests.tiles
  · refine ⟨v, ?_⟩
    simp only [Viewer.tick, h.view_eq, Viewer.cameraStep, if_neg hnot, List.isEmpty_iff,
      if_neg hsteps]

/-- The follow view once no step is left. -/
theorem Paced.arrived (h : v.Paced .follow past) (hsteps : v.camera.steps = []) (now : UInt64) :
    v.WorksWhen now v.Applies (v.queue.isReady = true) := by
  have htick : v.tick now = v.nextFrame now v.queue.size := by
    simp only [Viewer.tick, h.view_eq, hsteps, List.isEmpty_nil, if_true]
  refine .intro v.not_applies_idle (fun hready out w hw => ?_) fun hnot => ?_
  · exact nextFrame_applies hready (htick ▸ hw)
  · rw [htick]
    exact nextFrame_idle hnot now _

/-- With moderate settings a viewer begins in reach. -/
theorem InReach.of_moderate (hs : s.Moderate) (hstart : ofSettings s sheet = .ok v) :
    v.InReach (.ofModerate hs) := by
  have htracked : ∀ r, s.tracked = some r → r.InReach 2000000 := by
    intro r hr
    obtain ⟨hx, hy, hwidth, hheight⟩ := hs.tracked r hr
    exact ⟨hx.mono (by decide), hy.mono (by decide), by omega, by omega⟩
  obtain ⟨v₀, hv₀, hin⟩ := InReach.gives_ofSettings (E := .ofModerate hs) rfl rfl rfl htracked sheet
  cases hstart.symm.trans hv₀
  exact hin

/-- A tick takes the next frame from the queue and applies it, or shows the next step, exactly when
that is due; otherwise it does nothing. In the world view `t` is the time of the last frame that was
applied since the last reset, in the follow view that of the last step of the glide; differences
below zero count as zero. With moderate settings every tick gives a result while all that the server
speaks of lies at most a million tiles away from the origin. -/
theorem ticks_keep_pace {v₀ : Viewer} (hstart : ofSettings s sheet = .ok v₀)
    (hrun : v₀.run events = .ok v) (now : UInt64) :
    (s.view = .world → v.WorksWhen now v.Applies (v.queue.isReady = true ∧
      ∀ t, lastApplied (v₀.lately [] events) = some t →
        t.toNat + 30 + 7 * (10 - v.queue.size) ≤ now.toNat)) ∧
    (s.view = .follow → v.camera.steps ≠ [] →
      v.WorksWhen now v.ShowsStep
        (∀ t, lastStep (v₀.lately [] events) = some t →
          20 - 4 * v.queue.size ≤ now.toNat - t.toNat)) ∧
    (s.view = .follow → v.camera.steps = [] →
      v.WorksWhen now v.Applies (v.queue.isReady = true)) ∧
    (s.Moderate → (∀ e ∈ events, e.InReach 1000000) → ∃ out w, v.tick now = .ok (out, w)) := by
  have hpaced : v.Paced s.view (v₀.lately [] events) := (paced_ofSettings hstart).run hrun
  refine ⟨fun hview => ?_, fun hview hsteps => ?_, fun hview hsteps => ?_, fun hs he => ?_⟩
  · rw [hview] at hpaced
    exact hpaced.frames now
  · rw [hview] at hpaced
    exact hpaced.steps hsteps now
  · rw [hview] at hpaced
    exact hpaced.arrived hsteps now
  · have hreach : 1000000 ≤ (Envelope.ofModerate hs).reach := by
      change 1000000 ≤ 2000000
      decide
    obtain ⟨w, hrun', hin⟩ :=
      (InReach.of_moderate hs hstart).gives_run fun e hmem => (he e hmem).mono hreach
    cases hrun.symm.trans hrun'
    obtain ⟨⟨out, w⟩, htick, -⟩ := hin.gives_tick now
    exact ⟨out, w, htick⟩

/-- In the world view two frames wait from the start. The first is applied at 5, and with only one
left the second has to wait until 98. In the follow view the first step of a glide is shown at any
time, even at one before that of its frame. -/
theorem ticks_keep_pace_two :
    ∃ f g : Frame,
      (∃ v₀ v, ofSettings { view := .world } (.ofSprite 32) = .ok v₀ ∧
        v₀.run [.message (.frame f), .message (.frame g), .tick 5] = .ok v ∧
        (∃ w, v.tick 97 = .ok (.idle, w)) ∧
        ∃ out w, v.tick 98 = .ok (out, w) ∧ v.Applies out w ∧
          v.queue.pop = .ok (some g, w.queue)) ∧
      ∃ v₀ v, ofSettings {} (.ofSprite 32) = .ok v₀ ∧
        v₀.run [.message (.frame f), .tick 5] = .ok v ∧ ∃ w, v.tick 3 = .ok (.stepped 0, w) := by
  let f : Frame := { seq := 1, viewX := 0, viewY := 0, viewWidth := 32, viewHeight := 32 }
  let g : Frame := { seq := 2, viewX := 0, viewY := 10, viewWidth := 32, viewHeight := 32 }
  have hf : Event.InReach 1000000 (.message (.frame f)) :=
    ⟨⟨by decide, by decide, by decide, by decide, by simp [f]⟩, by decide⟩
  have hg : Event.InReach 1000000 (.message (.frame g)) :=
    ⟨⟨by decide, by decide, by decide, by decide, by simp [g]⟩, by decide⟩
  have htick (now : UInt64) : Event.InReach 1000000 (.tick now) := trivial
  refine ⟨f, g, ?_, ?_⟩
  · have hs : ({ view := .world } : ViewerSettings).Moderate :=
      ⟨by decide, by decide, by decide, by simp⟩
    obtain ⟨v₀, hstart⟩ := exists_ofSettings { view := .world } (by decide) (.ofSprite 32)
    obtain ⟨u, queue, queue', hmessages, hsize, hpop, hpop', hsize', hpacer, -⟩ :=
      run_two hstart f g (by decide) (by decide)
    obtain ⟨-, -, -, htotal⟩ := ticks_keep_pace hstart hmessages 5
    obtain ⟨out, v, hfirst⟩ := htotal hs (by simp [hf, hg])
    have hview : u.view = .world := ((paced_ofSettings hstart).run hmessages).view_eq
    have hnext : u.nextFrame 5 u.queue.size = .ok (out, v) := by
      simpa [tick, hview, hpacer, Pacer.isDue] using hfirst
    have happlies := nextFrame_applies (FrameQueue.isReady_of_pop_some hpop) hnext
    obtain rfl := happlies.queue_eq hpop
    cases hmessages
    have hrun : v₀.run [.message (.frame f), .message (.frame g), .tick 5] = .ok v :=
      run_cons_of_step (step_tick_of_tick hfirst) []
    have hpast : lastApplied (v₀.lately [] [.message (.frame f), .message (.frame g), .tick 5]) =
        some 5 := by
      rw [lately, lately, lately_tick_cons hfirst, lately, lastApplied_cons happlies]
    have hdue (now : UInt64) := (ticks_keep_pace hstart hrun now).1 rfl
    rw [hpast] at hdue
    simp only [Option.some.injEq, forall_eq', hsize', FrameQueue.isReady_of_pop_some hpop',
      true_and] at hdue
    obtain ⟨out', w, hsecond⟩ := (ticks_keep_pace hstart hrun 98).2.2.2 hs (by simp [hf, hg, htick])
    have happlies' := ((hdue 98).works out' w hsecond).2 (by decide)
    obtain rfl := happlies'.queue_eq hpop'
    exact ⟨v₀, v, hstart, hrun, (hdue 97).rests (by decide), out', w, hsecond, happlies', hpop'⟩
  · have hs : ({} : ViewerSettings).Moderate := ⟨by decide, by decide, by decide, by simp⟩
    obtain ⟨v₀, hstart⟩ := exists_ofSettings {} (by decide) (.ofSprite 32)
    obtain ⟨u, hmessage, hsize, hpop, -, hcamera, -⟩ := run_first hstart f (by decide)
    obtain ⟨-, -, -, htotal⟩ := ticks_keep_pace hstart hmessage 5
    obtain ⟨out, v, hfirst⟩ := htotal hs (by simp [hf])
    have hview : u.view = .follow := ((paced_ofSettings hstart).run hmessage).view_eq
    obtain ⟨cells, target, n, rfl, hretarget, -⟩ :=
      tick_paints hview (by rw [hcamera]) hpop (by rw [hsize]; rfl) hfirst
    rw [hcamera] at hretarget
    obtain ⟨-, hglide⟩ := Prod.mk.inj (Except.ok.inj hretarget)
    cases hmessage
    have hrun : v₀.run [.message (.frame f), .tick 5] = .ok v :=
      run_cons_of_step (step_tick_of_tick hfirst) []
    have hpast : lastStep (v₀.lately [] [.message (.frame f), .tick 5]) = none := by
      rw [lately, lately_tick_cons hfirst]
      rfl
    obtain ⟨-, hsteps, -, htotal'⟩ := ticks_keep_pace hstart hrun 3
    obtain ⟨out', w, hsecond⟩ := htotal' hs (by simp [hf, htick])
    have hshows := ((hsteps rfl (by simp [← hglide])).works out' w hsecond).2 (by simp [hpast])
    obtain ⟨hstepped, -⟩ := hshows
    rw [← hglide] at hstepped
    exact ⟨v₀, v, hstart, hrun, w, hstepped ▸ hsecond⟩

end Viewer

end TileViewer
