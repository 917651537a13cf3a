import TileViewer.Proofs.Session.Current
import TileViewer.Proofs.Session.Setup

/-!
The world view, for frames of any size. The surface shows each cell as it was last painted. When
the size of the view changes, a cell that has left the view stays on it, and a cell that has come
into the view is not painted before it is marked.
-/
namespace TileViewer

variable {s : ViewerSettings} {sheet : SpriteSheet}

/-- A frame of the world view, of whatever size, that stays inside all ranges. -/
def Frame.ViewSafe (s : ViewerSettings) (f : Frame) : Prop :=
  f.SafeIn ⟨f.viewX, f.viewY, f.viewWidth, f.viewHeight⟩ s.side s.surfaceWidth s.surfaceHeight

/-- The scene of a world view that begins with this frame. -/
def Frame.firstScene (f : Frame) (sprite : UInt32) : Scene :=
  ⟨⟨f.viewX, f.viewY, f.viewWidth, f.viewHeight⟩, TileStore.insertAll {} (Patcher.writes f), sprite,
    true⟩

namespace Job

/-- The world view's scene of the job. -/
def worldScene (j : Job) (sprite : UInt32) : Scene := ⟨j.window, j.tiles, sprite, true⟩

/-- The board on a surface of this size once the job has been painted. -/
def board (j : Job) (sprite width height : UInt32) (before : Option Board) : Board :=
  (j.worldScene sprite).nextBoard width height j.scope before

/-- The pass that paints the job goes on from a board and leaves this cell of it as it is. -/
def LeavesOut (j : Job) (sprite width height : UInt32) (before : Option Board) (c r : Nat)
    (old : Option LayerStack) : Prop :=
  (∃ board, before = some board ∧ board c r = old) ∧
    ¬ (j.window.Shows sprite width height c r ∧ j.scope.Covers sprite c r)

variable {j : Job} {sprite width height : UInt32} {before : Option Board} {c r : Nat}

theorem board_of_leavesOut {old : Option LayerStack}
    (h : j.LeavesOut sprite width height before c r old) :
    j.board sprite width height before c r = old := by
  obtain ⟨⟨board, rfl, rfl⟩, hout⟩ := h
  exact if_neg hout

/-- Each cell is left out by the pass or shows the world afterwards. -/
theorem board_eq_or_leavesOut (j : Job) (sprite width height : UInt32) (before : Option Board)
    (c r : Nat) :
    j.board sprite width height before c r = (j.worldScene sprite).worldBoard width height c r ∨
      j.LeavesOut sprite width height before c r (j.board sprite width height before c r) := by
  cases before with
  | none => exact .inl rfl
  | some board =>
    by_cases hin : j.window.Shows sprite width height c r ∧ j.scope.Covers sprite c r
    · refine .inl ?_
      rw [Scene.worldBoard_of_shows (j.worldScene sprite) hin.1]
      exact if_pos hin
    · exact .inr ⟨⟨board, rfl, (if_neg hin).symm⟩, hin⟩

end Job

namespace Viewer

variable {v v' : Viewer} {j : Job} {before : Option Board}

/-- The board on the surface after an event. -/
def boardAfter (v : Viewer) (before : Option Board) : Event → Option Board
  | .message _ => before
  | .reset => none
  | .tick now =>
    match v.tick now, v.job with
    | .ok (.drawn _ _, _), .ok (some j) =>
      some (j.board v.sprite v.surfaceWidth v.surfaceHeight before)
    | _, _ => before

/-- The board on the surface after a run. -/
def boardRun (v : Viewer) (before : Option Board) : List Event → Option Board
  | [] => before
  | e :: events =>
    match v.step e with
    | .ok w => w.boardRun (v.boardAfter before e) events
    | .error _ => before

theorem boardAfter_of_not_drawn {out : Outcome} {now : UInt64}
    (h : v.tick now = .ok (out, v')) (hout : ∀ seq cells, out ≠ .drawn seq cells) :
    v.boardAfter before (.tick now) = before := by
  simp only [boardAfter, h]
  split
  · next heq _ =>
    cases heq
    exact absurd rfl (hout _ _)
  · rfl

/-- A painted frame leaves its job's board. -/
theorem boardRun_drawn (before : Option Board) {events : List Event} {w : Viewer}
    {now seq : UInt64} {cells : Nat} (hrun : v.run events = .ok w)
    (htick : w.tick now = .ok (.drawn seq cells, v')) (hj : w.job = .ok (some j)) :
    v.boardRun before (events ++ [.tick now]) =
      some (j.board w.sprite w.surfaceWidth w.surfaceHeight (v.boardRun before events)) := by
  induction events generalizing v before with
  | nil =>
    cases hrun
    simp only [List.nil_append, boardRun, step_tick_of_tick htick, boardAfter, htick, hj]
  | cons e events ih =>
    obtain ⟨u, hstep, hrun⟩ := run_cons_eq_ok hrun
    simp only [List.cons_append, boardRun, hstep]
    exact ih _ hrun

/-- The tiles kept beside the surface are the picture of the board. -/
structure SurfaceHolds (s : ViewerSettings) (sheet : SpriteSheet) (v : Viewer)
    (board : Option Board) : Prop where
  configured : v.Configured s sheet
  frames : ∀ f ∈ v.queue.pending, f.ViewSafe s
  kept : ∃ last, v.painter.canvas = .world last ∧
    last.Rel (·.Pictures · v.painter.sprites s.surfaceWidth s.surfaceHeight true) board

theorem SurfaceHolds.job_frame (h : v.SurfaceHolds s sheet before) (hview : s.view = .world)
    (hj : v.job = .ok (some j)) : j.frame ∈ v.queue.pending ∧
      j.window = ⟨j.frame.viewX, j.frame.viewY, j.frame.viewWidth, j.frame.viewHeight⟩ := by
  have hwindow := h.configured.job_window hj
  rw [hview] at hwindow
  obtain ⟨queue, summary, patcher, hpop, -⟩ := job_eq_ok hj
  exact ⟨FrameQueue.mem_pending_of_pop hpop, (Except.ok.inj hwindow).symm⟩

theorem SurfaceHolds.job_safe (h : v.SurfaceHolds s sheet before) (hview : s.view = .world)
    (hj : v.job = .ok (some j)) :
    j.frame.SafeIn j.window s.side s.surfaceWidth s.surfaceHeight := by
  obtain ⟨hmem, hwindow⟩ := h.job_frame hview hj
  rw [hwindow]
  exact h.frames _ hmem

theorem SurfaceHolds.rests (h : v.SurfaceHolds s sheet before) (hr : v.Rests v')
    (hframes : ∀ f ∈ v'.queue.pending, f.ViewSafe s) : v'.SurfaceHolds s sheet before where
  configured := h.configured.rests hr
  frames := hframes
  kept := by
    obtain ⟨last, hcanvas, hrel⟩ := h.kept
    exact ⟨last, hr.canvas.trans hcanvas, hr.sprites ▸ hrel⟩

theorem SurfaceHolds.reset (h : v.SurfaceHolds s sheet before) (hview : s.view = .world) :
    v.reset.SurfaceHolds s sheet none where
  configured := h.configured.reset
  frames _ hf := nomatch hf
  kept := by
    refine ⟨none, ?_, .none⟩
    simp only [Viewer.reset, Painter.reset, h.configured.painter.view, hview, Canvas.ofView]

theorem surfaceHolds_ofSettings (hview : s.view = .world) (hsheet : sheet.BuiltFor s.side)
    (h : ofSettings s sheet = .ok v) : v.SurfaceHolds s sheet none where
  configured := configured_ofSettings hsheet h
  frames := by
    obtain ⟨dirty, numbers, -, -, rfl⟩ := ofSettings_eq_ok h
    exact fun _ hf => nomatch hf
  kept := by
    obtain ⟨dirty, numbers, -, -, rfl⟩ := ofSettings_eq_ok h
    refine ⟨none, ?_, .none⟩
    simp only [Painter.ofView, hview, Canvas.ofView]

theorem SurfaceHolds.skipped (h : v.SurfaceHolds s sheet before) (hview : s.view = .world)
    (hj : v.job = .ok (some j)) (htook : v.Took j v')
    (hdirty : v'.dirty = v.dirty.cleared.absorb j.marks) (hpainter : v'.painter = v.painter)
    (hpending : ∀ f ∈ v'.queue.pending, f ∈ v.queue.pending) :
    v'.SurfaceHolds s sheet before := by
  have hmarks := absorbed_marks h.configured hj (h.job_safe hview hj) hdirty
  refine ⟨?_, ?_, hpainter ▸ h.kept⟩
  · exact h.configured.took htook (h.configured.dirty.sameSize hmarks.1)
      (hpainter ▸ h.configured.painter)
  · intro f hf
    exact h.frames f (hpending f hf)

/-- The picture left by a job and the picture of the world agree, where the overlay does not hide
them, exactly when the cells that the job leaves out look like those of the world. -/
theorem pictures_agree_iff {sprites : SpriteSheet} {clean full : Surface}
    {hidden : Nat → Nat → Prop} {width height : UInt32} (hsprite : sprites.sprite = s.side)
    (hclean : clean.Pictures (j.board s.side width height before) sprites width height true)
    (hfull : full.Pictures ((j.worldScene s.side).worldBoard width height) sprites width height
      true) :
    (∀ px py, hidden px py ∨ clean.image.pixel? px py = full.image.pixel? px py) ↔
      ∀ px < width.toNat, ∀ py < height.toNat, ∀ old,
        j.LeavesOut s.side width height before (px / s.side.toNat) (py / s.side.toNat) old →
          hidden px py ∨ sprites.boardColor width height true old px py =
            sprites.boardColor width height true ((j.worldScene s.side).worldBoard width height
              (px / s.side.toNat) (py / s.side.toNat)) px py := by
  constructor
  · intro hall px hx py hy old hout
    refine (hall px py).imp_right ?_
    intro heq
    rw [hclean.pixel?_eq_some hx hy, hfull.pixel?_eq_some hx hy, Option.some_inj, hsprite,
      Job.board_of_leavesOut hout] at heq
    exact heq
  · intro hall px py
    by_cases hin : px < width.toNat ∧ py < height.toNat
    · rw [hclean.pixel?_eq_some hin.1 hin.2, hfull.pixel?_eq_some hin.1 hin.2, Option.some_inj,
        hsprite]
      rcases j.board_eq_or_leavesOut s.side width height before (px / s.side.toNat)
        (py / s.side.toNat) with hsame | hout
      · exact .inr (by rw [hsame])
      · exact hall px hin.1 py hin.2 _ hout
    · refine .inr ?_
      rw [Image.pixel?_eq_none, Image.pixel?_eq_none]
      · exact fun h => hin (by rwa [← hfull.width_eq, ← hfull.height_eq])
      · exact fun h => hin (by rwa [← hclean.width_eq, ← hclean.height_eq])

/-- A painted frame shows the job's board under its overlay. It is the surface of a new painter
exactly when no cell that the job leaves out looks different and is not hidden. -/
theorem SurfaceHolds.drawn {overlay : Overlay} {stats : PaintStats}
    (h : v.SurfaceHolds s sheet before) (hsheet : sheet.BuiltFor s.side) (hview : s.view = .world)
    (hj : v.job = .ok (some j)) (htook : v.Took j v') (hdirty : v'.dirty = v.dirty.cleared)
    (hpaint : v.painter.draw j.window j.tiles j.scope overlay = .ok (stats, v'.painter))
    (hpending : ∀ f ∈ v'.queue.pending, f ∈ v.queue.pending) :
    v'.SurfaceHolds s sheet (some (j.board s.side s.surfaceWidth s.surfaceHeight before)) ∧
    ∃ stats p,
      (Painter.ofView .world s.surfaceWidth s.surfaceHeight s.sprite sheet).draw j.window j.tiles
        .all overlay = .ok (stats, p) ∧
      (v'.surface = p.surface ↔
        ∀ px < s.surfaceWidth.toNat, ∀ py < s.surfaceHeight.toNat, ∀ old,
          j.LeavesOut s.side s.surfaceWidth s.surfaceHeight before (px / s.side.toNat)
            (py / s.side.toNat) old →
          overlay.Hides .world j.window s.side px py ∨
          sheet.boardColor s.surfaceWidth s.surfaceHeight true old px py =
            sheet.boardColor s.surfaceWidth s.surfaceHeight true
              ((j.worldScene s.side).worldBoard s.surfaceWidth s.surfaceHeight
                (px / s.side.toNat) (py / s.side.toNat)) px py) := by
  have hsafe := h.job_safe hview hj
  obtain ⟨last, hcanvas, hrel⟩ := h.kept
  have hp := h.configured.painter
  have hfresh : (Painter.ofView .world s.surfaceWidth s.surfaceHeight s.sprite sheet).Configured s
      sheet := hview ▸ painter_configured_ofView hsheet
  obtain ⟨stats₁, clean, sheet₁, hclean, hbuilt, himages, hdraw⟩ :=
    Painter.draw_world j.tiles overlay hcanvas hp.sprite hp.width hp.height hsafe.fits
      (job_decides h.configured hj hsafe) hp.built hrel
  obtain ⟨stats₂, full, sheet₂, hfull, -, -, hdraw'⟩ :=
    Painter.draw_world j.tiles overlay rfl hfresh.sprite hfresh.width hfresh.height hsafe.fits
      Scene.decides_all hfresh.built .none
  rw [hdraw, hp.view, hview] at hpaint
  rw [hfresh.view, hview] at hdraw'
  cases hsurface : overlay.draw .world j.window s.side clean with
  | error e => simp [hsurface, Except.map] at hpaint
  | ok surface =>
    obtain ⟨surface', hsurface'⟩ := (Overlay.stamps_draw overlay _ _ _).exists_ok hsurface full
    rw [hsurface] at hpaint
    rw [hsurface'] at hdraw'
    simp only [Except.map, Except.ok.injEq, Prod.mk.injEq] at hpaint
    obtain ⟨-, hpainter⟩ := hpaint
    obtain ⟨hwidth, hheight⟩ := (Overlay.stamps_draw overlay _ _ _).size hsurface
    refine ⟨⟨h.configured.took htook ?_ ?_, fun f hf => h.frames f (hpending f hf), some clean,
      by rw [← hpainter], .some ?_⟩, stats₂, _, hdraw', ?_⟩
    · exact hdirty ▸ h.configured.dirty.sameSize ⟨rfl, rfl⟩
    · rw [← hpainter]
      exact ⟨hview.symm, hp.sprite, hwidth.trans hclean.width_eq, hheight.trans hclean.height_eq,
        hbuilt, himages.trans hp.images⟩
    · rw [← hpainter]
      exact hclean.congr himages
    · rw [Viewer.surface, ← hpainter, Overlay.draw_eq_iff
        (hclean.width_eq.trans hfull.width_eq.symm) (hclean.height_eq.trans hfull.height_eq.symm)
        (hclean.labels.trans hfull.labels.symm) hsurface hsurface',
        ← SpriteSheet.boardColor_congr hp.images]
      exact pictures_agree_iff hp.built.sprite_eq hclean (hfull.congr hp.images)

theorem SurfaceHolds.step {e : Event} (h : v.SurfaceHolds s sheet before)
    (hsheet : sheet.BuiltFor s.side) (hview : s.view = .world)
    (he : ∀ f, e = .message (.frame f) → f.ViewSafe s) (hstep : v.step e = .ok v') :
    v'.SurfaceHolds s sheet (v.boardAfter before e) := by
  cases e with
  | message m =>
    cases hstep
    refine h.rests (rests_ingest v m) ?_
    intro f hf
    rcases mem_pending_ingest hf with hf | rfl
    · exact h.frames f hf
    · exact he f rfl
  | reset =>
    cases hstep
    exact h.reset hview
  | tick now =>
    obtain ⟨out, htick⟩ := step_tick_eq_ok hstep
    cases ticked_tick htick with
    | rested hr hout hpending =>
      rw [boardAfter_of_not_drawn htick hout]
      exact h.rests hr fun f hf => h.frames f (hpending f hf)
    | skipped hj ht hdirty hpainter hpending =>
      simp only [boardAfter, htick]
      exact h.skipped hview hj ht hdirty hpainter hpending
    | drawn hj ht hdirty _ hpaint hpending =>
      simp only [boardAfter, htick, hj, h.configured.sprite, h.configured.surfaceWidth,
        h.configured.surfaceHeight]
      exact (h.drawn hsheet hview hj ht hdirty hpaint hpending).1

theorem SurfaceHolds.run {events : List Event} (h : v.SurfaceHolds s sheet before)
    (hsheet : sheet.BuiltFor s.side) (hview : s.view = .world)
    (hframes : ∀ f, .message (.frame f) ∈ events → f.ViewSafe s)
    (hrun : v.run events = .ok v') : v'.SurfaceHolds s sheet (v.boardRun before events) := by
  induction events generalizing v before with
  | nil =>
    cases hrun
    exact h
  | cons e events ih =>
    obtain ⟨w, hstep, hrun⟩ := run_cons_eq_ok hrun
    simp only [boardRun, hstep]
    exact ih (h.step hsheet hview (fun f hf => hframes f (hf ▸ List.mem_cons_self)) hstep)
      (fun f hf => hframes f (List.mem_cons_of_mem _ hf)) hrun

/-- A frame that is due and not skipped is painted, unless its numbers or its overlay overflow. -/
theorem SurfaceHolds.tick_draws {frame : Frame} {queue : FrameQueue} {overlay : Overlay}
    (now : UInt64) (h : v.SurfaceHolds s sheet before) (hview : s.view = .world)
    (hpop : v.queue.pop = .ok (some frame, queue))
    (hdue : v.framePacer.isDue now (Pacing.frameInterval v.queue.size) = true)
    (hskip : Pacing.skips v.queue.size frame.full = false)
    (hoverlay : v.overlayOf frame = .ok overlay)
    (hdraw : ∀ t, ∃ u, overlay.draw .world
      ⟨frame.viewX, frame.viewY, frame.viewWidth, frame.viewHeight⟩ s.side t = .ok u) :
    ∃ cells v', v.tick now = .ok (.drawn frame.seq cells, v') ∧
      v.nextFrame now v.queue.size = .ok (.drawn frame.seq cells, v') := by
  have hc := h.configured
  have hsafe := h.frames _ (FrameQueue.mem_pending_of_pop hpop)
  have hworld : v.view = .world := hc.view.trans hview
  have hwindow : Window.ofFrame v.view frame v.surfaceWidth v.surfaceHeight v.sprite =
      .ok ⟨frame.viewX, frame.viewY, frame.viewWidth, frame.viewHeight⟩ := by
    rw [hworld]
    rfl
  obtain ⟨tiles, marks, hj⟩ := exists_job hc hpop hwindow hsafe
  obtain ⟨last, hcanvas, hrel⟩ := h.kept
  have hp := hc.painter
  obtain ⟨stats, clean, sheet', -, -, -, hpaint⟩ :=
    Painter.draw_world tiles overlay hcanvas hp.sprite hp.width hp.height hsafe.fits
      (job_decides hc hj hsafe) hp.built hrel
  obtain ⟨u, hu⟩ := hdraw clean
  rw [hp.view, hview, hu] at hpaint
  obtain ⟨v', hnext⟩ := nextFrame_draws hworld hj hskip hoverlay hpaint now
  refine ⟨stats.cells, v', ?_, hnext⟩
  simp only [tick, hworld, hdue, if_true]
  exact hnext

theorem forall_of_two {P : Frame → Prop} {f g : Frame} (hf : P f) (hg : P g) (k : Frame)
    (hk : .message (.frame k) ∈ [Event.message (.frame f), .message (.frame g), .tick 0]) :
    P k := by
  simp only [List.mem_cons, reduceCtorEq, List.not_mem_nil, or_false, Event.message.injEq,
    Message.frame.injEq] at hk
  rcases hk with rfl | rfl
  · exact hf
  · exact hg

/-- In the world view two frames without creatures are painted one after the other, the second one
on the board of the first. -/
theorem exists_two_drawn (hview : s.view = .world) (hside : 7 * s.side.toNat < 2 ^ 32)
    (hsheet : sheet.BuiltFor s.side) (htracked : s.tracked = none) {f g : Frame}
    (hf : f.ViewSafe s) (hg : g.ViewSafe s) (hf' : f.creatures = []) (hg' : g.creatures = [])
    (hlt : f.seq < g.seq) (hpass : Passable g) :
    ∃ (v₀ v v' : Viewer) (j : Job) (cells : Nat), ofSettings s sheet = .ok v₀ ∧
      v₀.run [.message (.frame f), .message (.frame g), .tick 0] = .ok v ∧
      v₀.boardRun none [.message (.frame f), .message (.frame g), .tick 0] =
        some ((f.firstScene s.side).worldBoard s.surfaceWidth s.surfaceHeight) ∧
      v.patcher = ⟨s.side, some (f.viewX, f.viewY)⟩ ∧ v.dirty.marks = ∅ ∧
      v.tick 1000 = .ok (.drawn g.seq cells, v') ∧ v.job = .ok (some j) ∧ j.frame = g ∧
      j.window = ⟨g.viewX, g.viewY, g.viewWidth, g.viewHeight⟩ ∧
      v.overlayOf g = .ok ⟨[], [], g.seq, none⟩ := by
  have hframes := forall_of_two hf hg
  obtain ⟨v₀, hstart⟩ := exists_ofSettings s hside sheet
  have h₀ := surfaceHolds_ofSettings hview hsheet hstart
  -- Both frames come before the first tick, which paints the lower one.
  obtain ⟨v₁, queue₁, queue₂, hrun₁, hsize₁, hpop₁, hpop₂, hsize₂, hpacer₁, hquiet₁⟩ :=
    run_two hstart f g hlt hpass
  have h₁ := h₀.run hsheet hview (fun k hk => hframes k (by simp_all)) hrun₁
  obtain ⟨cells₁, v, htick₁, hnext₁⟩ := h₁.tick_draws 0 hview hpop₁ (by rw [hpacer₁]; rfl)
    (by rw [hsize₁]; rfl) (hquiet₁.overlayOf f) (fun t => by rw [hf', htracked]; exact ⟨_, rfl⟩)
  obtain ⟨j₁, hj₁, htook, hdirty⟩ := took_of_drawn htick₁
  have hboard := boardRun_drawn none hrun₁ htick₁ hj₁
  rw [h₁.configured.sprite, h₁.configured.surfaceWidth, h₁.configured.surfaceHeight] at hboard
  have hframe₁ := frame_eq_of_pop hpop₁ hj₁
  have htiles₁ : v₁.tiles = {} := by
    cases hrun₁
    rw [(rests_ingest _ _).tiles, (rests_ingest _ _).tiles]
    obtain ⟨dirty, numbers, -, -, rfl⟩ := ofSettings_eq_ok hstart
    rfl
  have hscene : j₁.worldScene s.side = f.firstScene s.side := by
    rw [Job.worldScene, (h₁.job_frame hview hj₁).2, job_tiles hj₁, hframe₁, htiles₁]
    rfl
  have hrun : v₀.run [.message (.frame f), .message (.frame g), .tick 0] = .ok v := by
    obtain ⟨u, hu, hrun₁⟩ := run_cons_eq_ok hrun₁
    obtain ⟨w, hw, hrun₁⟩ := run_cons_eq_ok hrun₁
    cases hrun₁
    rw [run_cons_of_step hu, run_cons_of_step hw, run_cons_of_step (step_tick_of_tick htick₁)]
    rfl
  -- The other one is painted next.
  obtain ⟨f', hpop', hpacer⟩ := nextFrame_leaves hnext₁
  cases hpop₁.symm.trans hpop'
  have hquiet : v.overlayOf g = .ok ⟨[], [], g.seq, none⟩ := by
    rw [(hquiet₁.nextFrame hnext₁).overlayOf, hg', htracked]
  have h := h₀.run hsheet hview hframes hrun
  obtain ⟨cells, v', htick, -⟩ := h.tick_draws 1000 hview hpop₂ (by rw [hpacer, hsize₂]; rfl)
    (by rw [hsize₂]; rfl) hquiet fun t => ⟨_, rfl⟩
  obtain ⟨j, hj, -⟩ := took_of_drawn htick
  have hframe := frame_eq_of_pop hpop₂ hj
  refine ⟨v₀, v, v', j, cells, hstart, hrun, ?_, ?_, by rw [hdirty]; rfl, htick, hj, hframe, ?_,
    hquiet⟩
  · rw [← hscene]
    exact hboard
  · rw [htook.patcher, hframe₁, ← h₁.configured.patcher]
  · rw [(h.job_frame hview hj).2, hframe]

/-- In every run of the world view whose frames stay inside the ranges, of whatever sizes they are,
a frame that has been painted is on the surface as a new painter would show it, repainting every
cell of the same window from the same tiles and under the same overlay, exactly when each cell that
the pass has left out looks, where the overlay does not hide it, as in the world, if the window
shows it, and as bare ground, if not. -/
theorem world_drawn_eq_full_redraw_iff {events : List Event} {v₀ : Viewer} {now seq : UInt64}
    {cells : Nat} (hview : s.view = .world) (hsheet : sheet.BuiltFor s.side)
    (hframes : ∀ f, .message (.frame f) ∈ events → f.ViewSafe s)
    (hstart : ofSettings s sheet = .ok v₀) (hrun : v₀.run events = .ok v)
    (htick : v.tick now = .ok (.drawn seq cells, v')) :
    ∃ j overlay painted stats p, v.job = .ok (some j) ∧ j.frame.seq = seq ∧
      v.overlayOf j.frame = .ok overlay ∧
      v.painter.draw j.window j.tiles j.scope overlay = .ok (painted, v'.painter) ∧
      v'.lastWindow = some j.window ∧ v'.tiles = j.tiles ∧
      (Painter.ofView s.view s.surfaceWidth s.surfaceHeight s.sprite sheet).draw j.window v'.tiles
        .all overlay = .ok (stats, p) ∧
      (v'.surface = p.surface ↔
        ∀ px < s.surfaceWidth.toNat, ∀ py < s.surfaceHeight.toNat, ∀ old,
          j.LeavesOut s.side s.surfaceWidth s.surfaceHeight (v₀.boardRun none events)
            (px / s.side.toNat) (py / s.side.toNat) old →
          overlay.Hides .world j.window s.side px py ∨
          sheet.boardColor s.surfaceWidth s.surfaceHeight true old px py =
            sheet.boardColor s.surfaceWidth s.surfaceHeight true
              ((j.worldScene s.side).worldBoard s.surfaceWidth s.surfaceHeight
                (px / s.side.toNat) (py / s.side.toNat)) px py) := by
  have h := (surfaceHolds_ofSettings hview hsheet hstart).run hsheet hview hframes hrun
  cases ticked_tick htick with
  | rested _ hout => exact absurd rfl (hout seq cells)
  | @drawn j _ overlay painted hj ht hdirty hoverlay hpaint hpending =>
    obtain ⟨stats, p, hfull, hiff⟩ := (h.drawn hsheet hview hj ht hdirty hpaint hpending).2
    exact ⟨j, overlay, painted, stats, p, hj, rfl, hoverlay, hpaint, ht.lastWindow, ht.tiles,
      by rw [hview, ht.tiles]; exact hfull, hiff⟩

/-- The tile of the second column is still on the surface when only the first column is in view. -/
theorem world_left_cell_stays :
    ∃ (s : ViewerSettings) (sheet : SpriteSheet) (f g : Frame) (v₀ v v' : Viewer) (cells : Nat),
      s.view = .world ∧ sheet.BuiltFor s.side ∧ f.ViewSafe s ∧ g.ViewSafe s ∧
      (f.viewX, f.viewY, f.viewHeight) = (g.viewX, g.viewY, g.viewHeight) ∧
      g.viewWidth < f.viewWidth ∧
      ofSettings s sheet = .ok v₀ ∧
      v₀.run [.message (.frame f), .message (.frame g), .tick 0] = .ok v ∧
      v.tick 1000 = .ok (.drawn g.seq cells, v') ∧
      ∃ j overlay stats p, v.job = .ok (some j) ∧ v.overlayOf j.frame = .ok overlay ∧
        (Painter.ofView s.view s.surfaceWidth s.surfaceHeight s.sprite sheet).draw j.window v'.tiles
          .all overlay = .ok (stats, p) ∧
        v'.surface ≠ p.surface := by
  let s : ViewerSettings :=
    { view := .world, sprite := 2, surfaceWidth := 203, surfaceHeight := 2 }
  let f : Frame := { seq := 1, viewX := 5, viewY := 7, viewWidth := 2, viewHeight := 1 }
  let g : Frame := { seq := 2, viewX := 5, viewY := 7, viewWidth := 1, viewHeight := 1 }
  have hsheet : (SpriteSheet.ofSprite 2).BuiltFor s.side := SpriteSheet.builtFor_ofSprite 2
  have hf : f.ViewSafe s := .of_inside ⟨by decide, by decide, by decide⟩ (by decide) (by decide)
    (by decide) (by decide) (by decide) (by decide)
  have hg : g.ViewSafe s := .of_inside ⟨by decide, by decide, by decide⟩ (by decide) (by decide)
    (by decide) (by decide) (by decide) (by decide)
  obtain ⟨v₀, v, v', j, cells, hstart, hrun, hboard, -, -, htick, hj, hframe, hwindow, hquiet⟩ :=
    exists_two_drawn (s := s) rfl (by decide) hsheet rfl hf hg rfl rfl (by decide) (by decide)
  obtain ⟨k, overlay, painted, stats, p, hk, -, hoverlay, -, -, -, hfull, hiff⟩ :=
    world_drawn_eq_full_redraw_iff rfl hsheet (forall_of_two hf hg) hstart hrun htick
  cases hj.symm.trans hk
  have hcell : (f.firstScene s.side).worldBoard s.surfaceWidth s.surfaceHeight 1 0 =
      some ((f.firstScene s.side).stackAt 1 0) :=
    Scene.worldBoard_of_shows _
      (show Window.Shows ⟨5, 7, 2, 1⟩ s.side s.surfaceWidth s.surfaceHeight 1 0 by decide)
  have hout : ¬ j.window.Shows s.side s.surfaceWidth s.surfaceHeight 1 0 := by
    rw [hwindow]
    decide
  refine ⟨s, .ofSprite 2, f, g, v₀, v, v', cells, rfl, hsheet, hf, hg, rfl, by decide, hstart, hrun,
    htick, j, overlay, stats, p, hj, hoverlay, hfull, ?_⟩
  intro heq
  -- The last column of the cell lies on the sidebar, which the ground of the cell covers.
  have hpixel := hiff.1 heq 3 (by decide) 0 (by decide) (some ((f.firstScene s.side).stackAt 1 0))
  have hcolumn : 3 / s.side.toNat = 1 := by decide
  rw [hcolumn, Nat.zero_div] at hpixel
  rcases hpixel ⟨⟨_, hboard, hcell⟩, fun hs => hout hs.1⟩ with hides | hcolor
  · rw [hframe, hquiet] at hoverlay
    cases hoverlay
    exact Overlay.not_hides_empty 2 (w := 4) (h := 1) (by decide) (by decide) (by decide) hides
  · rw [Scene.worldBoard_of_not_shows (j.worldScene s.side) hout] at hcolor
    simp only [SpriteSheet.boardColor, SpriteSheet.cellColor,
      SpriteSheet.stackColor_of_no_images (SpriteSheet.imageOf_ofSprite 2)] at hcolor
    rw [Ground.pixelD_surface (by decide) (by decide)] at hcolor
    revert hcolor
    decide

end Viewer

end TileViewer
