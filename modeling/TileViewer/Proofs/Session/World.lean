import TileViewer.Proofs.Session.Resized

/-!
The world view. As long as the size of the view stays the same, repainting the marked squares
gives the picture that repainting everything would give.
-/
namespace TileViewer

variable {s : ViewerSettings} {sheet : SpriteSheet} {viewWidth viewHeight : UInt32}

/-- A frame of the world view, of the given size, that stays inside all ranges. -/
structure Frame.WorldSafe (s : ViewerSettings) (viewWidth viewHeight : UInt32) (f : Frame) :
    Prop where
  width : f.viewWidth = viewWidth
  height : f.viewHeight = viewHeight
  safe : f.SafeIn ⟨f.viewX, f.viewY, viewWidth, viewHeight⟩ s.side s.surfaceWidth s.surfaceHeight

theorem Frame.WorldSafe.viewSafe {f : Frame} (h : f.WorldSafe s viewWidth viewHeight) :
    f.ViewSafe s := by
  obtain ⟨rfl, rfl, hsafe⟩ := h
  exact hsafe

namespace Viewer

variable {v v' : Viewer} {j : Job} {last : Option Surface} {board : Option Board}

/-- The kept picture, if there is one, shows a board that is current but for the marked squares. -/
structure WorldKept (s : ViewerSettings) (viewWidth viewHeight : UInt32) (v : Viewer)
    (last : Option Surface) (board : Option Board) : Prop where
  canvas : v.painter.canvas = .world last
  pictures : last.Rel (·.Pictures · v.painter.sprites s.surfaceWidth s.surfaceHeight true) board
  current : ∀ b, board = some b → ∃ x y, v.patcher.lastOrigin = some (x, y) ∧
    Scene.Current ⟨⟨x, y, viewWidth, viewHeight⟩, v.tiles, s.side, true⟩ s.surfaceWidth
      s.surfaceHeight v.dirty b

structure WorldHolds (s : ViewerSettings) (sheet : SpriteSheet) (viewWidth viewHeight : UInt32)
    (v : Viewer) : Prop where
  configured : v.Configured s sheet
  frames : ∀ f ∈ v.queue.pending, f.WorldSafe s viewWidth viewHeight
  kept : ∃ last board, WorldKept s viewWidth viewHeight v last board

theorem WorldHolds.surfaceHolds (h : v.WorldHolds s sheet viewWidth viewHeight)
    (hkept : WorldKept s viewWidth viewHeight v last board) : v.SurfaceHolds s sheet board where
  configured := h.configured
  frames f hf := (h.frames f hf).viewSafe
  kept := ⟨last, hkept.canvas, hkept.pictures⟩

theorem SurfaceHolds.worldHolds (h : v.SurfaceHolds s sheet board)
    (hframes : ∀ f ∈ v.queue.pending, f.WorldSafe s viewWidth viewHeight)
    (hcurrent : ∀ b, board = some b → ∃ x y, v.patcher.lastOrigin = some (x, y) ∧
      Scene.Current ⟨⟨x, y, viewWidth, viewHeight⟩, v.tiles, s.side, true⟩ s.surfaceWidth
        s.surfaceHeight v.dirty b) : v.WorldHolds s sheet viewWidth viewHeight where
  configured := h.configured
  frames := hframes
  kept := by
    obtain ⟨last, hcanvas, hpictures⟩ := h.kept
    exact ⟨last, board, hcanvas, hpictures, hcurrent⟩

theorem WorldHolds.job_window (h : v.WorldHolds s sheet viewWidth viewHeight)
    (hview : s.view = .world) (hj : v.job = .ok (some j)) :
    j.frame.viewWidth = viewWidth ∧ j.frame.viewHeight = viewHeight ∧
      j.window = ⟨j.frame.viewX, j.frame.viewY, viewWidth, viewHeight⟩ := by
  obtain ⟨last, board, hkept⟩ := h.kept
  obtain ⟨hmem, hwindow⟩ := (h.surfaceHolds hkept).job_frame hview hj
  obtain ⟨hwidth, hheight, -⟩ := h.frames _ hmem
  rw [hwidth, hheight] at hwindow
  exact ⟨hwidth, hheight, hwindow⟩

/-- Applying a frame keeps the board current, whether or not its view has moved. -/
theorem WorldHolds.job_current (h : v.WorldHolds s sheet viewWidth viewHeight)
    (hview : s.view = .world) (hj : v.job = .ok (some j)) {b : Board}
    (hkept : WorldKept s viewWidth viewHeight v last (some b)) :
    (j.worldScene s.side).Current s.surfaceWidth s.surfaceHeight j.marks b := by
  obtain ⟨hwidth, hheight, hw⟩ := h.job_window hview hj
  have hsafe := (h.surfaceHolds hkept).job_safe hview hj
  have happlied := job_applied h.configured hj hsafe
  obtain ⟨x, y, horigin, hcurrent⟩ := hkept.current b rfl
  by_cases hmoved : v.patcher.lastOrigin = some (j.frame.viewX, j.frame.viewY)
  · cases horigin.symm.trans hmoved
    rw [← hw] at hcurrent
    exact Scene.Current.apply_same hsafe happlied hcurrent
  · refine ⟨fun c r hs => .inl ?_, fun c r hs => hcurrent.bare c r fun hs' => hs ?_⟩
    · have hcolumn : c < j.window.width.toNat := hs.1.1
      have hrow : r < j.window.height.toNat := hs.2.1
      refine happlied.moved hmoved c ?_ r ?_
      · rw [hwidth]
        simp only [hw, Nat.min_self] at hcolumn ⊢
        exact hcolumn
      · rw [hheight]
        simp only [hw, Nat.min_self] at hrow ⊢
        exact hrow
    · rw [Job.worldScene, hw]
      exact hs'

theorem WorldHolds.rests (h : v.WorldHolds s sheet viewWidth viewHeight) (hr : v.Rests v')
    (hframes : ∀ f ∈ v'.queue.pending, f.WorldSafe s viewWidth viewHeight) :
    v'.WorldHolds s sheet viewWidth viewHeight := by
  obtain ⟨last, board, hkept⟩ := h.kept
  refine ((h.surfaceHolds hkept).rests hr fun f hf => (hframes f hf).viewSafe).worldHolds
    hframes ?_
  rw [hr.patcher, hr.tiles, hr.dirty]
  exact hkept.current

theorem WorldHolds.reset (h : v.WorldHolds s sheet viewWidth viewHeight)
    (hview : s.view = .world) : v.reset.WorldHolds s sheet viewWidth viewHeight := by
  obtain ⟨last, board, hkept⟩ := h.kept
  exact ((h.surfaceHolds hkept).reset hview).worldHolds (fun _ hf => nomatch hf) nofun

theorem worldHolds_ofSettings (hview : s.view = .world) (hsheet : sheet.BuiltFor s.side)
    (h : ofSettings s sheet = .ok v) : v.WorldHolds s sheet viewWidth viewHeight := by
  refine (surfaceHolds_ofSettings hview hsheet h).worldHolds ?_ nofun
  obtain ⟨dirty, numbers, -, -, rfl⟩ := ofSettings_eq_ok h
  exact fun _ hf => nomatch hf

/-- A frame that is applied but not painted keeps its marks for the next one. -/
theorem WorldHolds.skipped (h : v.WorldHolds s sheet viewWidth viewHeight)
    (hview : s.view = .world) (hj : v.job = .ok (some j)) (htook : v.Took j v')
    (hdirty : v'.dirty = v.dirty.cleared.absorb j.marks) (hpainter : v'.painter = v.painter)
    (hpending : ∀ f ∈ v'.queue.pending, f ∈ v.queue.pending) :
    v'.WorldHolds s sheet viewWidth viewHeight := by
  obtain ⟨last, board, hkept⟩ := h.kept
  have hsurface := h.surfaceHolds hkept
  refine (hsurface.skipped hview hj htook hdirty hpainter hpending).worldHolds
    (fun f hf => h.frames f (hpending f hf)) ?_
  rintro b rfl
  have hcurrent := h.job_current hview hj hkept
  have hmarks := absorbed_marks h.configured hj (hsurface.job_safe hview hj) hdirty
  refine ⟨j.frame.viewX, j.frame.viewY, by rw [htook.patcher], ?_⟩
  rw [htook.tiles, ← (h.job_window hview hj).2.2]
  exact hcurrent.mono fun k => (hmarks.2 k).2

/-- The pass that paints the job leaves the board of the world. -/
theorem WorldHolds.job_board (h : v.WorldHolds s sheet viewWidth viewHeight)
    (hview : s.view = .world) (hj : v.job = .ok (some j))
    (hkept : WorldKept s viewWidth viewHeight v last board) :
    j.board s.side s.surfaceWidth s.surfaceHeight board =
      (j.worldScene s.side).worldBoard s.surfaceWidth s.surfaceHeight := by
  cases board with
  | none => rfl
  | some b =>
    have hcurrent := h.job_current hview hj hkept
    have hsafe := (h.surfaceHolds hkept).job_safe hview hj
    have hsize := (job_applied h.configured hj hsafe).sameSize
    unfold Job.board Job.scope
    split
    · exact Scene.repaint_all hcurrent
    · exact Scene.repaint_marked hsafe.fits (h.configured.dirty.sameSize hsize) hcurrent

/-- A painted frame shows the board of the world, as a new painter would. -/
theorem WorldHolds.drawn {overlay : Overlay} {stats : PaintStats}
    (h : v.WorldHolds s sheet viewWidth viewHeight)
    (hsheet : sheet.BuiltFor s.side)
    (hview : s.view = .world) (hj : v.job = .ok (some j)) (htook : v.Took j v')
    (hdirty : v'.dirty = v.dirty.cleared)
    (hpaint : v.painter.draw j.window j.tiles j.scope overlay = .ok (stats, v'.painter))
    (hpending : ∀ f ∈ v'.queue.pending, f ∈ v.queue.pending) :
    v'.WorldHolds s sheet viewWidth viewHeight ∧ ∃ stats p,
      (Painter.ofView .world s.surfaceWidth s.surfaceHeight s.sprite sheet).draw j.window j.tiles
        .all overlay = .ok (stats, p) ∧ p.surface = v'.painter.surface := by
  obtain ⟨last, board, hkept⟩ := h.kept
  have hsurface := h.surfaceHolds hkept
  have hboard := h.job_board hview hj hkept
  obtain ⟨hleft, stats, p, hdraw, hiff⟩ :=
    hsurface.drawn hsheet hview hj htook hdirty hpaint hpending
  refine ⟨hleft.worldHolds (fun f hf => h.frames f (hpending f hf)) ?_, stats, p, hdraw,
    (hiff.2 ?_).symm⟩
  · rintro b ⟨⟩
    refine ⟨j.frame.viewX, j.frame.viewY, by rw [htook.patcher], ?_⟩
    rw [htook.tiles, ← (h.job_window hview hj).2.2, hboard]
    exact Scene.current_worldBoard
  · -- What the pass leaves out is that of the world already.
    intro px _ py _ old hout
    rw [← hboard, Job.board_of_leavesOut hout]
    exact .inr rfl

/-- One step of a run. -/
theorem WorldHolds.step {e : Event} (h : v.WorldHolds s sheet viewWidth viewHeight)
    (hsheet : sheet.BuiltFor s.side) (hview : s.view = .world)
    (he : ∀ f, e = .message (.frame f) → f.WorldSafe s viewWidth viewHeight)
    (hstep : v.step e = .ok v') : v'.WorldHolds s sheet viewWidth viewHeight := by
  cases e with
  | message m =>
    cases hstep
    refine h.rests (rests_ingest v m) ?_
    intro f hf
    rcases mem_pending_ingest hf with hf | rfl
    · exact h.frames f hf
    · exact he f rfl
  | reset =>
    cases hstep
    exact h.reset hview
  | tick now =>
    obtain ⟨out, htick⟩ := step_tick_eq_ok hstep
    cases ticked_tick htick with
    | rested hr _ hpending => exact h.rests hr fun f hf => h.frames f (hpending f hf)
    | skipped hj ht hdirty hpainter hpending =>
      exact h.skipped hview hj ht hdirty hpainter hpending
    | drawn hj ht hdirty _ hpaint hpending =>
      exact (h.drawn hsheet hview hj ht hdirty hpaint hpending).1

theorem WorldHolds.run {events : List Event} (h : v.WorldHolds s sheet viewWidth viewHeight)
    (hsheet : sheet.BuiltFor s.side) (hview : s.view = .world)
    (hframes : ∀ f, .message (.frame f) ∈ events → f.WorldSafe s viewWidth viewHeight)
    (hrun : v.run events = .ok v') : v'.WorldHolds s sheet viewWidth viewHeight := by
  induction events generalizing v with
  | nil =>
    cases hrun
    exact h
  | cons e events ih =>
    obtain ⟨w, hstep, hrun⟩ := run_cons_eq_ok hrun
    exact ih (h.step hsheet hview (fun f hf => hframes f (hf ▸ List.mem_cons_self)) hstep)
      (fun f hf => hframes f (List.mem_cons_of_mem _ hf)) hrun

/-- A frame that is due and not skipped is painted, unless its numbers or its overlay overflow. -/
theorem WorldHolds.tick_draws {frame : Frame} {queue : FrameQueue} {overlay : Overlay}
    (now : UInt64) (h : v.WorldHolds s sheet viewWidth viewHeight) (hview : s.view = .world)
    (hpop : v.queue.pop = .ok (some frame, queue))
    (hdue : v.framePacer.isDue now (Pacing.frameInterval v.queue.size) = true)
    (hskip : Pacing.skips v.queue.size frame.full = false)
    (hoverlay : v.overlayOf frame = .ok overlay)
    (hdraw : ∀ t, ∃ u,
      overlay.draw .world ⟨frame.viewX, frame.viewY, viewWidth, viewHeight⟩ s.side t = .ok u) :
    ∃ cells v', v.tick now = .ok (.drawn frame.seq cells, v') := by
  obtain ⟨last, board, hkept⟩ := h.kept
  obtain ⟨hwidth, hheight, -⟩ := h.frames _ (FrameQueue.mem_pending_of_pop hpop)
  rw [← hwidth, ← hheight] at hdraw
  obtain ⟨cells, v', htick, -⟩ :=
    (h.surfaceHolds hkept).tick_draws now hview hpop hdue hskip hoverlay hdraw
  exact ⟨cells, v', htick⟩

/-- In every run of the world view whose frames all have one size and stay inside the ranges, a
frame that has been painted is on the surface as a new painter would show it, repainting every cell
of the same window from the same tiles and under the same overlay. -/
theorem world_drawn_eq_full_redraw {events : List Event} {v₀ : Viewer} {now seq : UInt64}
    {cells : Nat} (hview : s.view = .world) (hsheet : sheet.BuiltFor s.side)
    (hframes : ∀ f, .message (.frame f) ∈ events → f.WorldSafe s viewWidth viewHeight)
    (hstart : ofSettings s sheet = .ok v₀) (hrun : v₀.run events = .ok v)
    (htick : v.tick now = .ok (.drawn seq cells, v')) :
    ∃ j overlay painted stats p, v.job = .ok (some j) ∧ j.frame.seq = seq ∧
      v.overlayOf j.frame = .ok overlay ∧
      v.painter.draw j.window j.tiles j.scope overlay = .ok (painted, v'.painter) ∧
      v'.lastWindow = some j.window ∧ v'.tiles = j.tiles ∧
      (Painter.ofView s.view s.surfaceWidth s.surfaceHeight s.sprite sheet).draw j.window v'.tiles
        .all overlay = .ok (stats, p) ∧
      v'.surface = p.surface := by
  have h := (worldHolds_ofSettings hview hsheet hstart).run hsheet hview hframes hrun
  cases ticked_tick htick with
  | rested _ hout => exact absurd rfl (hout seq cells)
  | @drawn j _ overlay painted hj ht hdirty hoverlay hpaint hpending =>
    obtain ⟨stats, p, hfull, hsurface⟩ := (h.drawn hsheet hview hj ht hdirty hpaint hpending).2
    exact ⟨j, overlay, painted, stats, p, hj, rfl, hoverlay, hpaint, ht.lastWindow, ht.tiles,
      by rw [hview, ht.tiles]; exact hfull, hsurface.symm⟩

/-- The second frame of a view removes a tile in its first column. The tile in the thirteenth column
is left out by the second pass, and is on the surface all the same. -/
theorem world_second_pass_eq_full_redraw :
    ∃ (s : ViewerSettings) (sheet : SpriteSheet) (f g : Frame) (v₀ v v' : Viewer) (cells : Nat),
      s.view = .world ∧ sheet.BuiltFor s.side ∧ sheet.imageOf 1 .none ≠ none ∧
      f.WorldSafe s 16 1 ∧ g.WorldSafe s 16 1 ∧ g.patches ≠ [] ∧ ofSettings s sheet = .ok v₀ ∧
      v₀.run [.message (.frame f), .message (.frame g), .tick 0] = .ok v ∧
      v.tick 1000 = .ok (.drawn g.seq cells, v') ∧
      ∃ j overlay stats p, v.job = .ok (some j) ∧ v.overlayOf j.frame = .ok overlay ∧
        j.LeavesOut s.side s.surfaceWidth s.surfaceHeight
          (v₀.boardRun none [.message (.frame f), .message (.frame g), .tick 0]) 12 0
          (some [⟨1, .none⟩]) ∧
        (Painter.ofView s.view s.surfaceWidth s.surfaceHeight s.sprite sheet).draw j.window v'.tiles
          .all overlay = .ok (stats, p) ∧
        v'.surface = p.surface := by
  let s : ViewerSettings :=
    { view := .world, sprite := 4, surfaceWidth := 264, surfaceHeight := 4 }
  let sheet : SpriteSheet := (SpriteSheet.ofSprite 4).insert 1 (.filled 4 4 Palette.white)
  let f : Frame :=
    { seq := 1, viewX := 5, viewY := 7, viewWidth := 16, viewHeight := 1
      patches := [⟨0, 0, 1, 1, [[⟨1, .half⟩]]⟩, ⟨12, 0, 1, 1, [[⟨1, .none⟩]]⟩] }
  let g : Frame :=
    { seq := 2, viewX := 5, viewY := 7, viewWidth := 16, viewHeight := 1
      patches := [⟨0, 0, 1, 1, [[]]⟩] }
  have hsheet : sheet.BuiltFor s.side := (SpriteSheet.builtFor_ofSprite 4).insert 1 _
  have himage : sheet.imageOf 1 .none ≠ none := by
    rw [SpriteSheet.imageOf_insert, if_pos rfl]
    exact Option.some_ne_none _
  have hf : f.WorldSafe s 16 1 :=
    ⟨rfl, rfl, .of_inside ⟨by decide, by decide, by decide⟩ (by decide) (by decide) (by decide)
      (by decide) (by decide) (by decide)⟩
  have hg : g.WorldSafe s 16 1 :=
    ⟨rfl, rfl, .of_inside ⟨by decide, by decide, by decide⟩ (by decide) (by decide) (by decide)
      (by decide) (by decide) (by decide)⟩
  obtain ⟨v₀, v, v', j, cells, hstart, hrun, hboard, hpatcher, hmarks, htick, hj, hframe,
    hwindow, -⟩ := exists_two_drawn (s := s) rfl (by decide) hsheet rfl hf.viewSafe hg.viewSafe rfl
    rfl (by decide) (by decide)
  have hframes := forall_of_two hf hg
  have hc := ((worldHolds_ofSettings rfl hsheet hstart).run hsheet rfl hframes hrun).configured
  obtain ⟨k, overlay, painted, stats, p, hk, -, hoverlay, -, -, -, hfull, hsurface⟩ :=
    world_drawn_eq_full_redraw rfl hsheet hframes hstart hrun htick
  cases hj.symm.trans hk
  have hshows : (f.firstScene s.side).window.Shows s.side s.surfaceWidth s.surfaceHeight 12 0 := by
    decide
  have hstack : (f.firstScene s.side).stackAt 12 0 = [⟨1, .none⟩] :=
    (Scene.stackAt_insertAll (by decide) (by decide)).trans (by decide)
  have hcell := Scene.worldBoard_of_shows _ hshows
  rw [hstack] at hcell
  have hsquares : DirtyGrid.ForSprite s.side ⟨20, 20, ∅⟩ := ⟨rfl, rfl⟩
  have hout : ¬ j.scope.Covers s.side 12 0 := by
    rw [job_covers_iff hc hj (hframe ▸ hwindow ▸ hg.safe) (hframe ▸ rfl) (by decide) (by decide),
      hmarks, hpatcher, hframe, hwindow, Patcher.marked_congr (hsquares.agree hc.dirty)]
    exact not_or.2 ⟨Std.HashSet.not_mem_empty, by decide⟩
  exact ⟨s, sheet, f, g, v₀, v, v', cells, rfl, hsheet, himage, hf, hg, by decide, hstart,
    hrun, htick, j, overlay, stats, p, hj, hoverlay, ⟨⟨_, hboard, hcell⟩, fun hin => hout hin.2⟩,
    hfull, hsurface⟩

end Viewer

end TileViewer
