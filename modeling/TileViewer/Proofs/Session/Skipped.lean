import TileViewer.Proofs.Session.Arrival
import TileViewer.Proofs.Session.Follow
import TileViewer.Proofs.Session.InReach
import TileViewer.Proofs.Session.Moves

/-!
Skipped frames in the follow view. Marks are counted from the corner of the window in which they
were made, so those of a frame that was not painted need not fall on the same tiles in the window
that is.
-/
namespace TileViewer.Viewer

variable {s : ViewerSettings} {sheet : SpriteSheet} {v v' : Viewer} {before : Option Shown}

/-- The first frame of all comes, is painted, and the step to it is shown. -/
def opening (f : Frame) : List Event := [.message (.frame f), .tick 0, .tick 0]

/-- Where a follow view stands after its opening. -/
structure Opened (s : ViewerSettings) (E : Envelope) (f : Frame) (v : Viewer) : Prop where
  inReach : v.InReach E
  view : v.view = .follow
  queue : v.queue = { cursor := some (f.seq + 1) }
  steps : v.camera.steps = []
  tiles : v.tiles = TileStore.insertAll {} (Patcher.writes f)
  patcher : v.patcher = ⟨s.side, some (f.viewX, f.viewY)⟩
  marks : v.dirty.marks = ∅
  quiet : v.Quiet s

theorem exists_opened {E : Envelope} {f : Frame} {window : Window} (hview : s.view = .follow)
    (hsheet : sheet.BuiltFor s.side) (htracked : s.tracked = none) (hsprite : s.side = E.sprite)
    (hwidth : s.surfaceWidth = E.width) (hheight : s.surfaceHeight = E.height)
    (hf : f.InReach E.reach) (hpass : Passable f)
    (hwindow : Window.ofFrame .follow f s.surfaceWidth s.surfaceHeight s.side = .ok window) :
    ∃ (v₀ w u v : Viewer) (cells : Nat), ofSettings s sheet = .ok v₀ ∧
      v₀.step (.message (.frame f)) = .ok w ∧
      w.tick 0 = .ok (.drawn f.seq cells, u) ∧ u.tick 0 = .ok (.stepped 0, v) ∧
      v₀.run (opening f) = .ok v ∧ v.Opened s E f ∧
      v₀.shownRun none (opening f) = some (window,
        Scene.worldBoard ⟨window, TileStore.insertAll {} (Patcher.writes f), s.side, false⟩
          (window.sizePx s.side).1 (window.sizePx s.side).2) := by
  obtain ⟨v₀, hstart, hv₀⟩ :=
    InReach.gives_ofSettings hsprite hwidth hheight (by simp [htracked]) sheet
  obtain ⟨w, hrun, hsize, hpop, -, hcamera, hquiet⟩ := run_first hstart f hpass
  obtain ⟨w', hstep, hrest⟩ := run_cons_eq_ok hrun
  cases hrest
  have hrests : v₀.Rests w := by
    cases hstep
    exact rests_ingest _ _
  have hw : w.InReach E := by
    cases hstep
    exact hv₀.ingest ⟨hf, hpass⟩
  have hc := (configured_ofSettings hsheet hstart).rests hrests
  have hfollow : w.view = .follow := hc.view.trans hview
  -- The frame is painted.
  obtain ⟨⟨out, u⟩, htick, hu⟩ := hw.gives_tick 0
  obtain ⟨cells, target, n, rfl, hretarget, hqueue, hpacer⟩ :=
    tick_paints hfollow (by rw [hcamera]) hpop (by rw [hsize]; rfl) htick
  rw [hcamera] at hretarget
  obtain ⟨rfl, hglide⟩ := Prod.mk.inj (Except.ok.inj hretarget)
  obtain ⟨j, hj, htook, hdirty⟩ := took_of_drawn htick
  have hframe := frame_eq_of_pop hpop hj
  -- Then its step is shown.
  obtain ⟨⟨out, v⟩, htick', hv⟩ := hu.gives_tick 0
  obtain ⟨rfl, hcamera', hqueue'⟩ := tick_shows (htook.view.trans hfollow)
    (show u.camera.steps = [target] by rw [← hglide]) (by rw [hpacer]; rfl) htick'
  have hrests' : u.Rests v := by
    cases ticked_tick htick' with
    | rested hr => exact hr
  have htiles : j.tiles = TileStore.insertAll {} (Patcher.writes f) := by
    obtain ⟨dirty, numbers, -, -, rfl⟩ := ofSettings_eq_ok hstart
    rw [job_tiles hj, hframe, hrests.tiles]
  have hjob : j.window = window := by
    have hwindow' := hc.job_window hj
    rw [hview, hframe] at hwindow'
    exact Except.ok.inj (hwindow'.symm.trans hwindow)
  refine ⟨v₀, w, u, v, cells, hstart, hstep, htick, htick', ?_, ⟨hv, ?_, ?_, ?_, ?_, ?_, ?_, ?_⟩,
    ?_⟩
  · rw [opening, run_cons_of_step hstep, run_cons_of_step (step_tick_of_tick htick),
      run_cons_of_step (step_tick_of_tick htick')]
    rfl
  · rw [hrests'.view, htook.view, hfollow]
  · rw [hqueue', hqueue]
  · rw [hcamera']
  · rw [hrests'.tiles, htook.tiles, htiles]
  · rw [hrests'.patcher, htook.patcher, hframe, ← hc.patcher]
  · rw [hrests'.dirty, hdirty]
    rfl
  · exact (hquiet.tick htick).tick htick'
  · simp only [opening, shownRun, hstep, step_tick_of_tick htick, step_tick_of_tick htick',
      shownAfter_of_not_drawn htick' (by simp)]
    simp only [shownAfter, htick, hj, hc.sprite, Job.shown, Job.scene, hjob, htiles]
    rfl

/-- Frames that come in their order wait after the first one of all. -/
theorem Opened.run_frames {E : Envelope} {f : Frame} {fs : List Frame} (h : v.Opened s E f)
    (hpass : Passable f) (hasc : Ascending (f :: fs))
    (hreach : ∀ k ∈ fs, k.InReach E.reach ∧ Passable k) :
    ∃ w, v.run (fs.map fun k => .message (.frame k)) = .ok w ∧ w.InReach E ∧ v.Rests w ∧
      w.camera = v.camera ∧ w.Quiet s ∧ w.queue.ready = fs ∧ w.queue.size = fs.length := by
  rw [Ascending, List.pairwise_cons] at hasc
  have hfresh := FrameQueue.fresh_of_ascending (q := v.queue) (by rw [h.queue]) hasc.2
  obtain ⟨w, hrun, hqueue, hrests, hcamera, hnumbers, htracked, -⟩ := Viewer.run_frames hfresh
  have hevents : ∀ e ∈ fs.map fun k => Event.message (.frame k), e.InReach E.reach := by
    simpa [Event.InReach] using hreach
  obtain ⟨w', hrun', hw⟩ := h.inReach.gives_run hevents
  cases hrun.symm.trans hrun'
  have hle : ∀ k ∈ fs, f.seq + 1 ≤ k.seq := by
    intro k hk
    rw [← UInt64.not_lt, FrameQueue.lt_add_one_iff hpass, UInt64.not_le]
    exact hasc.1 k hk
  obtain ⟨hpending, hready⟩ := FrameQueue.pushAll_of_ascending (q := v.queue) (by rw [h.queue])
    (by rw [h.queue]) hasc.2 hle
  rw [← hqueue] at hpending hready
  refine ⟨w, hrun, hw, hrests, hcamera, ?_, hready, congrArg List.length hpending⟩
  exact ⟨hnumbers ▸ h.quiet.waiting, hnumbers ▸ h.quiet.live, htracked.trans h.quiet.tracked⟩

/-- The frame that is painted after a skipped one repaints what the two of them mark, each in its
own window. -/
theorem Opened.exists_drawn_after_skip {E : Envelope} {f g h : Frame} {fs : List Frame}
    {squares : DirtyGrid} (hopened : v.Opened s E f) (hholds : v.FollowHolds s sheet before)
    (hsheet : sheet.BuiltFor s.side) (hview : s.view = .follow)
    (hsquares : squares.ForSprite s.side) (hpass : Passable f)
    (hasc : Ascending (f :: g :: h :: fs))
    (hreach : ∀ k ∈ g :: h :: fs, k.InReach E.reach ∧ Passable k)
    (hsafe : ∀ k ∈ g :: h :: fs, k.FollowSafe s)
    (hskip : Pacing.skips (fs.length + 2) g.full = true)
    (hdraw : Pacing.skips (fs.length + 1) h.full = false) (hfull : h.full = false) :
    ∃ (u w w' : Viewer) (window : Window) (j : Job) (cells : Nat),
      v.run ((g :: h :: fs).map fun k => .message (.frame k)) = .ok u ∧
      u.tick 100 = .ok (.skipped g.seq, w) ∧ w.tick 200 = .ok (.drawn h.seq cells, w') ∧
      Window.ofFrame .follow g s.surfaceWidth s.surfaceHeight s.side = .ok window ∧
      w.job = .ok (some j) ∧ j.frame = h ∧
      Window.ofFrame .follow h s.surfaceWidth s.surfaceHeight s.side = .ok j.window ∧
      j.tiles = TileStore.insertAll {}
        (Patcher.writes f ++ Patcher.writes g ++ Patcher.writes h) ∧
      w.overlayOf h = .ok ⟨h.creatures, [], h.seq, s.tracked⟩ ∧
      ∀ c r : Nat, c * s.side.toNat < 2 ^ 31 → r * s.side.toNat < 2 ^ 31 →
        (j.scope.Covers s.side c r ↔
          Patcher.Marked ⟨s.side, some (f.viewX, f.viewY)⟩ g window squares
            (DirtyGrid.cellKey c r) ∨
          Patcher.Marked ⟨s.side, some (g.viewX, g.viewY)⟩ h j.window squares
            (DirtyGrid.cellKey c r)) := by
  obtain ⟨u, hrun, hu, hrests, hcamera, hquiet, hready, hsize⟩ :=
    hopened.run_frames hpass hasc hreach
  obtain ⟨queue, hpop, hpending, hready', -⟩ :=
    FrameQueue.pop_of_ready_cons hready (hreach g (by simp)).2
  obtain ⟨queue', hpop', -⟩ := FrameQueue.pop_of_ready_cons hready' (hreach h (by simp)).2
  have hholds₁ := hholds.run hsheet hview (fun k hk => hsafe k (by simpa using hk)) hrun
  -- The first frame is skipped, and its marks are kept.
  obtain ⟨⟨out, w⟩, htick, hw⟩ := hu.gives_tick 100
  have hfollow : u.view = .follow := hrests.view.trans hopened.view
  have hsteps : u.camera.steps = [] := hcamera ▸ hopened.steps
  obtain ⟨rfl, hcamera', rfl⟩ :=
    tick_skips hfollow hsteps hpop (by rw [hsize]; exact hskip) htick
  obtain ⟨j₁, hj₁, htook, hdirty⟩ := took_of_skipped htick
  have hframe₁ := frame_eq_of_pop hpop hj₁
  have hholds₂ := hholds₁.step hsheet hview (by simp) (step_tick_of_tick htick)
  -- The second one is painted.
  obtain ⟨⟨out, w'⟩, htick', -⟩ := hw.gives_tick 200
  obtain ⟨cells, target, n, rfl, -⟩ := tick_paints (htook.view.trans hfollow)
    (hcamera' ▸ hsteps) hpop' (by rw [FrameQueue.size, hpending]; exact hdraw) htick'
  obtain ⟨j, hj, -⟩ := took_of_drawn htick'
  have hframe := frame_eq_of_pop hpop' hj
  have hwindow := hholds₁.configured.job_window hj₁
  have hwindow' := hholds₂.configured.job_window hj
  rw [hview, hframe₁] at hwindow
  rw [hview, hframe] at hwindow'
  refine ⟨u, w, w', j₁.window, j, cells, hrun, htick, htick', hwindow, hj, hframe, hwindow', ?_, ?_,
    ?_⟩
  · rw [job_tiles hj, htook.tiles, job_tiles hj₁, hrests.tiles, hopened.tiles, hframe, hframe₁,
      TileStore.insertAll_append, TileStore.insertAll_append]
  · exact (hquiet.tick htick).overlayOf h
  · intro c r hc hr
    have hsafe₁ := hholds₁.job_safe hview hj₁
    have hpatcher : u.patcher = ⟨s.side, some (f.viewX, f.viewY)⟩ :=
      hrests.patcher.trans hopened.patcher
    have hpatcher' : w.patcher = ⟨s.side, some (g.viewX, g.viewY)⟩ := by
      rw [htook.patcher, hpatcher, hframe₁]
    have hnone : u.dirty.marks = ∅ := by
      rw [hrests.dirty, hopened.marks]
    have hkept := (absorbed_marks hholds₁.configured hj₁ hsafe₁ hdirty).2
    rw [job_covers_iff hholds₂.configured hj (hholds₂.job_safe hview hj) (hframe ▸ hfull) hc hr,
      hkept, mem_job_marks hholds₁.configured hj₁ hsafe₁, hnone, hpatcher, hpatcher', hframe,
      hframe₁, Patcher.marked_congr (hsquares.agree hholds₁.configured.dirty),
      Patcher.marked_congr (hsquares.agree hholds₂.configured.dirty),
      or_iff_right Std.HashSet.not_mem_empty]

theorem mem_of_mem_opening {f k : Frame} {fs : List Frame} {now : UInt64}
    (h : .message (.frame k) ∈
      opening f ++ (fs.map fun k => Event.message (.frame k)) ++ [.tick now]) : k ∈ f :: fs := by
  simpa [opening] using h

/-- A view is opened by one frame, skips the next and paints the one after that, which has the
window of the first. Each cell of it that the last two do not mark is left as the first one painted
it. -/
theorem exists_left_after_skip {E : Envelope} {f g h : Frame} {fs : List Frame}
    {squares : DirtyGrid} {window window' : Window} (hview : s.view = .follow)
    (hsheet : sheet.BuiltFor s.side) (htracked : s.tracked = none) (hsprite : s.side = E.sprite)
    (hwidth : s.surfaceWidth = E.width) (hheight : s.surfaceHeight = E.height)
    (hsquares : squares.ForSprite s.side) (hasc : Ascending (f :: g :: h :: fs))
    (hreach : ∀ k ∈ f :: g :: h :: fs, k.InReach E.reach ∧ Passable k)
    (hsafe : ∀ k ∈ f :: g :: h :: fs, k.FollowSafe s)
    (hfirst : Window.ofFrame .follow f s.surfaceWidth s.surfaceHeight s.side = .ok window)
    (hsecond : Window.ofFrame .follow g s.surfaceWidth s.surfaceHeight s.side = .ok window')
    (hthird : Window.ofFrame .follow h s.surfaceWidth s.surfaceHeight s.side = .ok window)
    (hskip : Pacing.skips (fs.length + 2) g.full = true)
    (hdraw : Pacing.skips (fs.length + 1) h.full = false) (hfull : h.full = false) :
    ∃ (v₀ u v v' : Viewer) (j : Job) (cells : Nat), ofSettings s sheet = .ok v₀ ∧
      v₀.run (opening f ++ (g :: h :: fs).map fun k => .message (.frame k)) = .ok u ∧
      u.tick 100 = .ok (.skipped g.seq, v) ∧ v.tick 200 = .ok (.drawn h.seq cells, v') ∧
      v.job = .ok (some j) ∧ j.frame = h ∧ j.window = window ∧
      j.tiles = TileStore.insertAll {}
        (Patcher.writes f ++ Patcher.writes g ++ Patcher.writes h) ∧
      v.overlayOf h = .ok ⟨h.creatures, [], h.seq, none⟩ ∧
      ∀ c r : Nat, window.Shows s.side (window.sizePx s.side).1 (window.sizePx s.side).2 c r →
        ¬ Patcher.Marked ⟨s.side, some (f.viewX, f.viewY)⟩ g window' squares
          (DirtyGrid.cellKey c r) →
        ¬ Patcher.Marked ⟨s.side, some (g.viewX, g.viewY)⟩ h window squares
          (DirtyGrid.cellKey c r) →
        j.Leaves s.side (v₀.shownRun none (opening f ++
          ((g :: h :: fs).map fun k => .message (.frame k)) ++ [.tick 100])) c r
          (Scene.stackAt
            ⟨window, TileStore.insertAll {} (Patcher.writes f), s.side, false⟩ c r) := by
  obtain ⟨hf, hpass⟩ := hreach f List.mem_cons_self
  obtain ⟨v₀, -, -, v₁, -, hstart, -, -, -, hopen, hopened, hshown⟩ :=
    exists_opened hview hsheet htracked hsprite hwidth hheight hf hpass hfirst
  have hholds := (followHolds_ofSettings hview hsheet hstart).run hsheet hview
    (fun k hk => hsafe k (by simp_all [opening])) hopen
  obtain ⟨u, v, v', _, j, cells, hrun, hskipped, hdrawn, hother, hj, hframe, hwindow, htiles,
    hoverlay, hcovers⟩ := hopened.exists_drawn_after_skip hholds hsheet hview hsquares hpass hasc
      (List.forall_mem_cons.1 hreach).2 (List.forall_mem_cons.1 hsafe).2 hskip hdraw hfull
  cases hother.symm.trans hsecond
  cases hwindow.symm.trans hthird
  have hrun' : v₀.run (opening f ++ (g :: h :: fs).map fun k => .message (.frame k)) = .ok u := by
    rw [run_append, hopen]
    exact hrun
  refine ⟨v₀, u, v, v', j, cells, hstart, hrun', hskipped, hdrawn, hj, hframe, rfl, htiles,
    htracked ▸ hoverlay, ?_⟩
  intro c r hshows hsecond hthird
  have hfit := (hsafe h (by simp) _ hwindow).fits
  refine ⟨⟨_, ?_, Scene.worldBoard_of_shows _ hshows⟩, ?_⟩
  · rw [shownRun_append hrun', shownRun_append hopen, shownRun_frames, hshown]
    simp only [shownRun, step_tick_of_tick hskipped,
      shownAfter_of_not_drawn hskipped (by simp)]
  · rw [hcovers c r (hfit.column_lt (Nat.le_of_lt hshows.1.1))
      (hfit.row_lt (Nat.le_of_lt hshows.2.1))]
    exact not_or.2 ⟨hsecond, hthird⟩

/-- In every run of the follow view whose frames stay inside the ranges, a frame that has been
painted is on the picture as a new painter would show it, repainting every cell of the same window
from the same tiles and under the same overlay, exactly when each cell that the pass has left out
still looks, where the overlay does not hide it, as it did when it was last painted. -/
theorem follow_drawn_eq_full_redraw_iff {events : List Event} {v₀ : Viewer} {now seq : UInt64}
    {cells : Nat} (hview : s.view = .follow) (hsheet : sheet.BuiltFor s.side)
    (hframes : ∀ f, .message (.frame f) ∈ events → f.FollowSafe s)
    (hstart : ofSettings s sheet = .ok v₀) (hrun : v₀.run events = .ok v)
    (htick : v.tick now = .ok (.drawn seq cells, v')) :
    ∃ j overlay painted picture full stats p, v.job = .ok (some j) ∧ j.frame.seq = seq ∧
      v.overlayOf j.frame = .ok overlay ∧
      v.painter.draw j.window j.tiles j.scope overlay = .ok (painted, v'.painter) ∧
      v'.lastWindow = some j.window ∧ v'.tiles = j.tiles ∧
      v'.painter.canvas.picture? = some picture ∧
      (Painter.ofView s.view s.surfaceWidth s.surfaceHeight s.sprite sheet).draw j.window v'.tiles
        .all overlay = .ok (stats, p) ∧
      p.canvas.picture? = some full ∧
      (picture = full ↔ ∀ c r old, j.Leaves s.side (v₀.shownRun none events) c r old →
        ∀ dx < s.side.toNat, ∀ dy < s.side.toNat,
          overlay.Hides .follow j.window s.side (c * s.side.toNat + dx) (r * s.side.toNat + dy) ∨
          sheet.stackColor old Palette.playArea dx dy =
            sheet.stackColor ((j.scene s.side).stackAt c r) Palette.playArea dx dy) := by
  have h := (followHolds_ofSettings hview hsheet hstart).run hsheet hview hframes hrun
  cases ticked_tick htick with
  | rested _ hout => exact absurd rfl (hout seq cells)
  | @drawn j _ overlay painted hj ht hdirty hoverlay hpaint hpending =>
    obtain ⟨picture, full, stats, p, hpicture, hfull, hp, hiff⟩ :=
      (h.drawn hsheet hview hj ht hdirty hpaint hpending).2
    exact ⟨j, overlay, painted, picture, full, stats, p, hj, rfl, hoverlay, hpaint, ht.lastWindow,
      ht.tiles, hpicture, by rw [hview, ht.tiles]; exact hfull, hp, hiff⟩

/-- A red tile is painted, and a skipped frame of a view ten tiles further left makes it blue. Nine
more frames of the first view wait behind the next one, which is painted: the tile is still red. -/
theorem follow_skipped_tile_stays :
    ∃ (s : ViewerSettings) (sheet : SpriteSheet) (f g h : Frame) (fs : List Frame)
      (v₀ u v v' : Viewer) (cells : Nat),
      s.view = .follow ∧ sheet.BuiltFor s.side ∧ (∀ k ∈ f :: g :: h :: fs, k.FollowSafe s) ∧
      ofSettings s sheet = .ok v₀ ∧
      v₀.run (opening f ++ (g :: h :: fs).map fun k => .message (.frame k)) = .ok u ∧
      u.tick 100 = .ok (.skipped g.seq, v) ∧ v.tick 200 = .ok (.drawn h.seq cells, v') ∧
      ∃ j overlay picture full stats p, v.job = .ok (some j) ∧ v.overlayOf j.frame = .ok overlay ∧
        v'.painter.canvas.picture? = some picture ∧
        (Painter.ofView s.view s.surfaceWidth s.surfaceHeight s.sprite sheet).draw j.window v'.tiles
          .all overlay = .ok (stats, p) ∧
        p.canvas.picture? = some full ∧ picture ≠ full := by
  let s : ViewerSettings :=
    { view := .follow, sprite := 16, surfaceWidth := 16, surfaceHeight := 16 }
  let red : Color := ⟨255, 0, 0, 255⟩
  let blue : Color := ⟨0, 0, 255, 255⟩
  let sheet : SpriteSheet :=
    ((SpriteSheet.ofSprite 16).insert 1 (.filled 16 16 red)).insert 2 (.filled 16 16 blue)
  let frame (n : Nat) (x : Int32) (patches : List Patch) : Frame :=
    { seq := .ofNat n, viewX := x, viewY := 100, viewWidth := 12, viewHeight := 12, patches }
  let f := frame 1 100 [⟨6, 6, 1, 1, [[⟨1, .none⟩]]⟩]
  let g := frame 2 90 [⟨16, 6, 1, 1, [[⟨2, .none⟩]]⟩]
  let h := frame 3 100 []
  let fs := (List.range 9).map fun i => frame (i + 4) 100 []
  let E : Envelope := ⟨16, 16, 16, 1000, by decide, by decide, by decide, by decide, by decide⟩
  have hsheet : sheet.BuiltFor s.side := ((SpriteSheet.builtFor_ofSprite 16).insert 1 _).insert 2 _
  have hred : sheet.imageOf 1 .none = some (.filled 16 16 red) := by
    simp only [sheet, SpriteSheet.imageOf_insert]
    rfl
  have hblue : sheet.imageOf 2 .none = some (.filled 16 16 blue) := by
    simp only [sheet, SpriteSheet.imageOf_insert]
    rfl
  have hside : s.side = 16 := by decide
  have hwindow (n : Nat) (patches : List Patch) :
      Window.ofFrame .follow (frame n 100 patches) s.surfaceWidth s.surfaceHeight s.side =
        .ok ⟨85, 85, 43, 43⟩ := by
    change Window.ofFrame .follow (frame 1 100 []) s.surfaceWidth s.surfaceHeight s.side = _
    simp only [hside, s, frame]
    rfl
  have hwindow' : Window.ofFrame .follow g s.surfaceWidth s.surfaceHeight s.side =
      .ok ⟨75, 85, 43, 43⟩ := by
    simp only [hside, s, g, frame]
    rfl
  have hf : f.FollowSafe s := .of_window (hwindow 1 _) <| .of_inside
    ⟨by decide, by decide, by decide⟩ (by decide) (by decide) (by decide) (by decide) (by decide)
      (by decide)
  have hg : g.FollowSafe s := .of_window hwindow' <| .of_inside
    ⟨by decide, by decide, by decide⟩ (by decide) (by decide) (by decide) (by decide) (by decide)
      (by decide)
  have hlater (n : Nat) : (frame n 100 []).FollowSafe s := .of_window (hwindow n []) <| .of_inside
    ⟨nofun, nofun, nofun⟩ (by decide) (by decide) (by decide) (by decide) (by decide)
      (by decide)
  have hsafe : ∀ k ∈ f :: g :: h :: fs, k.FollowSafe s := by
    simp only [List.forall_mem_cons]
    refine ⟨hf, hg, hlater 3, ?_⟩
    intro k hk
    obtain ⟨i, -, rfl⟩ := List.mem_map.1 hk
    exact hlater _
  have hreach : ∀ k ∈ f :: g :: h :: fs, k.InReach E.reach ∧ Passable k := by
    have hall : ∀ k ∈ f :: g :: h :: fs, Within 1000 k.viewX.toInt ∧ Within 1000 k.viewY.toInt ∧
        k.viewWidth ≤ FrameMessage.maxViewSide ∧ k.viewHeight ≤ FrameMessage.maxViewSide ∧
        k.creatures = [] ∧ Passable k := by decide +kernel
    intro k hk
    obtain ⟨hx, hy, hwidth, hheight, hnone, hpass⟩ := hall k hk
    exact ⟨⟨hx, hy, hwidth, hheight, by simp [hnone]⟩, hpass⟩
  have hasc : Ascending (f :: g :: h :: fs) := by decide +kernel
  have hsquares : DirtyGrid.ForSprite s.side ⟨80, 80, ∅⟩ := ⟨rfl, rfl⟩
  obtain ⟨v₀, u, v, v', j, cells, hstart, hrun, hskip, hdraw, hj, hframe, hjob, htiles, hquiet,
    hleft⟩ := exists_left_after_skip (E := E) rfl hsheet rfl rfl rfl rfl hsquares hasc hreach hsafe
      (hwindow 1 _) hwindow' (hwindow 3 _) rfl rfl rfl
  have hleaves := hleft 21 21 (by decide) (by decide) (by decide)
  have hend : v₀.run (opening f ++ ((g :: h :: fs).map fun k => .message (.frame k)) ++
      [.tick 100]) = .ok v := by
    rw [run_append, hrun]
    exact run_cons_of_step (step_tick_of_tick hskip) []
  obtain ⟨k, overlay, painted, picture, full, stats, p, hk, -, hoverlay, -, -, -, hpicture, hfull,
    hp, hiff⟩ := follow_drawn_eq_full_redraw_iff rfl hsheet
      (fun k hk => hsafe k (mem_of_mem_opening hk)) hstart hend hdraw
  cases hj.symm.trans hk
  refine ⟨s, sheet, f, g, h, fs, v₀, u, v, v', cells, rfl, hsheet, hsafe, hstart, hrun, hskip,
    hdraw, j, overlay, picture, full, stats, p, hj, hoverlay, hpicture, hfull, hp, ?_⟩
  have hold : Scene.stackAt ⟨⟨85, 85, 43, 43⟩, TileStore.insertAll {} (Patcher.writes f), s.side,
      false⟩ 21 21 = [⟨1, .none⟩] :=
    (Scene.stackAt_insertAll (by decide) (by decide)).trans (by decide)
  have hnew : (j.scene s.side).stackAt 21 21 = [⟨2, .none⟩] := by
    rw [Job.scene, hjob, htiles]
    exact (Scene.stackAt_insertAll (by decide) (by decide)).trans (by decide)
  rw [hold] at hleaves
  intro heq
  have hpixel := hiff.1 heq 21 21 _ hleaves 0 (by decide) 0 (by decide)
  rw [hnew] at hpixel
  rcases hpixel with hides | hcolor
  · rw [hframe, hquiet] at hoverlay
    cases hoverlay
    exact Overlay.not_hides_empty _ (w := 688) (h := 688) (by decide) (by decide) (by decide) hides
  · rw [SpriteSheet.stackColor_of_filled hred rfl (by decide) (by decide),
      SpriteSheet.stackColor_of_filled hblue rfl (by decide) (by decide)] at hcolor
    exact absurd hcolor (by decide)

end TileViewer.Viewer
