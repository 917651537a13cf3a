import TileViewer.Proofs.Session.Skipped

/-!
Follow views that skip frames only in the window their picture covers, or no frames at all. There
the marks of skipped frames fall on the right tiles, and repainting them is enough.
-/
namespace TileViewer.Viewer

variable {s : ViewerSettings} {sheet : SpriteSheet} {v v' : Viewer} {j : Job}
  {before : Option Shown}

/-- What the picture shows is up to date but for the marked squares. -/
def ShowsCurrent (s : ViewerSettings) (v : Viewer) (shown : Option Shown) : Prop :=
  ∀ w b, shown = some (w, b) →
    Scene.Current ⟨w, v.tiles, s.side, false⟩ (w.sizePx s.side).1 (w.sizePx s.side).2 v.dirty b

/-- Each frame that the run skips has the window that the picture covers. -/
def SkipsInPlace (v : Viewer) (before : Option Shown) : List Event → Prop
  | [] => True
  | e :: events =>
    (∀ now seq w j shown, e = .tick now → v.tick now = .ok (.skipped seq, w) →
      v.job = .ok (some j) → before = some shown → shown.1 = j.window) ∧
    ∀ w, v.step e = .ok w → w.SkipsInPlace (v.shownAfter before e) events

/-- The run paints each frame that it applies. -/
def NeverSkips (v : Viewer) : List Event → Prop
  | [] => True
  | e :: events =>
    (∀ now seq w, e = .tick now → v.tick now ≠ .ok (.skipped seq, w)) ∧
    ∀ w, v.step e = .ok w → w.NeverSkips events

theorem NeverSkips.cons {e : Event} {events : List Event} {w : Viewer} (hstep : v.step e = .ok w)
    (he : ∀ now seq w', e = .tick now → v.tick now ≠ .ok (.skipped seq, w'))
    (h : w.NeverSkips events) : v.NeverSkips (e :: events) := by
  refine ⟨he, fun w' hw' => ?_⟩
  cases hstep.symm.trans hw'
  exact h

theorem NeverSkips.tick {events : List Event} {w : Viewer} {now : UInt64} {out : Outcome}
    (htick : v.tick now = .ok (out, w)) (hout : ∀ seq, out ≠ .skipped seq)
    (h : w.NeverSkips events) : v.NeverSkips (.tick now :: events) := by
  refine .cons (step_tick_of_tick htick) ?_ h
  rintro now' seq w' ⟨⟩ hskipped
  cases htick.symm.trans hskipped
  exact hout seq rfl

theorem NeverSkips.skipsInPlace {events : List Event} (h : v.NeverSkips events)
    (before : Option Shown) : v.SkipsInPlace before events := by
  induction events generalizing v before with
  | nil => trivial
  | cons e events ih =>
    refine ⟨?_, fun w hstep => ih (h.2 w hstep) _⟩
    intro now seq w j shown he htick
    exact absurd htick (h.1 now seq w he)

theorem ShowsCurrent.rests (h : v.ShowsCurrent s before) (hr : v.Rests v') :
    v'.ShowsCurrent s before := by
  intro w b hb
  rw [hr.tiles, hr.dirty]
  exact h w b hb

theorem ShowsCurrent.job (h : v.ShowsCurrent s before) (hf : v.FollowHolds s sheet before)
    (hview : s.view = .follow) (hj : v.job = .ok (some j)) {b : Board}
    (hb : before = some (j.window, b)) :
    (j.scene s.side).Current (j.window.sizePx s.side).1 (j.window.sizePx s.side).2 j.marks b := by
  have hsafe := hf.job_safe hview hj
  have happlied := job_applied hf.configured hj hsafe
  have hcurrent := h j.window b hb
  exact Scene.Current.apply_same hsafe happlied hcurrent

theorem ShowsCurrent.skipped (h : v.ShowsCurrent s before) (hf : v.FollowHolds s sheet before)
    (hview : s.view = .follow) (hj : v.job = .ok (some j)) (htook : v.Took j v')
    (hdirty : v'.dirty = v.dirty.cleared.absorb j.marks)
    (hplace : ∀ shown, before = some shown → shown.1 = j.window) : v'.ShowsCurrent s before := by
  intro w b hb
  cases hplace _ hb
  have hmarks := absorbed_marks hf.configured hj (hf.job_safe hview hj) hdirty
  rw [htook.tiles]
  exact (h.job hf hview hj hb).mono fun k => (hmarks.2 k).2

/-- The pass that paints the job leaves the board of the world. -/
theorem ShowsCurrent.shown_eq (h : v.ShowsCurrent s before) (hf : v.FollowHolds s sheet before)
    (hview : s.view = .follow) (hj : v.job = .ok (some j)) :
    (j.shown s.side before).2 =
      (j.scene s.side).worldBoard (j.window.sizePx s.side).1 (j.window.sizePx s.side).2 := by
  have hsafe := hf.job_safe hview hj
  cases before with
  | none => rfl
  | some shown =>
    obtain ⟨w, b⟩ := shown
    unfold Job.shown Job.left
    by_cases hw : w = j.window
    · subst hw
      have hcurrent := h.job hf hview hj rfl
      simp only [Option.bind_some, if_true, Scene.nextBoard]
      unfold Job.scope
      split
      · exact Scene.repaint_all hcurrent
      · have hsize := (job_applied hf.configured hj hsafe).sameSize
        exact Scene.repaint_marked hsafe.fits (hf.configured.dirty.sameSize hsize) hcurrent
    · simp only [Option.bind_some, if_neg hw]
      rfl

theorem ShowsCurrent.step {e : Event} (h : v.ShowsCurrent s before)
    (hf : v.FollowHolds s sheet before) (hview : s.view = .follow)
    (hplace : ∀ now seq w j shown, e = .tick now → v.tick now = .ok (.skipped seq, w) →
      v.job = .ok (some j) → before = some shown → shown.1 = j.window)
    (hstep : v.step e = .ok v') : v'.ShowsCurrent s (v.shownAfter before e) := by
  cases e with
  | message m =>
    cases hstep
    exact h.rests (rests_ingest v m)
  | reset =>
    cases hstep
    intro w b hb
    cases hb
  | tick now =>
    obtain ⟨out, htick⟩ := step_tick_eq_ok hstep
    cases ticked_tick htick with
    | rested hr hout _ =>
      rw [shownAfter_of_not_drawn htick hout]
      exact h.rests hr
    | skipped hj ht hdirty _ _ =>
      rw [shownAfter_of_not_drawn htick (by simp)]
      refine h.skipped hf hview hj ht hdirty ?_
      intro shown hs
      exact hplace now _ _ _ shown rfl htick hj hs
    | @drawn j _ _ _ hj ht _ _ _ _ =>
      simp only [shownAfter, htick, hj, hf.configured.sprite]
      intro w b hb
      obtain rfl : j.window = w := congrArg Prod.fst (Option.some.inj hb)
      have hboard : (j.shown s.side before).2 = b := congrArg Prod.snd (Option.some.inj hb)
      rw [ht.tiles, ← hboard, h.shown_eq hf hview hj]
      exact Scene.current_worldBoard

theorem ShowsCurrent.run {events : List Event} (h : v.ShowsCurrent s before)
    (hf : v.FollowHolds s sheet before) (hsheet : sheet.BuiltFor s.side) (hview : s.view = .follow)
    (hframes : ∀ f, .message (.frame f) ∈ events → f.FollowSafe s)
    (hplace : v.SkipsInPlace before events) (hrun : v.run events = .ok v') :
    v'.ShowsCurrent s (v.shownRun before events) := by
  induction events generalizing v before with
  | nil =>
    cases hrun
    exact h
  | cons e events ih =>
    obtain ⟨w, hstep, hrun⟩ := run_cons_eq_ok hrun
    simp only [shownRun, hstep]
    have hf' := hf.step hsheet hview (fun f he => hframes f (he ▸ List.mem_cons_self)) hstep
    have h' := h.step hf hview hplace.1 hstep
    exact ih h' hf' (fun f hm => hframes f (List.mem_cons_of_mem _ hm)) (hplace.2 w hstep) hrun

/-- In every run of the follow view whose frames stay inside the ranges, and which skips frames
only in the window that the picture covers, a frame that has been painted is on the picture as a
new painter would show it. -/
theorem follow_in_place_eq_full_redraw {events : List Event} {v₀ : Viewer} {now seq : UInt64}
    {cells : Nat} (hview : s.view = .follow) (hsheet : sheet.BuiltFor s.side)
    (hframes : ∀ f, .message (.frame f) ∈ events → f.FollowSafe s)
    (hstart : ofSettings s sheet = .ok v₀) (hrun : v₀.run events = .ok v)
    (hplace : v₀.SkipsInPlace none events) (htick : v.tick now = .ok (.drawn seq cells, v')) :
    ∃ j overlay picture stats p, v.job = .ok (some j) ∧ j.frame.seq = seq ∧
      v.overlayOf j.frame = .ok overlay ∧ v'.lastWindow = some j.window ∧ v'.tiles = j.tiles ∧
      v'.painter.canvas.picture? = some picture ∧
      (Painter.ofView s.view s.surfaceWidth s.surfaceHeight s.sprite sheet).draw j.window v'.tiles
        .all overlay = .ok (stats, p) ∧
      p.canvas.picture? = some picture := by
  have hf := (followHolds_ofSettings hview hsheet hstart).run hsheet hview hframes hrun
  have hfirst : v₀.ShowsCurrent s none := by
    intro w b hb
    cases hb
  have h := hfirst.run (followHolds_ofSettings hview hsheet hstart) hsheet hview hframes hplace hrun
  cases ticked_tick htick with
  | rested _ hout => exact absurd rfl (hout seq cells)
  | @drawn j _ overlay painted hj ht hdirty hoverlay hpaint hpending =>
    obtain ⟨picture, full, stats, p, hpicture, hfull, hp, hiff⟩ :=
      (hf.drawn hsheet hview hj ht hdirty hpaint hpending).2
    -- A cell that the pass leaves has the stack of the world already.
    have hsame : picture = full := by
      refine hiff.2 ?_
      intro c r old hleaves dx _ dy _
      have hold := shown_of_leaves hleaves
      have hs := (Scene.worldBoard_ne_none_iff (j.scene s.side)).1
        (by rw [← h.shown_eq hf hview hj, hold]; exact Option.some_ne_none old)
      rw [h.shown_eq hf hview hj, Scene.worldBoard_of_shows _ hs] at hold
      cases hold
      exact .inr rfl
    refine ⟨j, overlay, picture, stats, p, hj, rfl, hoverlay, ht.lastWindow, ht.tiles, hpicture,
      ?_, hsame ▸ hp⟩
    rw [hview, ht.tiles]
    exact hfull

/-- In every run of the follow view whose frames stay inside the ranges, and which skips none of
them, a frame that has been painted is on the picture as a new painter would show it, repainting
every cell of the same window from the same tiles and under the same overlay. -/
theorem follow_unskipped_eq_full_redraw {events : List Event} {v₀ : Viewer} {now seq : UInt64}
    {cells : Nat} (hview : s.view = .follow) (hsheet : sheet.BuiltFor s.side)
    (hframes : ∀ f, .message (.frame f) ∈ events → f.FollowSafe s)
    (hstart : ofSettings s sheet = .ok v₀) (hrun : v₀.run events = .ok v)
    (hnever : v₀.NeverSkips events) (htick : v.tick now = .ok (.drawn seq cells, v')) :
    ∃ j overlay picture stats p, v.job = .ok (some j) ∧ j.frame.seq = seq ∧
      v.overlayOf j.frame = .ok overlay ∧ v'.lastWindow = some j.window ∧ v'.tiles = j.tiles ∧
      v'.painter.canvas.picture? = some picture ∧
      (Painter.ofView s.view s.surfaceWidth s.surfaceHeight s.sprite sheet).draw j.window v'.tiles
        .all overlay = .ok (stats, p) ∧
      p.canvas.picture? = some picture :=
  follow_in_place_eq_full_redraw hview hsheet hframes hstart hrun (hnever.skipsInPlace none) htick

/-- A view is opened by one frame and paints the next, which has the same window. Each cell of it
that the second frame does not mark is left as the first one painted it. -/
theorem exists_left_after_opening {E : Envelope} {f g : Frame} {squares : DirtyGrid}
    {window : Window} (hview : s.view = .follow) (hsheet : sheet.BuiltFor s.side)
    (htracked : s.tracked = none) (hsprite : s.side = E.sprite) (hwidth : s.surfaceWidth = E.width)
    (hheight : s.surfaceHeight = E.height) (hsquares : squares.ForSprite s.side)
    (hlt : f.seq < g.seq) (hreach : ∀ k ∈ [f, g], k.InReach E.reach ∧ Passable k)
    (hsafe : ∀ k ∈ [f, g], k.FollowSafe s)
    (hfirst : Window.ofFrame .follow f s.surfaceWidth s.surfaceHeight s.side = .ok window)
    (hsecond : Window.ofFrame .follow g s.surfaceWidth s.surfaceHeight s.side = .ok window)
    (hfull : g.full = false) :
    ∃ (v₀ v v' : Viewer) (j : Job) (cells : Nat), ofSettings s sheet = .ok v₀ ∧
      v₀.run (opening f ++ [.message (.frame g)]) = .ok v ∧
      v₀.NeverSkips (opening f ++ [.message (.frame g)]) ∧
      v.tick 100 = .ok (.drawn g.seq cells, v') ∧ v.job = .ok (some j) ∧
      ∀ c r : Nat, window.Shows s.side (window.sizePx s.side).1 (window.sizePx s.side).2 c r →
        ¬ Patcher.Marked ⟨s.side, some (f.viewX, f.viewY)⟩ g window squares
          (DirtyGrid.cellKey c r) →
        j.Leaves s.side (v₀.shownRun none (opening f ++ [.message (.frame g)])) c r
          (Scene.stackAt
            ⟨window, TileStore.insertAll {} (Patcher.writes f), s.side, false⟩ c r) := by
  obtain ⟨hf, hpass⟩ := hreach f List.mem_cons_self
  obtain ⟨v₀, w, u, v₁, cells₁, hstart, hstep, hdrawn₁, hstepped, hopen, hopened, hshown⟩ :=
    exists_opened hview hsheet htracked hsprite hwidth hheight hf hpass hfirst
  have hasc : Ascending [f, g] := by simpa [Ascending] using hlt
  obtain ⟨v, hrun, hv, hrests, hcamera, hquiet, hready, hsize⟩ :=
    hopened.run_frames hpass hasc (List.forall_mem_cons.1 hreach).2
  have hrun' : v₀.run (opening f ++ [.message (.frame g)]) = .ok v := by
    rw [run_append, hopen]
    exact hrun
  have hholds := (followHolds_ofSettings hview hsheet hstart).run hsheet hview
    (fun k hk => hsafe k (by simpa [opening] using hk)) hrun'
  obtain ⟨queue, hpop, -⟩ := FrameQueue.pop_of_ready_cons hready (hreach g (by simp)).2
  obtain ⟨⟨out, v'⟩, htick, -⟩ := hv.gives_tick 100
  obtain ⟨cells, target, n, rfl, -⟩ := tick_paints (hrests.view.trans hopened.view)
    (hcamera ▸ hopened.steps) hpop (by rw [hsize]; rfl) htick
  obtain ⟨j, hj, -⟩ := took_of_drawn htick
  have hframe := frame_eq_of_pop hpop hj
  have hwindow := hholds.configured.job_window hj
  rw [hview, hframe, hsecond] at hwindow
  cases hwindow
  have hnever : v₀.NeverSkips (opening f ++ [.message (.frame g)]) := by
    -- Of the two ticks one has painted a frame, the other shown a step.
    refine .cons hstep (by simp) (.tick hdrawn₁ (by simp) (.tick hstepped (by simp) ?_))
    exact .cons rfl (by simp) trivial
  refine ⟨v₀, v, v', j, cells, hstart, hrun', hnever, htick, hj, ?_⟩
  intro c r hshows hmarked
  have hfit := (hsafe g (by simp) _ hsecond).fits
  refine ⟨⟨_, ?_, Scene.worldBoard_of_shows _ hshows⟩, ?_⟩
  · rw [shownRun_append hopen, hshown]
    rfl
  · rw [job_covers_iff hholds.configured hj (hholds.job_safe hview hj) (hframe ▸ hfull)
      (hfit.column_lt (Nat.le_of_lt hshows.1.1)) (hfit.row_lt (Nat.le_of_lt hshows.2.1)),
      Patcher.marked_congr (hsquares.agree hholds.configured.dirty), hrests.dirty, hopened.marks,
      hrests.patcher, hopened.patcher, hframe]
    exact not_or.2 ⟨Std.HashSet.not_mem_empty, hmarked⟩

/-- Two frames are painted in one window. The second turns the tile of a cell; another tile, of the
first frame, is left by the second pass, and is on the picture all the same. -/
theorem follow_second_pass_eq_full_redraw :
    ∃ (s : ViewerSettings) (sheet : SpriteSheet) (f g : Frame) (v₀ v v' : Viewer) (cells : Nat),
      s.view = .follow ∧ sheet.BuiltFor s.side ∧ sheet.imageOf 1 .none ≠ none ∧
      f.FollowSafe s ∧ g.FollowSafe s ∧ g.patches ≠ [] ∧ ofSettings s sheet = .ok v₀ ∧
      v₀.run (opening f ++ [.message (.frame g)]) = .ok v ∧
      v₀.NeverSkips (opening f ++ [.message (.frame g)]) ∧
      v.tick 100 = .ok (.drawn g.seq cells, v') ∧
      ∃ j overlay picture stats p, v.job = .ok (some j) ∧ v.overlayOf j.frame = .ok overlay ∧
        j.Leaves s.side (v₀.shownRun none (opening f ++ [.message (.frame g)])) 31 31
          [⟨1, .none⟩] ∧
        v'.painter.canvas.picture? = some picture ∧
        (Painter.ofView s.view s.surfaceWidth s.surfaceHeight s.sprite sheet).draw j.window v'.tiles
          .all overlay = .ok (stats, p) ∧
        p.canvas.picture? = some picture := by
  let s : ViewerSettings :=
    { view := .follow, sprite := 16, surfaceWidth := 16, surfaceHeight := 16 }
  let sheet : SpriteSheet := (SpriteSheet.ofSprite 16).insert 1 (.filled 16 16 Palette.white)
  let frame (seq : UInt64) (patches : List Patch) : Frame :=
    { seq, viewX := 100, viewY := 100, viewWidth := 12, viewHeight := 12, patches }
  let f := frame 1 [⟨6, 6, 1, 1, [[⟨1, .none⟩]]⟩, ⟨16, 16, 1, 1, [[⟨1, .none⟩]]⟩]
  let g := frame 2 [⟨6, 6, 1, 1, [[⟨1, .quarter⟩]]⟩]
  let E : Envelope := ⟨16, 16, 16, 1000, by decide, by decide, by decide, by decide, by decide⟩
  have hsheet : sheet.BuiltFor s.side := (SpriteSheet.builtFor_ofSprite 16).insert 1 _
  have himage : sheet.imageOf 1 .none ≠ none := by
    rw [SpriteSheet.imageOf_insert, if_pos rfl]
    exact Option.some_ne_none _
  have hside : s.side = 16 := by decide
  have hf : Window.ofFrame .follow f s.surfaceWidth s.surfaceHeight s.side =
      .ok ⟨85, 85, 43, 43⟩ := by
    simp only [hside, s, f, frame]
    rfl
  have hg : Window.ofFrame .follow g s.surfaceWidth s.surfaceHeight s.side =
      .ok ⟨85, 85, 43, 43⟩ := by
    simp only [hside, s, g, frame]
    rfl
  have hsafe : ∀ k ∈ [f, g], k.FollowSafe s := by
    simp only [List.forall_mem_cons]
    refine ⟨.of_window hf <| .of_inside ⟨by decide, by decide, by decide⟩ (by decide) (by decide)
      (by decide) (by decide) (by decide) (by decide), .of_window hg <| .of_inside
      ⟨by decide, by decide, by decide⟩ (by decide) (by decide) (by decide) (by decide) (by decide)
      (by decide), nofun⟩
  have hreach : ∀ k ∈ [f, g], k.InReach E.reach ∧ Passable k := by
    simp only [List.forall_mem_cons]
    exact ⟨⟨⟨by decide, by decide, by decide, by decide, nofun⟩, by decide⟩,
      ⟨⟨by decide, by decide, by decide, by decide, nofun⟩, by decide⟩, nofun⟩
  have hsquares : DirtyGrid.ForSprite s.side ⟨80, 80, ∅⟩ := ⟨rfl, rfl⟩
  obtain ⟨v₀, v, v', j, cells, hstart, hrun, hnever, htick, hj, hleft⟩ :=
    exists_left_after_opening (E := E) rfl hsheet rfl rfl rfl rfl hsquares (by decide) hreach hsafe
      hf hg rfl
  have hleaves := hleft 31 31 (by decide) (by decide)
  have hstack : Scene.stackAt ⟨⟨85, 85, 43, 43⟩, TileStore.insertAll {} (Patcher.writes f), s.side,
      false⟩ 31 31 = [⟨1, .none⟩] :=
    (Scene.stackAt_insertAll (by decide) (by decide)).trans (by decide)
  rw [hstack] at hleaves
  obtain ⟨k, overlay, picture, stats, p, hk, -, hoverlay, -, -, hpicture, hfull, hp⟩ :=
    follow_unskipped_eq_full_redraw rfl hsheet (fun k hk => hsafe k (by simpa [opening] using hk))
      hstart hrun hnever htick
  cases hj.symm.trans hk
  exact ⟨s, sheet, f, g, v₀, v, v', cells, rfl, hsheet, himage, hsafe f (by simp),
    hsafe g (by simp), by decide, hstart, hrun, hnever, htick, j, overlay, picture, stats, p, hj,
    hoverlay, hleaves, hpicture, hfull, hp⟩

end TileViewer.Viewer
