import TileViewer.Proofs.Session.Current
import TileViewer.Proofs.Session.Setup

/-!
The follow view. Its picture always shows each cell as it was last painted in the window the
picture covers.
-/
namespace TileViewer

variable {s : ViewerSettings} {sheet : SpriteSheet}

/-- A frame that stays inside all ranges in the window that a follow view paints for it. -/
def Frame.FollowSafe (s : ViewerSettings) (f : Frame) : Prop :=
  ∀ window, Window.ofFrame .follow f s.surfaceWidth s.surfaceHeight s.side = .ok window →
    f.SafeIn window s.side (window.sizePx s.side).1 (window.sizePx s.side).2

/-- What the picture shows: the window it covers, and the stack each of its cells was last painted
with. -/
abbrev Shown := Window × Board

theorem Frame.FollowSafe.of_window {f : Frame} {window : Window}
    (hwindow : Window.ofFrame .follow f s.surfaceWidth s.surfaceHeight s.side = .ok window)
    (h : f.SafeIn window s.side (window.sizePx s.side).1 (window.sizePx s.side).2) :
    f.FollowSafe s := by
  intro w hw
  cases hwindow.symm.trans hw
  exact h

namespace Job

/-- The follow view's scene of the job. -/
def scene (j : Job) (sprite : UInt32) : Scene := ⟨j.window, j.tiles, sprite, false⟩

/-- The board that the last picture leaves to a job. A picture of another window leaves none. -/
def left (j : Job) (shown : Option Shown) : Option Board :=
  shown.bind fun (w, b) => if w = j.window then some b else none

/-- What the picture shows once the job has been painted. -/
def shown (j : Job) (sprite : UInt32) (before : Option Shown) : Shown :=
  (j.window, (j.scene sprite).nextBoard (j.window.sizePx sprite).1 (j.window.sizePx sprite).2
    j.scope (j.left before))

/-- The job leaves a cell as it is, painted with `old` at some time before. -/
def Leaves (j : Job) (sprite : UInt32) (before : Option Shown) (c r : Nat) (old : LayerStack) :
    Prop :=
  (∃ board, before = some (j.window, board) ∧ board c r = some old) ∧
    ¬ j.scope.Covers sprite c r

end Job

namespace Viewer

variable {v v' : Viewer} {j : Job} {before : Option Shown}

/-- What the picture shows after an event. -/
def shownAfter (v : Viewer) (before : Option Shown) : Event → Option Shown
  | .message _ => before
  | .reset => none
  | .tick now =>
    match v.tick now, v.job with
    | .ok (.drawn _ _, _), .ok (some j) => some (j.shown v.sprite before)
    | _, _ => before

/-- What the picture shows after a run. -/
def shownRun (v : Viewer) (before : Option Shown) : List Event → Option Shown
  | [] => before
  | e :: events =>
    match v.step e with
    | .ok w => w.shownRun (v.shownAfter before e) events
    | .error _ => before

theorem shownRun_append {events : List Event} {w : Viewer} (hrun : v.run events = .ok w)
    (before : Option Shown) (events' : List Event) :
    v.shownRun before (events ++ events') = w.shownRun (v.shownRun before events) events' := by
  induction events generalizing v before with
  | nil =>
    cases hrun
    rfl
  | cons e events ih =>
    obtain ⟨u, hstep, hrun⟩ := run_cons_eq_ok hrun
    simp only [List.cons_append, shownRun, hstep]
    exact ih hrun _

theorem shownRun_frames (v : Viewer) (before : Option Shown) (fs : List Frame) :
    v.shownRun before (fs.map fun f => .message (.frame f)) = before := by
  induction fs generalizing v with
  | nil => rfl
  | cons f fs ih => exact ih _

theorem shownAfter_of_not_drawn {out : Outcome} {now : UInt64}
    (h : v.tick now = .ok (out, v')) (hout : ∀ seq cells, out ≠ .drawn seq cells) :
    v.shownAfter before (.tick now) = before := by
  simp only [shownAfter, h]
  split
  · next heq _ =>
    cases heq
    exact absurd rfl (hout _ _)
  · rfl

/-- A kept picture of a window shows a board that covers exactly the cells of the window. -/
structure Pictured (s : ViewerSettings) (sprites : SpriteSheet) (kept : Window × Surface)
    (shown : Shown) : Prop where
  window : kept.1 = shown.1
  pictures : kept.2.Pictures shown.2 sprites (shown.1.sizePx s.side).1 (shown.1.sizePx s.side).2
    false
  shows : ∀ c r, shown.2 c r ≠ none ↔
    shown.1.Shows s.side (shown.1.sizePx s.side).1 (shown.1.sizePx s.side).2 c r

structure FollowHolds (s : ViewerSettings) (sheet : SpriteSheet) (v : Viewer)
    (shown : Option Shown) : Prop where
  configured : v.Configured s sheet
  frames : ∀ f ∈ v.queue.pending, f.FollowSafe s
  kept : ∃ picture painted, v.painter.canvas = .follow picture painted ∧
    painted.Rel (Pictured s v.painter.sprites) shown

theorem FollowHolds.job_safe (h : v.FollowHolds s sheet before) (hview : s.view = .follow)
    (hj : v.job = .ok (some j)) :
    j.frame.SafeIn j.window s.side (j.window.sizePx s.side).1 (j.window.sizePx s.side).2 := by
  have hwindow := h.configured.job_window hj
  rw [hview] at hwindow
  obtain ⟨queue, summary, patcher, hpop, -⟩ := job_eq_ok hj
  exact h.frames _ (FrameQueue.mem_pending_of_pop hpop) _ hwindow

theorem FollowHolds.rests (h : v.FollowHolds s sheet before) (hr : v.Rests v')
    (hframes : ∀ f ∈ v'.queue.pending, f.FollowSafe s) : v'.FollowHolds s sheet before where
  configured := h.configured.rests hr
  frames := hframes
  kept := by
    obtain ⟨picture, painted, hcanvas, hrel⟩ := h.kept
    exact ⟨picture, painted, hr.canvas.trans hcanvas, hr.sprites ▸ hrel⟩

theorem FollowHolds.reset (h : v.FollowHolds s sheet before) (hview : s.view = .follow) :
    v.reset.FollowHolds s sheet none where
  configured := h.configured.reset
  frames _ hf := nomatch hf
  kept := by
    refine ⟨Surface.blank 0 0, none, ?_, .none⟩
    simp only [Viewer.reset, Painter.reset, h.configured.painter.view, hview, Canvas.ofView]

theorem followHolds_ofSettings (hview : s.view = .follow) (hsheet : sheet.BuiltFor s.side)
    (h : ofSettings s sheet = .ok v) : v.FollowHolds s sheet none where
  configured := configured_ofSettings hsheet h
  frames := by
    obtain ⟨dirty, numbers, -, -, rfl⟩ := ofSettings_eq_ok h
    exact fun _ hf => nomatch hf
  kept := by
    obtain ⟨dirty, numbers, -, -, rfl⟩ := ofSettings_eq_ok h
    refine ⟨Surface.blank 0 0, none, ?_, .none⟩
    simp only [Painter.ofView, hview, Canvas.ofView]

/-- A frame that is not painted leaves the picture as it was, in its old window. -/
theorem FollowHolds.skipped (h : v.FollowHolds s sheet before) (hview : s.view = .follow)
    (hj : v.job = .ok (some j)) (htook : v.Took j v')
    (hdirty : v'.dirty = v.dirty.cleared.absorb j.marks) (hpainter : v'.painter = v.painter)
    (hpending : ∀ f ∈ v'.queue.pending, f ∈ v.queue.pending) : v'.FollowHolds s sheet before := by
  have hmarks := absorbed_marks h.configured hj (h.job_safe hview hj) hdirty
  refine ⟨?_, ?_, hpainter ▸ h.kept⟩
  · exact h.configured.took htook (h.configured.dirty.sameSize hmarks.1)
      (hpainter ▸ h.configured.painter)
  · intro f hf
    exact h.frames f (hpending f hf)

/-- The job's board covers exactly the cells of its window. -/
theorem shown_ne_none_iff {sprites : SpriteSheet} {painted : Option (Window × Surface)}
    (hrel : painted.Rel (Pictured s sprites) before) (c r : Nat) :
    (j.shown s.side before).2 c r ≠ none ↔
      j.window.Shows s.side (j.window.sizePx s.side).1 (j.window.sizePx s.side).2 c r := by
  cases hrel with
  | none => exact Scene.worldBoard_ne_none_iff (j.scene s.side)
  | @some kept shown hp =>
    obtain ⟨w, b⟩ := shown
    unfold Job.shown Job.left
    by_cases hw : w = j.window
    · subst hw
      simp only [Option.bind_some, if_true]
      exact Scene.repaint_ne_none_iff (j.scene s.side) (hp.shows c r)
    · simp only [Option.bind_some, if_neg hw]
      exact Scene.worldBoard_ne_none_iff (j.scene s.side)

theorem left_rel {sprites : SpriteSheet} {painted : Option (Window × Surface)}
    (hrel : painted.Rel (Pictured s sprites) before) :
    (painted.bind fun (w, clean) => if w = j.window then some clean else none).Rel
      (·.Pictures · sprites (j.window.sizePx s.side).1 (j.window.sizePx s.side).2 false)
      (j.left before) := by
  cases hrel with
  | none => exact .none
  | @some kept shown hp =>
    obtain ⟨w, clean⟩ := kept
    obtain ⟨w', b⟩ := shown
    obtain ⟨hw, hpictures, -⟩ := hp
    cases hw
    unfold Job.left
    by_cases hw : w = j.window
    · subst hw
      simp only [Option.bind_some, if_true]
      exact .some hpictures
    · simp only [Option.bind_some, if_neg hw]
      exact .none

theorem shown_of_leaves {c r : Nat} {old : LayerStack} (h : j.Leaves s.side before c r old) :
    (j.shown s.side before).2 c r = some old := by
  obtain ⟨⟨board, rfl, hold⟩, hout⟩ := h
  unfold Job.shown Job.left
  simp only [Option.bind_some, if_true]
  exact (if_neg fun hin => hout hin.2).trans hold

/-- A cell of the job's board has the stack of the world, unless the job leaves it. -/
theorem shown_of_shows {sprites : SpriteSheet} {painted : Option (Window × Surface)} {c r : Nat}
    (hrel : painted.Rel (Pictured s sprites) before)
    (hs : j.window.Shows s.side (j.window.sizePx s.side).1 (j.window.sizePx s.side).2 c r) :
    (j.shown s.side before).2 c r = some ((j.scene s.side).stackAt c r) ∨
      ∃ old, j.Leaves s.side before c r old ∧ (j.shown s.side before).2 c r = some old := by
  cases hrel with
  | none => exact .inl (Scene.worldBoard_of_shows (j.scene s.side) hs)
  | @some kept shown hp =>
    obtain ⟨w, b⟩ := shown
    by_cases hw : w = j.window
    · subst hw
      by_cases hcovers : j.scope.Covers s.side c r
      · refine .inl ?_
        unfold Job.shown Job.left
        simp only [Option.bind_some, if_true]
        exact if_pos ⟨hs, hcovers⟩
      · obtain ⟨old, hold⟩ := Option.ne_none_iff_exists'.1 ((hp.shows c r).2 hs)
        have hleaves : j.Leaves s.side (some (j.window, b)) c r old := ⟨⟨b, rfl, hold⟩, hcovers⟩
        exact .inr ⟨old, hleaves, shown_of_leaves hleaves⟩
    · refine .inl ?_
      unfold Job.shown Job.left
      simp only [Option.bind_some, if_neg hw]
      exact Scene.worldBoard_of_shows (j.scene s.side) hs

/-- The picture left by a job and the picture of the world agree where the overlay does not hide
them, exactly when the stacks that the job leaves look like those of the world. -/
theorem agree_iff {sprites : SpriteSheet} {painted : Option (Window × Surface)}
    {clean full : Surface} {hidden : Nat → Nat → Prop} {width height : UInt32}
    (hfit : j.window.Fits s.side width height) (hsprite : sprites.sprite = s.side)
    (hrel : painted.Rel (Pictured s sprites) before)
    (hclean : clean.Pictures (j.shown s.side before).2 sprites (j.window.sizePx s.side).1
      (j.window.sizePx s.side).2 false)
    (hfull : full.Pictures ((j.scene s.side).worldBoard (j.window.sizePx s.side).1
      (j.window.sizePx s.side).2) sprites (j.window.sizePx s.side).1 (j.window.sizePx s.side).2
      false) :
    (∀ px py, hidden px py ∨ clean.image.pixel? px py = full.image.pixel? px py) ↔
      ∀ c r old, j.Leaves s.side before c r old →
        ∀ dx < s.side.toNat, ∀ dy < s.side.toNat,
          hidden (c * s.side.toNat + dx) (r * s.side.toNat + dy) ∨
          sprites.stackColor old Palette.playArea dx dy =
            sprites.stackColor ((j.scene s.side).stackAt c r) Palette.playArea dx dy := by
  have hpos := hfit.sprite_pos
  obtain ⟨hw, hh⟩ := hfit.size
  constructor
  · intro hall c r old hleaves dx hdx dy hdy
    have hold := shown_of_leaves hleaves
    have hs := (shown_ne_none_iff hrel c r).1 (by rw [hold]; exact Option.some_ne_none old)
    obtain ⟨hc, hr⟩ := hfit.shows_iff.1 hs
    obtain ⟨hdivx, hmodx, hx⟩ := Window.pixel_of_cell hdx hc
    obtain ⟨hdivy, hmody, hy⟩ := Window.pixel_of_cell hdy hr
    rw [← hw] at hx
    rw [← hh] at hy
    refine (hall (c * s.side.toNat + dx) (r * s.side.toNat + dy)).imp_right ?_
    intro heq
    have hiff := hclean.pixel?_eq_iff hfull hsprite hx hy (by rw [hdivx, hdivy]; exact hold)
      (by rw [hdivx, hdivy]; exact Scene.worldBoard_of_shows (j.scene s.side) hs)
    rw [hmodx, hmody] at hiff
    exact hiff.1 heq
  · intro hall px py
    by_cases hin : px < (j.window.sizePx s.side).1.toNat ∧ py < (j.window.sizePx s.side).2.toNat
    · have hs : j.window.Shows s.side (j.window.sizePx s.side).1 (j.window.sizePx s.side).2
          (px / s.side.toNat) (py / s.side.toNat) := by
        rw [hw, hh] at hin
        exact hfit.shows_iff.2 ⟨(Nat.div_lt_iff_lt_mul hpos).2 hin.1,
          (Nat.div_lt_iff_lt_mul hpos).2 hin.2⟩
      have hnew := Scene.worldBoard_of_shows (j.scene s.side) hs
      rcases shown_of_shows hrel hs with hsame | ⟨old, hleaves, hold⟩
      · exact .inr ((hclean.pixel?_eq_iff hfull hsprite hin.1 hin.2 hsame hnew).2 rfl)
      · have hcell := hall _ _ old hleaves (px % s.side.toNat) (Nat.mod_lt _ hpos)
          (py % s.side.toNat) (Nat.mod_lt _ hpos)
        rw [Nat.div_add_mod', Nat.div_add_mod'] at hcell
        exact hcell.imp_right fun hcolor =>
          (hclean.pixel?_eq_iff hfull hsprite hin.1 hin.2 hold hnew).2 hcolor
    · refine .inr ?_
      rw [Image.pixel?_eq_none, Image.pixel?_eq_none]
      · exact fun h => hin (by rwa [← hfull.width_eq, ← hfull.height_eq])
      · exact fun h => hin (by rwa [← hclean.width_eq, ← hclean.height_eq])

/-- A painted frame shows the job's board under its overlay. It is the picture of a new painter
exactly when no cell that the job leaves looks different and is not hidden. -/
theorem FollowHolds.drawn {overlay : Overlay} {stats : PaintStats}
    (h : v.FollowHolds s sheet before) (hsheet : sheet.BuiltFor s.side) (hview : s.view = .follow)
    (hj : v.job = .ok (some j)) (htook : v.Took j v') (hdirty : v'.dirty = v.dirty.cleared)
    (hpaint : v.painter.draw j.window j.tiles j.scope overlay = .ok (stats, v'.painter))
    (hpending : ∀ f ∈ v'.queue.pending, f ∈ v.queue.pending) :
    v'.FollowHolds s sheet (some (j.shown s.side before)) ∧ ∃ picture full stats p,
      v'.painter.canvas.picture? = some picture ∧
      (Painter.ofView .follow s.surfaceWidth s.surfaceHeight s.sprite sheet).draw j.window j.tiles
        .all overlay = .ok (stats, p) ∧
      p.canvas.picture? = some full ∧
      (picture = full ↔ ∀ c r old, j.Leaves s.side before c r old →
        ∀ dx < s.side.toNat, ∀ dy < s.side.toNat,
          overlay.Hides .follow j.window s.side (c * s.side.toNat + dx) (r * s.side.toNat + dy) ∨
          sheet.stackColor old Palette.playArea dx dy =
            sheet.stackColor ((j.scene s.side).stackAt c r) Palette.playArea dx dy) := by
  have hsafe := h.job_safe hview hj
  obtain ⟨old, painted, hcanvas, hrel⟩ := h.kept
  have hp := h.configured.painter
  have hfresh : (Painter.ofView .follow s.surfaceWidth s.surfaceHeight s.sprite sheet).Configured s
      sheet := hview ▸ painter_configured_ofView hsheet
  have hdecides := job_decides h.configured hj hsafe
  obtain ⟨stats₁, clean, sheet₁, hclean, hbuilt, himages, hdraw⟩ :=
    Painter.draw_follow j.tiles overlay hcanvas hp.sprite rfl hsafe.fits hdecides hp.built
      (left_rel hrel)
  obtain ⟨stats₂, full, sheet₂, hfull, -, -, hdraw'⟩ :=
    Painter.draw_follow j.tiles overlay rfl hfresh.sprite rfl hsafe.fits Scene.decides_all
      hfresh.built .none
  rw [hdraw, hp.view, hview] at hpaint
  rw [hfresh.view, hview] at hdraw'
  cases hpicture : overlay.draw .follow j.window s.side clean with
  | error e => simp [hpicture, Except.map] at hpaint
  | ok picture =>
    obtain ⟨picture', hpicture'⟩ := (Overlay.stamps_draw overlay _ _ _).exists_ok hpicture full
    rw [hpicture] at hpaint
    rw [hpicture'] at hdraw'
    simp only [Except.map, Except.ok.injEq, Prod.mk.injEq] at hpaint
    obtain ⟨-, hpainter⟩ := hpaint
    refine ⟨⟨h.configured.took htook ?_ ?_, fun f hf => h.frames f (hpending f hf), picture,
      some (j.window, clean), by rw [← hpainter], .some ⟨rfl, ?_, shown_ne_none_iff hrel⟩⟩,
      picture, picture', stats₂, _, by rw [← hpainter]; rfl, hdraw', rfl, ?_⟩
    · exact hdirty ▸ h.configured.dirty.sameSize ⟨rfl, rfl⟩
    · rw [← hpainter]
      exact ⟨hview.symm, hp.sprite, hp.width, hp.height, hbuilt, himages.trans hp.images⟩
    · rw [← hpainter]
      exact hclean.congr himages
    · rw [Overlay.draw_eq_iff (hclean.width_eq.trans hfull.width_eq.symm)
        (hclean.height_eq.trans hfull.height_eq.symm) (hclean.labels.trans hfull.labels.symm)
        hpicture hpicture', ← SpriteSheet.stackColor_congr hp.images]
      exact agree_iff hsafe.fits hp.built.sprite_eq hrel hclean (hfull.congr hp.images)

theorem FollowHolds.step {e : Event} (h : v.FollowHolds s sheet before)
    (hsheet : sheet.BuiltFor s.side) (hview : s.view = .follow)
    (he : ∀ f, e = .message (.frame f) → f.FollowSafe s) (hstep : v.step e = .ok v') :
    v'.FollowHolds s sheet (v.shownAfter before e) := by
  cases e with
  | message m =>
    cases hstep
    refine h.rests (rests_ingest v m) ?_
    intro f hf
    rcases mem_pending_ingest hf with hf | rfl
    · exact h.frames f hf
    · exact he f rfl
  | reset =>
    cases hstep
    exact h.reset hview
  | tick now =>
    obtain ⟨out, htick⟩ := step_tick_eq_ok hstep
    cases ticked_tick htick with
    | rested hr hout hpending =>
      rw [shownAfter_of_not_drawn htick hout]
      exact h.rests hr fun f hf => h.frames f (hpending f hf)
    | skipped hj ht hdirty hpainter hpending =>
      simp only [shownAfter, htick]
      exact h.skipped hview hj ht hdirty hpainter hpending
    | drawn hj ht hdirty _ hpaint hpending =>
      simp only [shownAfter, htick, hj, h.configured.sprite]
      exact (h.drawn hsheet hview hj ht hdirty hpaint hpending).1

theorem FollowHolds.run {events : List Event} (h : v.FollowHolds s sheet before)
    (hsheet : sheet.BuiltFor s.side) (hview : s.view = .follow)
    (hframes : ∀ f, .message (.frame f) ∈ events → f.FollowSafe s)
    (hrun : v.run events = .ok v') : v'.FollowHolds s sheet (v.shownRun before events) := by
  induction events generalizing v before with
  | nil =>
    cases hrun
    exact h
  | cons e events ih =>
    obtain ⟨w, hstep, hrun⟩ := run_cons_eq_ok hrun
    simp only [shownRun, hstep]
    exact ih (h.step hsheet hview (fun f hf => hframes f (hf ▸ List.mem_cons_self)) hstep)
      (fun f hf => hframes f (List.mem_cons_of_mem _ hf)) hrun

end Viewer

end TileViewer
