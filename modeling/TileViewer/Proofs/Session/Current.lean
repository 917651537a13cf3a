import TileViewer.Proofs.Marks.Patch
import TileViewer.Proofs.Picture.Board
import TileViewer.Proofs.Session.Setup

/-!
Boards that are up to date but for their marked squares. Frames keep them so, and a pass over the
marked squares brings them fully up to date.
-/
namespace TileViewer

variable {scene : Scene} {width height : UInt32} {board : Board} {marks : DirtyGrid} {scope : Scope}

/-- A frame that stays inside the ranges of coordinates and pixels, seen through a window. -/
structure Frame.SafeIn (frame : Frame) (window : Window) (sprite width height : UInt32) : Prop where
  exact : frame.Exact
  fits : window.Fits sprite width height
  band : ∀ c r, window.Shows sprite width height c r → Coord.InBand (window.coordAt c r)

/-- A window inside the coordinates and the band shows only cells there. -/
theorem Frame.SafeIn.of_inside {frame : Frame} {window : Window} {sprite : UInt32}
    (hexact : frame.Exact) (hpos : 0 < sprite.toNat)
    (hcolumns : (window.width.toNat / 5 + 1) * (5 * sprite.toNat) < 2 ^ 31)
    (hrows : (window.height.toNat / 5 + 1) * (5 * sprite.toNat) < 2 ^ 31)
    (hright : window.startX.toInt + window.width.toNat ≤ 2 ^ 31)
    (htop : -16384 ≤ window.startY.toInt)
    (hbottom : window.startY.toInt + window.height.toNat ≤ 16384) :
    frame.SafeIn window sprite width height := by
  refine ⟨hexact, ⟨hpos, hcolumns, hrows, ?_, ?_⟩, ?_⟩
  · intro c r h
    have := h.1.1
    omega
  · intro c r h
    have := h.2.1
    omega
  · intro c r h
    have := h.2.1
    rw [Coord.InBand, Window.coordAt, Int32.toInt_ofInt_of_le (by omega) (by omega)]
    omega

namespace Scene

/-- A cell shows what was written there last. -/
theorem stackAt_insertAll {window : Window} {ws : List (Coord × LayerStack)} {sprite : UInt32}
    {sidebar : Bool} {c r : Nat} (hcoord : Coord.InBand (window.coordAt c r))
    (hws : ∀ w ∈ ws, rowFits w.1.2 → w.1.InBand) :
    stackAt ⟨window, TileStore.insertAll {} ws, sprite, sidebar⟩ c r =
      (lastAt ws (window.coordAt c r)).getD [] := by
  rw [stackAt, TileStore.get?_insertAll hcoord hws]
  simp [TileStore.get?]

/-- Outside the marked squares the board is that of the world. -/
structure Current (scene : Scene) (width height : UInt32) (marks : DirtyGrid) (board : Board) :
    Prop where
  shown : ∀ c r, scene.window.Shows scene.sprite width height c r →
    DirtyGrid.cellKey c r ∈ marks.marks ∨ board c r = some (scene.stackAt c r)
  bare : ∀ c r, ¬ scene.window.Shows scene.sprite width height c r → board c r = none

theorem covers_all (sprite : UInt32) (c r : Nat) : Scope.all.Covers sprite c r := rfl

theorem worldBoard_of_shows (scene : Scene) {c r : Nat}
    (h : scene.window.Shows scene.sprite width height c r) :
    scene.worldBoard width height c r = some (scene.stackAt c r) :=
  if_pos ⟨h, covers_all _ c r⟩

theorem worldBoard_of_not_shows (scene : Scene) {c r : Nat}
    (h : ¬ scene.window.Shows scene.sprite width height c r) :
    scene.worldBoard width height c r = none :=
  if_neg fun h' => h h'.1

theorem current_worldBoard : scene.Current width height marks (scene.worldBoard width height) where
  shown _ _ h := .inr (worldBoard_of_shows scene h)
  bare _ _ h := worldBoard_of_not_shows scene h

theorem repaint_all (h : scene.Current width height marks board) :
    scene.repaint width height .all board = scene.worldBoard width height := by
  funext c r
  by_cases hs : scene.window.Shows scene.sprite width height c r
  · rw [worldBoard_of_shows scene hs, repaint, if_pos ⟨hs, covers_all _ c r⟩]
  · rw [worldBoard_of_not_shows scene hs, repaint, if_neg fun h' => hs h'.1, h.bare c r hs]

theorem worldBoard_ne_none_iff (scene : Scene) {c r : Nat} :
    scene.worldBoard width height c r ≠ none ↔
      scene.window.Shows scene.sprite width height c r := by
  by_cases hs : scene.window.Shows scene.sprite width height c r
  · simp [worldBoard_of_shows scene hs, hs]
  · simp [worldBoard_of_not_shows scene hs, hs]

theorem repaint_ne_none_iff (scene : Scene) {c r : Nat}
    (h : board c r ≠ none ↔ scene.window.Shows scene.sprite width height c r) :
    scene.repaint width height scope board c r ≠ none ↔
      scene.window.Shows scene.sprite width height c r := by
  unfold repaint
  split
  · next hin => simp [hin.1]
  · exact h

/-- Repainting the marked squares is enough. -/
theorem repaint_marked (hfit : scene.window.Fits scene.sprite width height)
    (hmarks : marks.ForSprite scene.sprite) (h : scene.Current width height marks board) :
    scene.repaint width height (.dirty marks) board = scene.worldBoard width height := by
  funext c r
  by_cases hs : scene.window.Shows scene.sprite width height c r
  · rw [worldBoard_of_shows scene hs, repaint]
    split
    · rfl
    · next hout =>
      rw [Scope.covers_dirty_iff hmarks hfit.sprite_pos hfit.square_lt
        (hfit.column_lt (Nat.le_of_lt hs.1.1)) (hfit.row_lt (Nat.le_of_lt hs.2.1))] at hout
      exact (h.shown c r hs).resolve_left fun hk => hout ⟨hs, hk⟩
  · rw [worldBoard_of_not_shows scene hs, repaint, if_neg fun h' => hs h'.1, h.bare c r hs]

theorem Current.mono {marks' : DirtyGrid} (h : scene.Current width height marks board)
    (hsub : ∀ k ∈ marks.marks, k ∈ marks'.marks) : scene.Current width height marks' board :=
  ⟨fun c r hs => (h.shown c r hs).imp_left (hsub _), h.bare⟩

/-- A frame in the same window, of a view that has not moved, leaves a board current. -/
theorem Current.apply_same {p : Patcher} {frame : Frame} {tiles : TileStore} {g : DirtyGrid}
    (hsafe : frame.SafeIn scene.window scene.sprite width height)
    (happlied : p.Applied frame scene.window scene.tiles g tiles marks)
    (h : scene.Current width height g board) :
    { scene with tiles }.Current width height marks board where
  shown c r hs := by
    have hx := hsafe.fits.startX c r hs
    have hy := hsafe.fits.startY c r hs
    by_cases htouch : Patcher.Touches frame (scene.window.coordAt c r)
    · exact .inl (happlied.touched c hs.1.1 r hs.2.1 hx hy htouch)
    · have hstack : { scene with tiles }.stackAt c r = scene.stackAt c r := by
        rw [stackAt, stackAt, happlied.untouched _ (hsafe.band c r hs) htouch]
      rw [hstack]
      exact (h.shown c r hs).imp_left (happlied.kept _)
  bare := h.bare

end Scene

theorem Viewer.job_applied {s : ViewerSettings} {sheet : SpriteSheet} {v : Viewer} {j : Job}
    (hc : v.Configured s sheet) (hj : v.job = .ok (some j))
    (hsafe : j.frame.SafeIn j.window s.side width height) :
    v.patcher.Applied j.frame j.window v.tiles v.dirty j.tiles j.marks := by
  obtain ⟨queue, summary, patcher, -, -, happly⟩ := job_eq_ok hj
  obtain ⟨summary', tiles', marks', happly', happlied⟩ := Patcher.apply_applied v.tiles
    (by rw [hc.patcher]; exact hc.dirty) (by rw [hc.patcher]; exact hsafe.fits) hsafe.exact
  cases happly.symm.trans happly'
  exact happlied

/-- The marks of a job are those left over and those of its frame. -/
theorem Viewer.mem_job_marks {s : ViewerSettings} {sheet : SpriteSheet} {v : Viewer} {j : Job}
    (hc : v.Configured s sheet) (hj : v.job = .ok (some j))
    (hsafe : j.frame.SafeIn j.window s.side width height) (k : Int) :
    k ∈ j.marks.marks ↔
      k ∈ v.dirty.marks ∨ v.patcher.Marked j.frame j.window v.dirty k := by
  obtain ⟨queue, summary, patcher, -, -, happly⟩ := job_eq_ok hj
  obtain ⟨marks, hmarks, hm⟩ := Patcher.markAll_marks
    (hc.dirty.regular s.side_pos hsafe.fits.square_lt) v.patcher j.frame j.window
  cases hmarks.symm.trans (Patcher.apply_eq_ok happly).1
  exact hm.mem_iff k

/-- What a job repaints if it does not repaint everything. -/
theorem Viewer.job_covers_iff {s : ViewerSettings} {sheet : SpriteSheet} {v : Viewer} {j : Job}
    (hc : v.Configured s sheet) (hj : v.job = .ok (some j))
    (hsafe : j.frame.SafeIn j.window s.side width height) (hfull : j.frame.full = false) {c r : Nat}
    (hcolumn : c * s.side.toNat < 2 ^ 31) (hrow : r * s.side.toNat < 2 ^ 31) :
    j.scope.Covers s.side c r ↔ DirtyGrid.cellKey c r ∈ v.dirty.marks ∨
      v.patcher.Marked j.frame j.window v.dirty (DirtyGrid.cellKey c r) := by
  have hmarks := hc.dirty.sameSize (job_applied hc hj hsafe).sameSize
  rw [← mem_job_marks hc hj hsafe, Job.scope, hfull, if_neg Bool.false_ne_true,
    Scope.covers_dirty_iff hmarks s.side_pos hsafe.fits.square_lt hcolumn hrow]

theorem Viewer.job_decides {s : ViewerSettings} {sheet : SpriteSheet} {v : Viewer} {j : Job}
    (hc : v.Configured s sheet) (hj : v.job = .ok (some j))
    (hsafe : j.frame.SafeIn j.window s.side width height) :
    j.scope.Decides := by
  have hmarks := hc.dirty.sameSize (job_applied hc hj hsafe).sameSize
  unfold Job.scope
  split
  · exact Scene.decides_all
  · exact Scope.decides_dirty (hmarks.regular s.side_pos hsafe.fits.square_lt)

/-- A frame that is not painted leaves the marks of its job. -/
theorem Viewer.absorbed_marks {s : ViewerSettings} {sheet : SpriteSheet} {v v' : Viewer} {j : Job}
    (hc : v.Configured s sheet) (hj : v.job = .ok (some j))
    (hsafe : j.frame.SafeIn j.window s.side width height)
    (hdirty : v'.dirty = v.dirty.cleared.absorb j.marks) :
    v.dirty.SameSize v'.dirty ∧ ∀ k, k ∈ v'.dirty.marks ↔ k ∈ j.marks.marks := by
  have hsize := (job_applied hc hj hsafe).sameSize
  have habsorb := DirtyGrid.absorb_marks (g := v.dirty.cleared) ⟨hsize.cellWidth, hsize.cellHeight⟩
  rw [← hdirty] at habsorb
  refine ⟨⟨habsorb.cellWidth, habsorb.cellHeight⟩, ?_⟩
  intro k
  rw [habsorb.mem_iff]
  exact or_iff_right Std.HashSet.not_mem_empty

/-- A frame that stays inside the ranges can always be applied. -/
theorem Viewer.exists_job {s : ViewerSettings} {sheet : SpriteSheet} {v : Viewer} {frame : Frame}
    {queue : FrameQueue} {window : Window} (hc : v.Configured s sheet)
    (hpop : v.queue.pop = .ok (some frame, queue))
    (hwindow : Window.ofFrame v.view frame v.surfaceWidth v.surfaceHeight v.sprite = .ok window)
    (hsafe : frame.SafeIn window s.side width height) :
    ∃ tiles marks, v.job = .ok (some { frame, window, tiles, marks }) := by
  obtain ⟨summary, tiles, marks, happly, -⟩ := Patcher.apply_applied v.tiles
    (by rw [hc.patcher]; exact hc.dirty) (by rw [hc.patcher]; exact hsafe.fits) hsafe.exact
  exact ⟨tiles, marks, job_of_apply hpop hwindow happly⟩

end TileViewer
