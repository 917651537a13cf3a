import TileViewer.Proofs.Session.Setup

/-!
What the counters of a viewer count. An event does one piece of work or none, and a cell is written
once, when the frame that brought it leaves the queue. No run is long enough for a counter to pass
the end of a word of 64 bits.
-/
namespace TileViewer

/-- The cells that some frames bring. -/
def cellsIn : List Frame → Nat
  | [] => 0
  | f :: fs => f.cells.length + cellsIn fs

@[simp] theorem cellsIn_nil : cellsIn [] = 0 := rfl

@[simp] theorem cellsIn_cons (f : Frame) (fs : List Frame) :
    cellsIn (f :: fs) = f.cells.length + cellsIn fs := rfl

theorem cellsIn_append (fs gs : List Frame) : cellsIn (fs ++ gs) = cellsIn fs + cellsIn gs := by
  induction fs with
  | nil => rw [List.nil_append, cellsIn_nil, Nat.zero_add]
  | cons f fs ih => rw [List.cons_append, cellsIn_cons, cellsIn_cons, ih, Nat.add_assoc]

theorem cellsIn_le_of_sublist {fs gs : List Frame} (h : fs.Sublist gs) :
    cellsIn fs ≤ cellsIn gs := by
  induction h with
  | slnil => exact Nat.le_refl _
  | cons g _ ih =>
    rw [cellsIn_cons]
    omega
  | cons_cons g _ ih =>
    rw [cellsIn_cons, cellsIn_cons]
    omega

/-- A frame with a number that already waits brings nothing. -/
theorem cellsIn_insertFrame_le (f : Frame) (gs : List Frame) :
    cellsIn (insertFrame f gs) ≤ f.cells.length + cellsIn gs := by
  induction gs with
  | nil => simp [insertFrame]
  | cons g gs ih =>
    unfold insertFrame
    split
    · rw [cellsIn_cons]
    · split
      · omega
      · rw [cellsIn_cons, cellsIn_cons]
        omega

namespace FrameQueue

/-- What leaves the queue was in it once, and is in it no more. -/
theorem sublist_of_pop {q q' : FrameQueue} {next : Option Frame} (h : q.pop = .ok (next, q')) :
    (next.toList ++ q'.pending).Sublist q.pending := by
  have hready : q.ready.Sublist q.pending := by
    unfold ready
    split
    · exact List.nil_sublist _
    · exact List.filter_sublist
  rcases pop_eq_ok h with ⟨rfl, -, -, hnil, -⟩ | ⟨f, rfl, -, hcons, -⟩
  · cases hc : q.cursor with
    | none =>
      rw [pop, hc] at h
      cases h
      exact .refl _
    | some least =>
      rw [hnil (by simp [hc])]
      exact List.nil_sublist _
  · rwa [hcons] at hready

end FrameQueue

/-- Only the cells in rows that can be stored are counted. -/
theorem Patcher.countP_writes_le (frame : Frame) :
    (Patcher.writes frame).countP (rowFits ·.1.2) ≤ frame.cells.length := by
  refine Nat.le_trans List.countP_le_length (Nat.le_of_eq ?_)
  rw [Patcher.writes_eq_map, List.length_map]

/-- The pieces of work that have been done, and the overflows. -/
def ViewerStats.works (s : ViewerStats) : Nat :=
  s.framesDrawn + s.framesSkipped + s.cameraSteps + s.overflows

namespace Viewer

/-- The frame that an event brings, if it brings one. -/
def Event.frames : Event → List Frame
  | .message (.frame f) => [f]
  | _ => []

/-- What an event or a part of it does to the counters, if it brings some cells. The cells of the
frames that wait are still to be written. -/
structure Counts (v : Viewer) (works cells : Nat) (w : Viewer) : Prop where
  works : w.stats.works ≤ v.stats.works + works
  cells : w.stats.cellsWritten + cellsIn w.queue.pending ≤
    v.stats.cellsWritten + cellsIn v.queue.pending + cells

variable {v w : Viewer} {now : UInt64} {out : Outcome} {backlog : Nat} {n m c d : Nat}

theorem Counts.refl (v : Viewer) : v.Counts 0 0 v := ⟨Nat.le_refl _, Nat.le_refl _⟩

theorem Counts.trans {u : Viewer} (h : v.Counts n c w) (h' : w.Counts m d u) :
    v.Counts (n + m) (c + d) u := by
  obtain ⟨hworks, hcells⟩ := h
  obtain ⟨hworks', hcells'⟩ := h'
  exact ⟨by omega, by omega⟩

theorem Counts.mono (h : v.Counts n c w) (hn : n ≤ m) : v.Counts m c w :=
  ⟨Nat.le_trans h.works (Nat.add_le_add_left hn _), h.cells⟩

theorem counts_ingest (v : Viewer) (m : Message) :
    v.Counts 1 (cellsIn (Event.message m).frames) (v.ingest m).2 := by
  cases m with
  | frame f =>
    have hcells : cellsIn (v.queue.push f).pending ≤ f.cells.length + cellsIn v.queue.pending :=
      cellsIn_insertFrame_le f v.queue.pending
    have hbrought : cellsIn (Event.message (.frame f)).frames = f.cells.length := rfl
    simp only [ingest, hbrought]
    split
    · exact ⟨Nat.le_succ _, by dsimp only; omega⟩
    · exact ⟨by simp only [ViewerStats.works]; omega, by dsimp only; omega⟩
  | side u => exact ⟨Nat.le_succ _, Nat.le_refl _⟩
  | unknown type => exact (Counts.refl v).mono (Nat.zero_le _)

/-- A frame that is taken is applied, and then skipped or painted. -/
theorem counts_nextFrame (h : v.nextFrame now backlog = .ok (out, w)) : v.Counts 1 0 w := by
  rcases nextFrame_eq_ok h with ⟨queue, hpop, -, rfl⟩ | ⟨j, u, -, hpop, -, -, -, -, -, -, hstats,
    hdone⟩
  · have hleft := cellsIn_le_of_sublist (FrameQueue.sublist_of_pop hpop)
    exact ⟨Nat.le_succ _, Nat.add_le_add_left hleft _⟩
  · have hleft := cellsIn_le_of_sublist (FrameQueue.sublist_of_pop hpop)
    rw [Option.toList_some, List.singleton_append, cellsIn_cons] at hleft
    have hwritten := Patcher.countP_writes_le j.frame
    -- The cells of the frame go from the queue to the counter, except those in impossible rows.
    have happlied : v.Counts 0 0 u := by
      refine ⟨?_, ?_⟩
      · rw [hstats]
        exact Nat.le_refl _
      · rw [hstats]
        dsimp only
        omega
    refine (happlied.trans ?_ : v.Counts (0 + 1) (0 + 0) w)
    rcases hdone with ⟨-, rfl⟩ | hpaint
    · exact ⟨by simp only [ViewerStats.works]; omega, Nat.le_refl _⟩
    · obtain ⟨drawn, numbers, painted, painter, camera, stepPacer, -, -, -, rfl⟩ :=
        paintFrame_eq_ok hpaint
      exact ⟨by simp only [ViewerStats.works]; omega, Nat.le_refl _⟩

theorem counts_cameraStep (h : v.cameraStep now backlog = .ok (out, w)) : v.Counts 1 0 w := by
  rcases cameraStep_eq_ok h with ⟨-, rfl⟩ | ⟨p, camera, shown, painter, -, -, -, rfl⟩
  · exact (Counts.refl w).mono (Nat.zero_le _)
  · exact ⟨by simp only [ViewerStats.works]; omega, Nat.le_refl _⟩

theorem counts_tick (h : v.tick now = .ok (out, w)) : v.Counts 1 0 w := by
  rcases tick_cases h with hnext | hcamera | ⟨rfl, rfl⟩
  · exact counts_nextFrame hnext
  · exact counts_cameraStep hcamera
  · exact (Counts.refl w).mono (Nat.zero_le _)

theorem counts_reset (v : Viewer) : v.Counts 0 0 v.reset :=
  ⟨Nat.le_refl _, Nat.add_le_add_left (Nat.zero_le _) _⟩

theorem counts_step {e : Event} (h : v.step e = .ok w) : v.Counts 1 (cellsIn e.frames) w := by
  cases e with
  | message m =>
    cases h
    exact counts_ingest v m
  | tick now =>
    obtain ⟨out, htick⟩ := step_tick_eq_ok h
    exact counts_tick htick
  | reset =>
    cases h
    exact (counts_reset v).mono (Nat.zero_le _)

/-- No more is counted than there are events, and no more cells than their frames have. -/
theorem counts_run {events : List Event} (h : v.run events = .ok w) :
    v.Counts events.length (cellsIn (events.flatMap Event.frames)) w := by
  induction events generalizing v with
  | nil =>
    cases h
    exact Counts.refl w
  | cons e events ih =>
    obtain ⟨u, hstep, hrun⟩ := run_cons_eq_ok h
    have hcounts := (counts_step hstep).trans (ih hrun)
    rwa [Nat.add_comm 1, ← cellsIn_append, ← List.flatMap_cons] at hcounts

/-- The counters of a viewer fit into words of 64 bits until that many events have happened to it
or that many cells have come. -/
theorem stats_fit {s : ViewerSettings} {sheet : SpriteSheet} {events : List Event}
    (h : ofSettings s sheet = .ok v) (hrun : v.run events = .ok w)
    (hevents : events.length < 2 ^ 64)
    (hcells : cellsIn (events.flatMap Event.frames) < 2 ^ 64) :
    w.stats.framesDrawn < 2 ^ 64 ∧ w.stats.framesSkipped < 2 ^ 64 ∧
      w.stats.cameraSteps < 2 ^ 64 ∧ w.stats.overflows < 2 ^ 64 ∧
      w.stats.cellsWritten < 2 ^ 64 := by
  obtain ⟨dirty, numbers, -, -, rfl⟩ := ofSettings_eq_ok h
  obtain ⟨hworks, hwritten⟩ := counts_run hrun
  simp only [ViewerStats.works, cellsIn_nil, Nat.zero_add] at hworks hwritten
  omega

end Viewer

end TileViewer
