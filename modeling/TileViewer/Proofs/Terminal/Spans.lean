import TileViewer.Proofs.Terminal.Screen

/-!
What the commands for a grid leave on a screen. The rows of a grid reach all of its cells, and its
changed runs reach every cell that differs from the old grid.
-/
namespace TileViewer

theorem toNat_toUInt16 {x : Nat} {n : UInt16} (h : x ≤ n.toNat) : x.toUInt16.toNat = x := by
  have := n.toNat_lt
  exact Nat.mod_eq_of_lt (by omega)

namespace CellGrid

variable {g old new : CellGrid} {p : Nat → Bool} {runs : List (Nat × Nat × Nat)} {w : Writer}
  {s t : Screen}

/-- The glyph that a grid wants at a place. -/
def glyphAt (g : CellGrid) (x y : Nat) : Glyph :=
  ((g.get? x.toUInt16 y.toUInt16).getD Cell.blank).glyph

/-- Whether a place belongs to one of the runs, each given by row, column and length. -/
def Reach (runs : List (Nat × Nat × Nat)) (x y : Nat) : Prop :=
  ∃ run ∈ runs, run.1 = y ∧ run.2.1 ≤ x ∧ x < run.2.1 + run.2.2

/-- Runs that stay inside a grid. -/
def Holds (g : CellGrid) (runs : List (Nat × Nat × Nat)) : Prop :=
  ∀ run ∈ runs, run.1 < g.height.toNat ∧ run.2.1 + run.2.2 ≤ g.width.toNat

theorem exists_cell {x y : UInt16} (hx : x < g.width) (hy : y < g.height) :
    ∃ c, g.get? x y = some c := by
  have hlt := place_lt (UInt16.lt_iff_toNat_lt.1 hx) (UInt16.lt_iff_toNat_lt.1 hy)
  rw [← g.size_eq] at hlt
  exact ⟨_, (if_pos ⟨hx, hy⟩).trans (Array.getElem?_eq_getElem hlt)⟩

theorem map_glyph_get? {x y : UInt16} (hx : x < g.width) (hy : y < g.height) :
    (g.get? x y).map Cell.glyph = some (g.glyphAt x.toNat y.toNat) := by
  obtain ⟨c, hcell⟩ := exists_cell hx hy
  simp [glyphAt, hcell]

/-- A screen shows a grid when its places have the glyphs that the grid wants. -/
theorem shows_iff : s.Shows g ↔
    ∀ x < g.width.toNat, ∀ y < g.height.toNat, s.glyph x y = g.glyphAt x y := by
  constructor
  · intro h x hx y hy
    have hxNat := toNat_toUInt16 (Nat.le_of_lt hx)
    have hyNat := toNat_toUInt16 (Nat.le_of_lt hy)
    have hx' : x.toUInt16 < g.width := UInt16.lt_iff_toNat_lt.2 (by rwa [hxNat])
    have hy' : y.toUInt16 < g.height := UInt16.lt_iff_toNat_lt.2 (by rwa [hyNat])
    have hglyph := (map_glyph_get? hx' hy').symm.trans (h _ _ hx' hy')
    rw [hxNat, hyNat] at hglyph
    exact (Option.some.inj hglyph).symm
  · intro h x y hx hy
    rw [map_glyph_get? hx hy, h _ (UInt16.lt_iff_toNat_lt.1 hx) _ (UInt16.lt_iff_toNat_lt.1 hy)]

/-- A span of a grid brings its places to what the grid wants. -/
theorem redrawn_span {x y n : Nat} (hx : x + n ≤ g.width.toNat) (hy : y < g.height.toNat)
    (h : w.Leaves s t) : ∃ u, (w.writeSpan (g.span y x n)).Leaves s u ∧
      t.Redrawn g.glyphAt (fun a b => y = b ∧ x ≤ a ∧ a < x + n) u := by
  refine ⟨_, h.writeSpan _, ?_⟩
  have hxNat : x.toUInt16.toNat = x := toNat_toUInt16 (n := g.width) (by omega)
  have hyNat : y.toUInt16.toNat = y := toNat_toUInt16 (Nat.le_of_lt hy)
  have hline := Screen.redrawn_foldl_write g.glyphAt (g.span y x n).cells
    { t with column := (g.span y x n).x.toNat, row := (g.span y x n).y.toNat } ?_
  · refine ⟨fun a b hab => hline.drawn a b ?_, fun a b hab => hline.kept a b ?_⟩
    all_goals
      simp only [span, List.length_map, List.length_range, hxNat, hyNat]
      omega
  · intro i c hc
    simp only [span, List.getElem?_map] at hc ⊢
    obtain ⟨k, hk, rfl⟩ := Option.map_eq_some_iff.1 hc
    obtain ⟨hlt, hget⟩ := List.getElem?_eq_some_iff.1 hk
    rw [List.getElem_range] at hget
    subst hget
    rw [hxNat, hyNat, glyphAt]

theorem redrawn_spans (hruns : g.Holds runs) (h : w.Leaves s t) :
    ∃ u, ((runs.map fun (y, x, n) => g.span y x n).foldl Writer.writeSpan w).Leaves s u ∧
      t.Redrawn g.glyphAt (Reach runs) u := by
  induction runs generalizing w t with
  | nil => exact ⟨t, h, (Screen.Redrawn.refl rfl).congr fun x y => by simp [Reach]⟩
  | cons run runs ih =>
    obtain ⟨hy, hx⟩ := hruns run List.mem_cons_self
    obtain ⟨u, hu, htu⟩ := redrawn_span hx hy h
    obtain ⟨v, hv, huv⟩ := ih (fun r hr => hruns r (List.mem_cons_of_mem _ hr)) hu
    exact ⟨v, hv, (htu.trans huv).congr fun x y => by simp [Reach]⟩

/-- Commands that write runs of a grid bring their places to what the grid wants. -/
theorem redrawn_writeSpans (hruns : g.Holds runs) (h : w.Leaves s t) :
    t.Redrawn g.glyphAt (Reach runs)
      (s.execAll (w.writeSpans (runs.map fun (y, x, n) => g.span y x n))) := by
  obtain ⟨u, hu, htu⟩ := redrawn_spans hruns h
  rw [Writer.writeSpans, Writer.execAll_push, hu.screen]
  exact ⟨htu.drawn, htu.kept⟩

theorem le_runLength {width x : Nat} (hx : x < width) (hp : p x) :
    1 ≤ runLength p width x ∧ x + runLength p width x ≤ width := by
  have hle := (List.takeWhile_sublist (l := List.range' x (width - x)) p).length_le
  rw [List.length_range'] at hle
  obtain ⟨n, hn⟩ : ∃ n, width - x = n + 1 := ⟨width - x - 1, by omega⟩
  have hone : 1 ≤ runLength p width x := by
    rw [runLength, hn, List.range'_succ, List.takeWhile_cons_of_pos hp, List.length_cons]
    omega
  exact ⟨hone, by unfold runLength at *; omega⟩

theorem satisfies_of_lt_runLength {width x c : Nat} (hle : x ≤ c)
    (hlt : c < x + runLength p width x) : p c := by
  have hprefix := List.takeWhile_prefix (l := List.range' x (width - x)) p
  have hi : c - x < ((List.range' x (width - x)).takeWhile p).length := by
    rw [runLength] at hlt
    omega
  have hc := hprefix.getElem hi
  rw [List.getElem_range', Nat.one_mul, Nat.add_sub_cancel' hle] at hc
  exact hc ▸ List.all_eq_true.1 List.all_takeWhile _ (List.getElem_mem hi)

/-- A run ends at the end of the row or before a column that does not satisfy `p`. -/
theorem runLength_stops {width x : Nat} (hx : x ≤ width) :
    x + runLength p width x = width ∨ ¬ p (x + runLength p width x) := by
  have hlength : runLength p width x =
      min ((List.range' x (width - x)).findIdx fun c => !p c) (width - x) := by
    rw [runLength, List.takeWhile_eq_take_findIdx_not, List.length_take, List.length_range']
  rcases Nat.lt_or_ge (runLength p width x) (width - x) with hlt | hge
  · right
    have hfirst : (List.range' x (width - x)).findIdx (fun c => !p c) = runLength p width x := by
      omega
    have hin : (List.range' x (width - x)).findIdx (fun c => !p c) <
        (List.range' x (width - x)).length := by
      rwa [hfirst, List.length_range']
    have hstop := List.findIdx_getElem (w := hin)
    rw [List.getElem_range', hfirst, Nat.one_mul] at hstop
    simpa using hstop
  · left
    omega

/-- The runs stay inside the row and reach every column that satisfies `p`. -/
theorem runs_reach (p : Nat → Bool) (width x : Nat) :
    (∀ run ∈ CellGrid.runs p width x, run.1 + run.2 ≤ width) ∧
      ∀ c, x ≤ c → c < width → p c →
        ∃ run ∈ CellGrid.runs p width x, run.1 ≤ c ∧ c < run.1 + run.2 := by
  fun_induction CellGrid.runs p width x with
  | case1 x hx hp ih =>
    obtain ⟨hone, hend⟩ := le_runLength hx hp
    refine ⟨?_, ?_⟩
    · intro run hrun
      rcases List.mem_cons.1 hrun with rfl | hrun
      · exact hend
      · exact ih.1 run hrun
    · intro c hle hlt hc
      by_cases hin : c < x + runLength p width x
      · exact ⟨_, List.mem_cons_self, hle, hin⟩
      · obtain ⟨run, hrun, hreach⟩ := ih.2 c (by omega) hlt hc
        exact ⟨run, List.mem_cons_of_mem _ hrun, hreach⟩
  | case2 x hx hp ih =>
    refine ⟨ih.1, ?_⟩
    intro c hle hlt hc
    have hne : x ≠ c := by
      rintro rfl
      exact hp hc
    exact ih.2 c (by omega) hlt hc
  | case3 x hx => exact ⟨fun _ h => (nomatch h), fun c hle hlt _ => by omega⟩

/-- Every column of a run satisfies `p`. -/
theorem runs_satisfy (p : Nat → Bool) (width x : Nat) :
    ∀ run ∈ CellGrid.runs p width x, ∀ c, run.1 ≤ c → c < run.1 + run.2 → p c := by
  fun_induction CellGrid.runs p width x with
  | case1 x hx hp ih =>
    intro run hrun c hle hlt
    rcases List.mem_cons.1 hrun with rfl | hrun
    · exact satisfies_of_lt_runLength hle hlt
    · exact ih run hrun c hle hlt
  | case2 x hx hp ih => exact ih
  | case3 => exact fun _ h => nomatch h

theorem reach_changedRuns (hw : old.width = new.width) (hh : old.height = new.height) {x y : Nat}
    (hx : x < new.width.toNat) (hy : y < new.height.toNat)
    (hne : old.get? x.toUInt16 y.toUInt16 ≠ new.get? x.toUInt16 y.toUInt16) :
    Reach (changedRuns old new) x y := by
  obtain ⟨run, hrun, hreach⟩ := (runs_reach (fun x => old.get? x.toUInt16 y.toUInt16 ≠
    new.get? x.toUInt16 y.toUInt16) new.width.toNat 0).2 x (Nat.zero_le _) hx (by simpa using hne)
  refine ⟨(y, run), ?_, rfl, hreach⟩
  rw [changedRuns, if_pos ⟨hw, hh⟩]
  exact List.mem_flatMap.2 ⟨y, List.mem_range.2 hy, List.mem_map.2 ⟨run, hrun, rfl⟩⟩

/-- The rows of a grid, each as one run. -/
theorem holds_rows (g : CellGrid) :
    g.Holds ((List.range g.height.toNat).map fun y => (y, 0, g.width.toNat)) := by
  intro run hrun
  obtain ⟨y, hy, rfl⟩ := List.mem_map.1 hrun
  exact ⟨List.mem_range.1 hy, Nat.le_of_eq (Nat.zero_add _)⟩

theorem holds_changedRuns (old new : CellGrid) : new.Holds (changedRuns old new) := by
  by_cases hsize : old.width = new.width ∧ old.height = new.height
  · intro run hrun
    rw [changedRuns, if_pos hsize] at hrun
    obtain ⟨y, hy, hrun⟩ := List.mem_flatMap.1 hrun
    obtain ⟨⟨x, n⟩, hxn, rfl⟩ := List.mem_map.1 hrun
    exact ⟨List.mem_range.1 hy, (runs_reach _ _ _).1 _ hxn⟩
  · rw [changedRuns, if_neg hsize]
    exact new.holds_rows

theorem reach_rows {x y : Nat} (hx : x < g.width.toNat) (hy : y < g.height.toNat) :
    Reach ((List.range g.height.toNat).map fun y => (y, 0, g.width.toNat)) x y :=
  ⟨_, List.mem_map_of_mem (List.mem_range.2 hy), rfl, Nat.zero_le _, by rwa [Nat.zero_add]⟩

/-- Writing a whole grid shows it on any screen. -/
theorem shows_fullCommands (g : CellGrid) (s : Screen) : (s.execAll g.fullCommands).Shows g := by
  let start : Writer := { commands := #[.clear, .moveTo 0 0] }
  have hstart : start.Leaves s ((s.exec .clear).exec (.moveTo 0 0)) := ⟨rfl, nofun⟩
  have hdrawn := redrawn_writeSpans g.holds_rows hstart
  rw [List.map_map] at hdrawn
  exact shows_iff.2 fun x hx y hy => hdrawn.drawn x y (reach_rows hx hy)

/-- Writing the changes of a grid shows it on a screen that shows the old one. -/
theorem shows_diffCommands (hw : old.width = new.width) (hh : old.height = new.height)
    (h : s.Shows old) : (s.execAll (diffCommands old new)).Shows new := by
  have hdrawn := redrawn_writeSpans (w := {}) (s := s) (t := s) (holds_changedRuns old new)
    ⟨rfl, nofun⟩
  refine shows_iff.2 fun x hx y hy => ?_
  by_cases hreach : Reach (changedRuns old new) x y
  · exact hdrawn.drawn x y hreach
  · have hsame : old.get? x.toUInt16 y.toUInt16 = new.get? x.toUInt16 y.toUInt16 :=
      Decidable.not_not.1 (mt (reach_changedRuns hw hh hx hy) hreach)
    rw [diffCommands, hdrawn.kept x y hreach, shows_iff.1 h x (by rwa [hw]) y (by rwa [hh]),
      glyphAt, glyphAt, hsame]

end CellGrid

end TileViewer
