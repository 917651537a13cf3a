import TileViewer.Proofs.Terminal.Controls

/-!
The changed runs of two grids. In every row they are the longest runs of cells that differ, with a
gap between two of them. The commands made from them print the changed places row by row, each of
them once.
-/
namespace TileViewer

/-- What commands print, in their order: each glyph with its place. -/
def Screen.printed (s : Screen) : List TermCommand → List ((Nat × Nat) × Glyph)
  | [] => []
  | .print c :: commands =>
    ((s.column, s.row), ⟨c, s.fg, s.bg⟩) :: (s.exec (.print c)).printed commands
  | command :: commands => (s.exec command).printed commands

theorem Screen.printed_append (s : Screen) (before after : List TermCommand) :
    s.printed (before ++ after) = s.printed before ++ (before.foldl exec s).printed after := by
  induction before generalizing s with
  | nil => rfl
  | cons command before ih =>
    cases command with
    | print c => exact congrArg (List.cons _) (ih _)
    | _ => exact ih _

namespace Writer

variable {w : Writer} {s t : Screen}

/-- What the commands written so far print. -/
def printed (w : Writer) (s : Screen) : List ((Nat × Nat) × Glyph) := s.printed w.commands.toList

theorem printed_push (w : Writer) (c : TermCommand) (s : Screen) :
    (w.push c).printed s = w.printed s ++ (s.execAll w.commands).printed [c] := by
  rw [printed, push, Array.toList_push, Screen.printed_append, Array.foldl_toList]
  rfl

theorem printed_setPen (w : Writer) (fg bg : Rgb) (s : Screen) :
    (w.setPen fg bg).printed s = w.printed s := by
  unfold setPen
  split
  · rfl
  · have hfg := printed_push w (.foreground fg) s
    have hbg := printed_push (w.push (.foreground fg)) (.background bg) s
    exact hbg.trans ((List.append_nil _).trans (hfg.trans (List.append_nil _)))

theorem printed_writeCell (h : w.Leaves s t) (c : Cell) :
    (w.writeCell c).printed s = w.printed s ++ [((t.column, t.row), c.glyph)] := by
  rw [writeCell, printed_push, printed_setPen, (h.setPen c.fg c.bg).screen]
  rfl

theorem printed_writeCells (h : w.Leaves s t) (cells : List Cell) :
    (cells.foldl writeCell w).printed s =
      w.printed s ++ (cells.zipIdx t.column).map fun (c, x) => ((x, t.row), c.glyph) := by
  induction cells generalizing w t with
  | nil => exact (List.append_nil _).symm
  | cons c cells ih =>
    rw [List.foldl_cons, ih (h.writeCell c), printed_writeCell h, List.append_assoc,
      List.zipIdx_cons, List.map_cons]
    rfl

theorem printed_writeSpan (h : w.Leaves s t) (span : Span) :
    (w.writeSpan span).printed s = w.printed s ++
      (span.cells.zipIdx span.x.toNat).map fun (c, x) => ((x, span.y.toNat), c.glyph) := by
  rw [writeSpan, printed_writeCells (h.moveTo span.x span.y), printed_push]
  exact congrArg (· ++ _) (List.append_nil _)

end Writer

namespace CellGrid

variable {g old new : CellGrid} {p : Nat → Bool} {width a b c : Nat} {run run' : Nat × Nat}
  {runs : List (Nat × Nat × Nat)} {w : Writer} {s t : Screen}

/-- The places of a run that is given by row, column and length. -/
def runPlaces (run : Nat × Nat × Nat) : List (Nat × Nat) :=
  (List.range' run.2.1 run.2.2).map fun x => (x, run.1)

/-- A place with the glyph that a grid wants there. -/
def glyphPlace (g : CellGrid) (place : Nat × Nat) : (Nat × Nat) × Glyph :=
  (place, g.glyphAt place.1 place.2)

theorem printed_span {x y n : Nat} (hx : x + n ≤ g.width.toNat) (hy : y < g.height.toNat)
    (h : w.Leaves s t) : (w.writeSpan (g.span y x n)).printed s =
      w.printed s ++ (runPlaces (y, x, n)).map g.glyphPlace := by
  have hxNat : x.toUInt16.toNat = x := toNat_toUInt16 (n := g.width) (by omega)
  have hyNat : y.toUInt16.toNat = y := toNat_toUInt16 (Nat.le_of_lt hy)
  rw [Writer.printed_writeSpan h]
  apply congrArg (w.printed s ++ ·)
  apply List.ext_getElem
  · simp [span, runPlaces]
  · intro i _ _
    simp [span, runPlaces, glyphPlace, glyphAt, hxNat, hyNat]

/-- Runs that stay inside a grid are printed one after the other. -/
theorem printed_spans (hruns : g.Holds runs) (h : w.Leaves s t) :
    ((runs.map fun (y, x, n) => g.span y x n).foldl Writer.writeSpan w).printed s =
      w.printed s ++ (runs.flatMap runPlaces).map g.glyphPlace := by
  induction runs generalizing w t with
  | nil => exact (List.append_nil _).symm
  | cons run runs ih =>
    obtain ⟨hy, hx⟩ := hruns run List.mem_cons_self
    have hrest : g.Holds runs := fun r hr => hruns r (List.mem_cons_of_mem _ hr)
    rw [List.map_cons, List.foldl_cons, ih hrest (h.writeSpan _), printed_span hx hy h,
      List.flatMap_cons, List.map_append, List.append_assoc]

theorem printed_diffCommands (old new : CellGrid) (s : Screen) :
    s.printed (diffCommands old new).toList =
      ((changedRuns old new).flatMap runPlaces).map new.glyphPlace := by
  have hspans := printed_spans (w := {}) (s := s) (t := s) (holds_changedRuns old new) ⟨rfl, nofun⟩
  refine (Writer.printed_push _ .resetColors s).trans ?_
  rw [hspans]
  exact List.append_nil _

/-- A longest run of columns that satisfy `p`, among those from `a` on and before `width`. The run
is given by its first column and its length. -/
structure MaximalRun (p : Nat → Bool) (a width : Nat) (run : Nat × Nat) : Prop where
  pos : 0 < run.2
  bounds : a ≤ run.1 ∧ run.1 + run.2 ≤ width
  satisfied : ∀ c, run.1 ≤ c → c < run.1 + run.2 → p c
  left : run.1 = a ∨ ¬ p (run.1 - 1)
  right : run.1 + run.2 = width ∨ ¬ p (run.1 + run.2)

namespace MaximalRun

/-- A run does not begin where it could not. -/
theorem lt_of_stop (h : MaximalRun p b width run) (hb : b = width ∨ ¬ p b) : b < run.1 := by
  obtain ⟨hle, hend⟩ := h.bounds
  have hpos := h.pos
  apply Nat.lt_of_le_of_ne hle
  rintro rfl
  rcases hb with hb | hb
  · omega
  · exact hb (h.satisfied _ (Nat.le_refl _) (by omega))

/-- Columns in front of a longest run leave it one, if the last of them does not belong to it. -/
theorem of_behind (h : MaximalRun p b width run) (hab : a ≤ b)
    (hb : run.1 = b → ¬ p (b - 1)) : MaximalRun p a width run where
  pos := h.pos
  bounds := ⟨Nat.le_trans hab h.bounds.1, h.bounds.2⟩
  satisfied := h.satisfied
  left := by
    rcases h.left with heq | hleft
    · exact .inr (heq ▸ hb heq)
    · exact .inr hleft
  right := h.right

/-- Of two longest runs that meet, neither begins before the other. -/
theorem start_le (h : MaximalRun p a width run) (h' : MaximalRun p a width run')
    (hc : c < run.1 + run.2) (hc' : run'.1 ≤ c) : run'.1 ≤ run.1 := by
  rcases Nat.lt_or_ge run.1 run'.1 with hlt | hge
  · have hin := h.satisfied (run'.1 - 1) (by omega) (by omega)
    rcases h'.left with heq | hleft
    · have := h.bounds.1
      omega
    · exact absurd hin hleft
  · exact hge

/-- Of two longest runs that meet, neither ends before the other. -/
theorem end_le (h : MaximalRun p a width run) (h' : MaximalRun p a width run')
    (hc : c < run.1 + run.2) (hc' : run'.1 ≤ c) : run'.1 + run'.2 ≤ run.1 + run.2 := by
  rcases Nat.lt_or_ge (run.1 + run.2) (run'.1 + run'.2) with hlt | hge
  · have hin := h'.satisfied (run.1 + run.2) (by omega) hlt
    rcases h.right with heq | hright
    · have := h'.bounds.2
      omega
    · exact absurd hin hright
  · exact hge

theorem eq_of_meet (h : MaximalRun p a width run) (h' : MaximalRun p a width run')
    (hle : run.1 ≤ c) (hlt : c < run.1 + run.2) (hle' : run'.1 ≤ c) (hlt' : c < run'.1 + run'.2) :
    run = run' := by
  have hstart := Nat.le_antisymm (h'.start_le h hlt' hle) (h.start_le h' hlt hle')
  have hend := Nat.le_antisymm (h'.end_le h hlt' hle) (h.end_le h' hlt hle')
  exact Prod.ext hstart (by omega)

end MaximalRun

theorem maximalRun_of_mem (p : Nat → Bool) (width a : Nat) :
    ∀ run ∈ CellGrid.runs p width a, MaximalRun p a width run := by
  fun_induction CellGrid.runs p width a with
  | case1 a ha hp ih =>
    obtain ⟨hone, hend⟩ := le_runLength ha hp
    have hstop := runLength_stops (p := p) (Nat.le_of_lt ha)
    intro run hrun
    rcases List.mem_cons.1 hrun with rfl | hrun
    · exact ⟨hone, ⟨Nat.le_refl a, hend⟩, fun c => satisfies_of_lt_runLength, .inl rfl, hstop⟩
    · -- No run begins in the column where the first one stops, so the later ones lie behind a gap.
      rw [Nat.max_eq_right hone] at ih hrun
      refine (ih run hrun).of_behind (Nat.le_add_right _ _) fun heq => ?_
      have hgap := (ih run hrun).lt_of_stop hstop
      omega
  | case2 a ha hp ih =>
    intro run hrun
    exact (ih run hrun).of_behind (Nat.le_succ a) fun _ => hp
  | case3 =>
    intro run hrun
    exact absurd hrun List.not_mem_nil

/-- The scan finds the longest runs and nothing else. -/
theorem mem_runs_iff : run ∈ CellGrid.runs p width a ↔ MaximalRun p a width run := by
  refine ⟨maximalRun_of_mem p width a run, ?_⟩
  intro h
  have hpos := h.pos
  obtain ⟨hle, hend⟩ := h.bounds
  -- The scan reaches the first column of the run, and longest runs that meet there are the same.
  obtain ⟨run', hrun', hle', hlt'⟩ := (runs_reach p width a).2 run.1 hle (by omega)
    (h.satisfied _ (Nat.le_refl _) (by omega))
  have hsame := h.eq_of_meet (maximalRun_of_mem p width a run' hrun') (Nat.le_refl _) (by omega)
    hle' hlt'
  exact hsame ▸ hrun'

/-- Between two runs there is a column that belongs to neither. -/
theorem pairwise_runs (p : Nat → Bool) (width a : Nat) :
    (CellGrid.runs p width a).Pairwise fun run run' => run.1 + run.2 < run'.1 := by
  fun_induction CellGrid.runs p width a with
  | case1 a ha hp ih =>
    obtain ⟨hone, -⟩ := le_runLength ha hp
    rw [Nat.max_eq_right hone] at ih ⊢
    refine List.pairwise_cons.2 ⟨?_, ih⟩
    intro run hrun
    exact (maximalRun_of_mem p width _ run hrun).lt_of_stop (runLength_stops (Nat.le_of_lt ha))
  | case2 a ha hp ih => exact ih
  | case3 => exact .nil

/-- The columns of the runs are those that satisfy `p`, in their order. -/
theorem columns_runs (p : Nat → Bool) (width a : Nat) :
    ((CellGrid.runs p width a).flatMap fun run => List.range' run.1 run.2) =
      (List.range' a (width - a)).filter p := by
  fun_induction CellGrid.runs p width a with
  | case1 a ha hp ih =>
    obtain ⟨hone, hend⟩ := le_runLength ha hp
    rw [Nat.max_eq_right hone] at ih ⊢
    have hsplit : List.range' a (width - a) = List.range' a (runLength p width a) ++
        List.range' (a + runLength p width a) (width - (a + runLength p width a)) := by
      rw [List.range'_append_1]
      congr 1
      omega
    have hrun : (List.range' a (runLength p width a)).filter p =
        List.range' a (runLength p width a) := by
      refine List.filter_eq_self.2 ?_
      intro c hc
      obtain ⟨hle, hlt⟩ := List.mem_range'_1.1 hc
      exact satisfies_of_lt_runLength hle hlt
    rw [List.flatMap_cons, ih, hsplit, List.filter_append, hrun]
  | case2 a ha hp ih =>
    obtain ⟨n, hn⟩ : ∃ n, width - a = n + 1 := ⟨width - a - 1, by omega⟩
    have hrest : width - (a + 1) = n := by omega
    rw [ih, hn, hrest, List.range'_succ, List.filter_cons_of_neg hp]
  | case3 a ha =>
    rw [Nat.sub_eq_zero_of_le (Nat.not_lt.1 ha)]
    rfl

/-- Whether two grids differ in column `x` of row `y`. -/
def differs (old new : CellGrid) (y x : Nat) : Bool :=
  old.get? x.toUInt16 y.toUInt16 ≠ new.get? x.toUInt16 y.toUInt16

theorem mem_changedRuns_iff (hsize : old.width = new.width ∧ old.height = new.height) (y : Nat) :
    (y, run) ∈ changedRuns old new ↔
      y < new.height.toNat ∧ MaximalRun (differs old new y) 0 new.width.toNat run := by
  rw [changedRuns, if_pos hsize, ← mem_runs_iff]
  constructor
  · intro hrun
    obtain ⟨row, hrow, hrun⟩ := List.mem_flatMap.1 hrun
    obtain ⟨found, hfound, heq⟩ := List.mem_map.1 hrun
    cases heq
    exact ⟨List.mem_range.1 hrow, hfound⟩
  · rintro ⟨hy, hrun⟩
    exact List.mem_flatMap.2 ⟨y, List.mem_range.2 hy, List.mem_map.2 ⟨run, hrun, rfl⟩⟩

/-- One run comes before another: in a row above, or in the same row with a gap between them. -/
def Before (run run' : Nat × Nat × Nat) : Prop :=
  run.1 < run'.1 ∨ run.1 = run'.1 ∧ run.2.1 + run.2.2 < run'.2.1

theorem pairwise_changedRuns (hsize : old.width = new.width ∧ old.height = new.height) :
    (changedRuns old new).Pairwise Before := by
  rw [changedRuns, if_pos hsize, List.pairwise_flatMap]
  constructor
  · intro y _
    exact List.pairwise_map.2 ((pairwise_runs _ _ _).imp fun hgap => .inr ⟨rfl, hgap⟩)
  · refine List.pairwise_lt_range.imp ?_
    intro y y' hlt run hrun run' hrun'
    obtain ⟨_, -, rfl⟩ := List.mem_map.1 hrun
    obtain ⟨_, -, rfl⟩ := List.mem_map.1 hrun'
    exact .inl hlt

instance (old new : CellGrid) (x y : UInt16) : Decidable (Changed old new x y) :=
  inferInstanceAs (Decidable (_ → _))

/-- The places of a grid that are written anew, row by row. -/
def changedPlaces (old new : CellGrid) : List (Nat × Nat) :=
  (List.range new.height.toNat).flatMap fun y =>
    ((List.range new.width.toNat).filter fun x => Changed old new x.toUInt16 y.toUInt16).map
      fun x => (x, y)

theorem mem_changedPlaces_iff {x y : Nat} : (x, y) ∈ changedPlaces old new ↔
    x < new.width.toNat ∧ y < new.height.toNat ∧ Changed old new x.toUInt16 y.toUInt16 := by
  simp only [changedPlaces, List.mem_flatMap, List.mem_map, List.mem_filter, List.mem_range,
    decide_eq_true_eq, Prod.mk.injEq]
  constructor
  · rintro ⟨_, hy, _, ⟨hx, hchanged⟩, rfl, rfl⟩
    exact ⟨hx, hy, hchanged⟩
  · rintro ⟨hx, hy, hchanged⟩
    exact ⟨y, hy, x, ⟨hx, hchanged⟩, rfl, rfl⟩

theorem nodup_changedPlaces (old new : CellGrid) : (changedPlaces old new).Nodup := by
  refine List.pairwise_flatMap.2 ⟨?_, ?_⟩
  · intro y _
    refine List.pairwise_map.2 ((List.pairwise_lt_range.filter _).imp ?_)
    intro x x' hlt heq
    exact absurd (congrArg Prod.fst heq) (Nat.ne_of_lt hlt)
  · refine List.pairwise_lt_range.imp ?_
    intro y y' hlt place hplace place' hplace' heq
    obtain ⟨_, -, rfl⟩ := List.mem_map.1 hplace
    obtain ⟨_, -, rfl⟩ := List.mem_map.1 hplace'
    exact absurd (congrArg Prod.snd heq) (Nat.ne_of_lt hlt)

/-- The runs make up the changed places, in their order. -/
theorem places_changedRuns (old new : CellGrid) :
    (changedRuns old new).flatMap runPlaces = changedPlaces old new := by
  unfold changedPlaces
  by_cases hsize : old.width = new.width ∧ old.height = new.height
  · have hrow (y : Nat) : (fun x => decide (Changed old new x.toUInt16 y.toUInt16)) =
        differs old new y := by
      funext x
      simp [Changed, differs, hsize]
    rw [changedRuns, if_pos hsize, List.flatMap_assoc]
    refine congrArg (List.flatMap · _) (funext fun y => ?_)
    have hcolumns := columns_runs (differs old new y) new.width.toNat 0
    rw [hrow, List.range_eq_range', ← Nat.sub_zero new.width.toNat, ← hcolumns, List.flatMap_map,
      List.map_flatMap]
    rfl
  · have hrow (y : Nat) : (fun x : Nat => decide (Changed old new x.toUInt16 y.toUInt16)) =
        fun _ => true := by
      funext x
      simp [Changed, hsize]
    rw [changedRuns, if_neg hsize, List.flatMap_map]
    refine congrArg (List.flatMap · _) (funext fun y => ?_)
    rw [hrow, List.filter_eq_self.2 fun _ _ => rfl, List.range_eq_range']
    rfl

/-- For two grids of one size the changed runs are exactly the longest runs of cells that differ,
row by row from the left and with a gap between two runs of one row. For any two grids the runs
make up the changed places, which for grids of different sizes are all places of the new one, and
the commands print each of these once, with the cell of the new grid, and no other place. -/
theorem changedRuns_maximal (old new : CellGrid) (s : Screen) :
    (old.width = new.width ∧ old.height = new.height →
      (changedRuns old new).Pairwise Before ∧
        ∀ y run, (y, run) ∈ changedRuns old new ↔
          y < new.height.toNat ∧ MaximalRun (differs old new y) 0 new.width.toNat run) ∧
    (changedRuns old new).flatMap runPlaces = changedPlaces old new ∧
    s.printed (diffCommands old new).toList = (changedPlaces old new).map new.glyphPlace ∧
    (changedPlaces old new).Nodup ∧
    ∀ x y : Nat, (x, y) ∈ changedPlaces old new ↔
      x < new.width.toNat ∧ y < new.height.toNat ∧ Changed old new x.toUInt16 y.toUInt16 := by
  have hplaces := places_changedRuns old new
  refine ⟨?_, hplaces, ?_, nodup_changedPlaces old new, fun x y => mem_changedPlaces_iff⟩
  · intro hsize
    exact ⟨pairwise_changedRuns hsize, fun y run => mem_changedRuns_iff hsize y⟩
  · rw [printed_diffCommands, hplaces]

/-- Three neighbours that differ are one run, and one that stands apart is another. -/
theorem changedRuns_maximal_apart :
    let cross : Cell := ⟨'x', ⟨1, 2, 3⟩, ⟨0, 0, 0⟩⟩
    let old := blank 6 1
    let new := [1, 2, 3, 5].foldl (fun g x => g.set x 0 cross) old
    let s : Screen := ⟨fun _ _ => .blank, 0, 0, none, none⟩
    (old.width = new.width ∧ old.height = new.height) ∧
      (0, 1, 3) ∈ changedRuns old new ∧ (0, 5, 1) ∈ changedRuns old new ∧
      s.printed (diffCommands old new).toList = [((1, 0), cross.glyph), ((2, 0), cross.glyph),
        ((3, 0), cross.glyph), ((5, 0), cross.glyph)] := by
  intro cross old new s
  have hsize : old.width = new.width ∧ old.height = new.height := by decide
  obtain ⟨hruns, -, hprinted, -⟩ := changedRuns_maximal old new s
  have hmem := (hruns hsize).2
  have hthree : MaximalRun (differs old new 0) 0 6 (1, 3) := by
    refine ⟨by decide, by decide, ?_, .inr (by decide), .inr (by decide)⟩
    intro c hle hlt
    obtain rfl | rfl | rfl : c = 1 ∨ c = 2 ∨ c = 3 := by
      dsimp only at hle hlt
      omega
    all_goals decide
  have hone : MaximalRun (differs old new 0) 0 6 (5, 1) := by
    refine ⟨by decide, by decide, ?_, .inr (by decide), .inl rfl⟩
    intro c hle hlt
    obtain rfl : c = 5 := by
      dsimp only at hle hlt
      omega
    decide
  refine ⟨hsize, (hmem 0 (1, 3)).2 ⟨by decide, hthree⟩, (hmem 0 (5, 1)).2 ⟨by decide, hone⟩, ?_⟩
  rw [hprinted]
  decide

end CellGrid

end TileViewer
