import TileViewer.Proofs.Tile.Writes

/-!
Cells at the ends of the coordinate range. The coordinate of a cell is a sum that stops at the ends
after each addition, so that a cell can be stored on another one's coordinate. The frames of which
every cell is stored where it belongs are those with no sum that stops.
-/
namespace TileViewer

variable {frame : Frame} {patch : Patch} {tiles : TileStore} {y z : Int32} {n i : Nat}

/-- A filter of one map of a list that gives another map of it has let everything through. -/
theorem map_eq_filter_map_iff {α β : Type} {as : List α} {f g : α → β} {p : β → Bool} :
    as.map f = (as.map g).filter p ↔ ∀ a ∈ as, f a = g a ∧ p (g a) := by
  constructor
  · intro h
    have hlength : ((as.map g).filter p).length = (as.map g).length := by
      rw [← h, List.length_map, List.length_map]
    have hall := List.length_filter_eq_length_iff.1 hlength
    rw [List.filter_eq_self.2 hall] at h
    intro a ha
    exact ⟨List.map_inj_left.1 h a ha, hall _ (List.mem_map_of_mem ha)⟩
  · intro h
    have hall : ∀ b ∈ as.map g, p b := by
      intro b hb
      obtain ⟨a, ha, rfl⟩ := List.mem_map.1 hb
      exact (h a ha).2
    rw [List.filter_eq_self.2 hall]
    apply List.map_congr_left
    intro a ha
    exact (h a ha).1

theorem toInt_ofNat (hn : n < 2 ^ 32) :
    (Int32.ofNat n).toInt = if n < 2 ^ 31 then (n : Int) else n - 2 ^ 32 := by
  have hmod : (Int32.ofNat n).toInt = (n : Int).bmod (2 ^ 32) := Int32.toInt_ofNat'
  rw [hmod, Int.bmod_def]
  split <;> split <;> omega

/-- Where the first column of a patch is a coordinate, the sum of a further one is exact if it does
not stop on the way, and only then. -/
theorem toInt_sum_eq_iff (hn : n < 2 ^ 32) (hfirst : FitsCoord (y.toInt + z.toInt))
    (hsum : FitsCoord (n + y.toInt + z.toInt)) :
    (Word.plusSat (Word.plusSat (Int32.ofNat n) y) z).toInt = n + y.toInt + z.toInt ↔
      FitsCoord n ∧ FitsCoord (n + y.toInt) := by
  have hy := y.le_toInt
  have hy' := y.toInt_lt
  have hz := z.le_toInt
  have hz' := z.toInt_lt
  rw [toInt_plusSat, toInt_plusSat, toInt_ofNat hn]
  unfold FitsCoord at *
  -- A number that is no coordinate wraps to one far left; from there no sum comes back.
  split <;> omega

/-- A sum that stops on the way to a row that a store takes ends in another such row. -/
theorem toInt_row_bounds (hn : n ≤ 32767) (hlo : 0 ≤ n + y.toInt + z.toInt)
    (hhi : n + y.toInt + z.toInt ≤ 32767) :
    -32768 < (Word.plusSat (Word.plusSat (Int32.ofNat n) y) z).toInt ∧
      (Word.plusSat (Word.plusSat (Int32.ofNat n) y) z).toInt < 32768 := by
  have hy := y.le_toInt
  have hz := z.le_toInt
  rw [toInt_plusSat, toInt_plusSat, toInt_ofNat (by omega), if_pos (by omega)]
  omega

/-- The usable cells whose column is a coordinate, where they belong. -/
def Frame.belonging (frame : Frame) : List ((Int × Int) × LayerStack) :=
  frame.placed.filter fun w => FitsCoord w.1.1

/-- The writes of a frame that a store takes, in order. -/
def Patcher.stored (frame : Frame) : List (Coord × LayerStack) :=
  (writes frame).filter fun w => rowFits w.1.2

/-- A frame whose cells all lie in the lower rows that a store takes. -/
def Frame.InLowerRows (frame : Frame) : Prop := ∀ w ∈ frame.placed, 0 ≤ w.1.2 ∧ w.1.2 ≤ 32767

/-- A cell with no sum that stops before the view is added: its column is not too far right, and its
row is not too far down. -/
structure Patch.SumsPass (patch : Patch) (i : Nat) : Prop where
  number : FitsCoord (i % patch.width.toNat : Nat)
  column : FitsCoord ((i % patch.width.toNat : Nat) + patch.x.toInt)
  row : FitsCoord ((i / patch.width.toNat : Nat) + patch.y.toInt)

instance (patch : Patch) (i : Nat) : Decidable (patch.SumsPass i) :=
  decidable_of_iff (FitsCoord (i % patch.width.toNat : Nat) ∧
    FitsCoord ((i % patch.width.toNat : Nat) + patch.x.toInt) ∧
    FitsCoord ((i / patch.width.toNat : Nat) + patch.y.toInt))
    ⟨fun ⟨hnumber, hcolumn, hrow⟩ => ⟨hnumber, hcolumn, hrow⟩,
      fun ⟨hnumber, hcolumn, hrow⟩ => ⟨hnumber, hcolumn, hrow⟩⟩

/-- A frame with no sum that stops at an end of the range. -/
def Frame.NoSumStops (frame : Frame) : Prop :=
  ∀ patch ∈ frame.patches, ∀ i < patch.usableCells,
    patch.SumsPass i ∧ FitsCoord (patch.placeOf frame i).1

theorem TileStore.insertAll_filter (ws : List (Coord × LayerStack)) :
    tiles.insertAll (ws.filter fun w => rowFits w.1.2) = tiles.insertAll ws := by
  induction ws generalizing tiles with
  | nil => rfl
  | cons w ws ih =>
    have hrest : tiles.insertAll (w :: ws) = (tiles.insert w.1.1 w.1.2 w.2).insertAll ws := rfl
    by_cases hw : rowFits w.1.2
    · simp only [List.filter_cons, hw, if_true]
      exact ih
    · have hsame : tiles.insert w.1.1 w.1.2 w.2 = tiles := if_neg hw
      simp only [List.filter_cons, hw, Bool.false_eq_true, if_false]
      rw [ih, hrest, hsame]

namespace Frame.InLowerRows

variable (h : frame.InLowerRows)

include h

theorem row_bounds (hpatch : patch ∈ frame.patches) (hi : i < patch.usableCells) :
    0 ≤ (patch.placeOf frame i).2 ∧ (patch.placeOf frame i).2 ≤ 32767 := by
  obtain ⟨stack, hc⟩ := exists_cell hpatch hi
  have hmem : (patch.placeOf frame i, stack) ∈ frame.placed := by
    rw [frame.placed_eq_map]
    exact List.mem_map_of_mem hc
  exact h _ hmem

/-- The first cell of a patch lies in the same rows, so that no cell is many lines further. -/
theorem line_le (hpatch : patch ∈ frame.patches) (hi : i < patch.usableCells) :
    i / patch.width.toNat ≤ 32767 := by
  have hfirst := h.row_bounds hpatch (Nat.zero_lt_of_lt hi)
  have hrow := h.row_bounds hpatch hi
  simp only [Patch.placeOf, Nat.zero_div] at hfirst hrow
  omega

theorem stored_eq : Patcher.stored frame = Patcher.writes frame := by
  apply List.filter_eq_self.2
  intro w hw
  obtain ⟨patch, hpatch, i, hi, hwi⟩ := Patcher.mem_writes hw
  obtain ⟨hlo, hhi⟩ := h.row_bounds hpatch hi
  rw [← hwi]
  exact Coord.accepted_iff.2 (toInt_row_bounds (h.line_le hpatch hi) hlo hhi)

/-- Which cells of a patch are stored where they belong, among those with a column. -/
theorem exact_cellAt_iff (hpatch : patch ∈ frame.patches) (hi : i < patch.usableCells)
    (hfirst : FitsCoord (patch.placeOf frame 0).1) (hcolumn : FitsCoord (patch.placeOf frame i).1) :
    Coord.exact (Patcher.cellAt frame patch i) = patch.placeOf frame i ↔ patch.SumsPass i := by
  have hwidth := patch.width.toNat_lt
  have hpos : 0 < patch.width.toNat := by
    have harea : i < patch.width.toNat * patch.height.toNat := by
      rw [patch.usableCells_eq] at hi
      omega
    exact Nat.pos_of_mul_pos_right (Nat.zero_lt_of_lt harea)
  have hmod := Nat.mod_lt i hpos
  have hline := h.line_le hpatch hi
  have hrow := h.row_bounds hpatch hi
  have hrow' := h.row_bounds hpatch (Nat.zero_lt_of_lt hi)
  simp only [Patch.placeOf, Nat.zero_div, Nat.zero_mod, Int.natCast_zero, Int.zero_add]
    at hfirst hcolumn hrow hrow'
  have hcolumns := toInt_sum_eq_iff (by omega) hfirst hcolumn
  have hrows := toInt_sum_eq_iff (n := i / patch.width.toNat) (y := patch.y) (z := frame.viewY)
    (by omega) (by unfold FitsCoord; omega) (by unfold FitsCoord; omega)
  constructor
  · intro heq
    obtain ⟨hnumber, hsum⟩ := hcolumns.1 (congrArg Prod.fst heq)
    exact ⟨hnumber, hsum, (hrows.1 (congrArg Prod.snd heq)).2⟩
  · rintro ⟨hnumber, hsum, hsum'⟩
    have hlines : FitsCoord (i / patch.width.toNat : Nat) := by
      unfold FitsCoord
      omega
    exact Prod.ext (hcolumns.2 ⟨hnumber, hsum⟩) (hrows.2 ⟨hlines, hsum'⟩)

theorem stored_exact_iff :
    ((Patcher.stored frame).map fun w => (w.1.exact, w.2)) = frame.belonging ↔
      frame.NoSumStops := by
  rw [h.stored_eq, Frame.belonging, Patcher.writes_eq_map, frame.placed_eq_map, List.map_map,
    map_eq_filter_map_iff]
  constructor
  · intro hall
    have hcell : ∀ patch ∈ frame.patches, ∀ i < patch.usableCells,
        Coord.exact (Patcher.cellAt frame patch i) = patch.placeOf frame i ∧
          FitsCoord (patch.placeOf frame i).1 := by
      intro patch hpatch i hi
      obtain ⟨stack, hc⟩ := exists_cell hpatch hi
      obtain ⟨hplace, hcolumn⟩ := hall _ hc
      exact ⟨congrArg Prod.fst hplace, of_decide_eq_true hcolumn⟩
    intro patch hpatch i hi
    -- Where a cell is usable the first one of its patch is too, and has a column.
    obtain ⟨-, hfirst⟩ := hcell patch hpatch 0 (Nat.zero_lt_of_lt hi)
    obtain ⟨hplace, hcolumn⟩ := hcell patch hpatch i hi
    exact ⟨(h.exact_cellAt_iff hpatch hi hfirst hcolumn).1 hplace, hcolumn⟩
  · rintro hno ⟨patch, i, stack⟩ hc
    obtain ⟨hpatch, hi⟩ := mem_cells hc
    obtain ⟨-, hfirst⟩ := hno patch hpatch 0 (Nat.zero_lt_of_lt hi)
    obtain ⟨hpass, hcolumn⟩ := hno patch hpatch i hi
    have hplace := (h.exact_cellAt_iff hpatch hi hfirst hcolumn).2 hpass
    exact ⟨Prod.ext hplace rfl, decide_eq_true hcolumn⟩

/-- A frame that is stored where it belongs writes the last cell on each coordinate, and no other
coordinate of its rows. -/
theorem get?_stored (hno : frame.NoSumStops) (tiles : TileStore) {x y : Int32} (hy : 0 ≤ y.toInt) :
    (tiles.insertAll (Patcher.stored frame)).get? x y =
      (lastAt frame.belonging (x.toInt, y.toInt)).or (tiles.get? x y) := by
  have hplaces := h.stored_exact_iff.2 hno
  have hlast : lastAt frame.belonging (x.toInt, y.toInt) =
      lastAt (Patcher.stored frame) (x, y) := by
    rw [← hplaces]
    exact lastAt_map Coord.exact_injective (x, y)
  rw [hlast]
  by_cases hfits : rowFits y
  · refine TileStore.get?_insertAll_apart (d := (x, y)) hfits ?_
    intro w hw _ htwins
    have hmem : (w.1.exact, w.2) ∈ frame.belonging := by
      rw [← hplaces]
      exact List.mem_map_of_mem hw
    have hrow := h _ (List.mem_filter.1 hmem).1
    have hrow' := (Coord.accepted_iff (c := (x, y))).1 hfits
    simp only [Coord.exact, Coord.Twins, Coord.Before, rowStride] at hrow hrow' htwins
    omega
  · have hnone : lastAt (Patcher.stored frame) (x, y) = none := by
      apply lastAt_eq_none
      intro w hw hplace
      have hw' := (List.mem_filter.1 hw).2
      rw [hplace] at hw'
      exact hfits hw'
    rw [hnone, Option.none_or, TileStore.get?, TileStore.get?, if_neg hfits, if_neg hfits]

end Frame.InLowerRows

namespace Patcher

/-- For frames in the lower rows: applying one stores its writes, whatever the window, grid and
earlier view. They are its usable cells with a column, each where it belongs, exactly when no sum
stops; and then each coordinate of these rows has the last cell on it, or what it had before. -/
theorem stored_in_place_iff (tiles : TileStore) (h : frame.InLowerRows) :
    (∀ (p : Patcher) (window : Window) (g : DirtyGrid),
      (∀ summary p' tiles' g', p.apply frame window tiles g = .ok (summary, p', tiles', g') →
        tiles' = tiles.insertAll (stored frame) ∧ summary.cellsWritten = (stored frame).length) ∧
      (CanMark p.sprite g → ∃ out, p.apply frame window tiles g = .ok out)) ∧
    (((stored frame).map fun w => (w.1.exact, w.2)) = frame.belonging ↔ frame.NoSumStops) ∧
    (frame.NoSumStops → ∀ x y : Int32, 0 ≤ y.toInt →
      (tiles.insertAll (stored frame)).get? x y =
        (lastAt frame.belonging (x.toInt, y.toInt)).or (tiles.get? x y)) := by
  refine ⟨?_, h.stored_exact_iff, fun hno x y hy => h.get?_stored hno tiles hy⟩
  intro p window g
  refine ⟨?_, ?_⟩
  · intro summary p' tiles' g' happly
    obtain ⟨-, rfl, -, rfl⟩ := apply_eq_ok happly
    exact ⟨(TileStore.insertAll_filter (writes frame)).symm, List.countP_eq_length_filter⟩
  · intro hcan
    obtain ⟨marks, hmarks, -⟩ := hcan.gives_markAll frame window
    exact ⟨_, apply_of_markAll hmarks tiles⟩

/-- Cells in the last two columns of the range, brought there by a view and a patch that both begin
inside. -/
theorem stored_in_place_last_columns :
    ∃ frame : Frame, frame.InLowerRows ∧ frame.NoSumStops ∧ ∀ tiles : TileStore,
      (tiles.insertAll (stored frame)).get? 2147483647 5 = some [⟨2, .none⟩] ∧
      (tiles.insertAll (stored frame)).get? 2147483646 5 = some [⟨1, .none⟩] ∧
      (tiles.insertAll (stored frame)).get? (-2147483648) 5 = tiles.get? (-2147483648) 5 := by
  let patch : Patch := ⟨46, 5, 2, 1, [[⟨1, .none⟩], [⟨2, .none⟩]]⟩
  let frame : Frame := ⟨1, 2147483600, 0, 2, 1, [patch], [], false, none⟩
  have hrows : frame.InLowerRows := by
    unfold Frame.InLowerRows
    decide
  have hno : frame.NoSumStops := by
    unfold Frame.NoSumStops
    decide
  have hlast : lastAt frame.belonging ((2147483647 : Int32).toInt, (5 : Int32).toInt) =
      some [⟨2, .none⟩] := by decide
  have hsecond : lastAt frame.belonging ((2147483646 : Int32).toInt, (5 : Int32).toInt) =
      some [⟨1, .none⟩] := by decide
  have hfirst : lastAt frame.belonging ((-2147483648 : Int32).toInt, (5 : Int32).toInt) = none := by
    decide
  refine ⟨frame, hrows, hno, ?_⟩
  intro tiles
  have hget := (stored_in_place_iff tiles hrows).2.2 hno
  refine ⟨?_, ?_, ?_⟩
  · rw [hget 2147483647 5 (by decide), hlast, Option.some_or]
  · rw [hget 2147483646 5 (by decide), hsecond, Option.some_or]
  · rw [hget (-2147483648) 5 (by decide), hfirst, Option.none_or]

/-- Two cells of a patch that begins at the last column, in a view one column before the first. Both
belong to the world, but the sum of the second one stops, and it is stored over the first. A cell
past the last column belongs nowhere, and is stored over whatever is there. -/
theorem last_column_overwrites :
    ∃ frame past : Frame, frame.InLowerRows ∧ past.InLowerRows ∧
      frame.belonging = [((2147483646, 0), [⟨1, .none⟩]), ((2147483647, 0), [⟨2, .none⟩])] ∧
      past.belonging = [] ∧
      ∀ (tiles : TileStore) (p : Patcher) (window : Window) (g : DirtyGrid) summary p' tiles' g',
        (p.apply frame window tiles g = .ok (summary, p', tiles', g') →
          tiles'.get? 2147483646 0 = some [⟨2, .none⟩] ∧
          tiles'.get? 2147483647 0 = tiles.get? 2147483647 0) ∧
        (p.apply past window tiles g = .ok (summary, p', tiles', g') →
          tiles'.get? 2147483647 0 = some [⟨3, .none⟩]) := by
  let patch : Patch := ⟨2147483647, 0, 2, 1, [[⟨1, .none⟩], [⟨2, .none⟩]]⟩
  let frame : Frame := ⟨1, -1, 0, 2, 1, [patch], [], false, none⟩
  let past : Frame := ⟨2, 2147483647, 0, 1, 1, [⟨1, 0, 1, 1, [[⟨3, .none⟩]]⟩], [], false, none⟩
  have hrows : frame.InLowerRows ∧ past.InLowerRows := by
    unfold Frame.InLowerRows
    decide
  have hband : ∀ w ∈ writes frame, rowFits w.1.2 → w.1.InBand := by decide
  have hband' : ∀ w ∈ writes past, rowFits w.1.2 → w.1.InBand := by decide
  have hover : lastAt (writes frame) (2147483646, 0) = some [⟨2, .none⟩] := by decide
  have hmissed : lastAt (writes frame) (2147483647, 0) = none := by decide
  have hpast : lastAt (writes past) (2147483647, 0) = some [⟨3, .none⟩] := by decide
  refine ⟨frame, past, hrows.1, hrows.2, by decide, by decide, ?_⟩
  intro tiles p window g summary p' tiles' g'
  refine ⟨?_, ?_⟩
  · intro happly
    obtain ⟨-, -, -, rfl⟩ := apply_eq_ok happly
    have hget (d : Coord) (hd : d.InBand) :
        (tiles.insertAll (writes frame)).get? d.1 d.2 =
          (lastAt (writes frame) d).or (tiles.get? d.1 d.2) := TileStore.get?_insertAll hd hband
    have hfirst := hget (2147483646, 0) (by decide)
    have hsecond := hget (2147483647, 0) (by decide)
    rw [hover, Option.some_or] at hfirst
    rw [hmissed, Option.none_or] at hsecond
    exact ⟨hfirst, hsecond⟩
  · intro happly
    obtain ⟨-, -, -, rfl⟩ := apply_eq_ok happly
    have hget : (tiles.insertAll (writes past)).get? 2147483647 0 =
        (lastAt (writes past) (2147483647, 0)).or (tiles.get? 2147483647 0) :=
      TileStore.get?_insertAll (d := (2147483647, 0)) (by decide) hband'
    rw [hget, hpast, Option.some_or]

end Patcher

end TileViewer
