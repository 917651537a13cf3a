import TileViewer.Patcher
import TileViewer.Proofs.Marks.Grid
import TileViewer.Proofs.Tile.Coordinates

/-!
What a frame writes into the world. Its cells are stored one after the other, so that the last one
on a coordinate stays; what is stored depends on the frame alone.
-/
namespace TileViewer

variable {d : Coord} {frame : Frame} {patch : Patch} {tiles : TileStore}

/-- The stack that comes last at a place. -/
def lastAt {κ : Type} [DecidableEq κ] (cells : List (κ × LayerStack)) (place : κ) :
    Option LayerStack :=
  (cells.reverse.find? (·.1 = place)).map Prod.snd

section

variable {κ ι : Type} [DecidableEq κ] [DecidableEq ι] {cells : List (κ × LayerStack)}

theorem lastAt_cons (w : κ × LayerStack) (place : κ) :
    lastAt (w :: cells) place =
      (lastAt cells place).or (if w.1 = place then some w.2 else none) := by
  simp only [lastAt, List.reverse_cons, List.find?_append]
  cases cells.reverse.find? (·.1 = place) with
  | some k => rfl
  | none =>
    by_cases hw : w.1 = place
    · simp [hw]
    · simp [hw]

theorem lastAt_eq_none {place : κ} (h : ∀ w ∈ cells, w.1 ≠ place) : lastAt cells place = none := by
  rw [lastAt, Option.map_eq_none_iff, List.find?_eq_none]
  intro w hw
  exact mt of_decide_eq_true (h w (List.mem_reverse.1 hw))

/-- Places may be renamed, if no two become one. -/
theorem lastAt_map {name : κ → ι} (hname : ∀ a b, name a = name b → a = b) (place : κ) :
    lastAt (cells.map fun w => (name w.1, w.2)) (name place) = lastAt cells place := by
  induction cells with
  | nil => rfl
  | cons w cells ih =>
    rw [List.map_cons, lastAt_cons, lastAt_cons, ih]
    by_cases hw : w.1 = place
    · rw [if_pos hw, if_pos (congrArg name hw)]
    · rw [if_neg hw, if_neg fun h => hw (hname _ _ h)]

end

namespace TileStore

/-- Stores stacks one after the other. -/
def insertAll (s : TileStore) (ws : List (Coord × LayerStack)) : TileStore :=
  ws.foldl (fun s w => s.insert w.1.1 w.1.2 w.2) s

theorem insertAll_append (s : TileStore) (ws vs : List (Coord × LayerStack)) :
    s.insertAll (ws ++ vs) = (s.insertAll ws).insertAll vs := List.foldl_append

/-- A write with another key than a coordinate's leaves the coordinate alone. -/
theorem get?_insert_apart {c : Coord} {stack : LayerStack} (hd : d.Accepted)
    (hc : c.Accepted → ¬ c.Twins d) :
    (tiles.insert c.1 c.2 stack).get? d.1 d.2 =
      if c = d then some stack else tiles.get? d.1 d.2 := by
  rw [get?_insert]
  by_cases hcd : c = d
  · subst hcd
    rw [if_pos rfl, if_pos ⟨hd, hd, rfl⟩]
  · rw [if_neg hcd, if_neg]
    rintro ⟨hfits, -, hkey⟩
    rcases (Coord.key_eq_iff hfits hd).1 hkey with heq | htwins
    · exact hcd heq
    · exact hc hfits htwins

/-- What is written last at a coordinate stays, and all else is as before, if nothing is written to
a twin of the coordinate. -/
theorem get?_insertAll_apart {ws : List (Coord × LayerStack)} (hd : d.Accepted)
    (hws : ∀ w ∈ ws, w.1.Accepted → ¬ w.1.Twins d) :
    (tiles.insertAll ws).get? d.1 d.2 = (lastAt ws d).or (tiles.get? d.1 d.2) := by
  induction ws generalizing tiles with
  | nil => rfl
  | cons w ws ih =>
    obtain ⟨hw, hws⟩ := List.forall_mem_cons.1 hws
    have hrest : (tiles.insertAll (w :: ws)).get? d.1 d.2 =
        (lastAt ws d).or ((tiles.insert w.1.1 w.1.2 w.2).get? d.1 d.2) := ih hws
    rw [hrest, get?_insert_apart hd hw, lastAt_cons, Option.or_assoc]
    split
    · rfl
    · rfl

theorem get?_insertAll {ws : List (Coord × LayerStack)} (hd : d.InBand)
    (hws : ∀ w ∈ ws, rowFits w.1.2 → w.1.InBand) :
    (tiles.insertAll ws).get? d.1 d.2 = (lastAt ws d).or (tiles.get? d.1 d.2) := by
  apply get?_insertAll_apart hd.accepted
  intro w hw hfits
  exact (hws w hw hfits).not_twins hd

end TileStore

theorem Patch.usableCells_eq (patch : Patch) :
    patch.usableCells = min patch.cells.length (patch.width.toNat * patch.height.toNat) := by
  have hw := patch.width.toNat_lt
  have hh := patch.height.toNat_lt
  have harea : patch.width.toNat * patch.height.toNat ≤ (2 ^ 32 - 1) * (2 ^ 32 - 1) :=
    Nat.mul_le_mul (by omega) (by omega)
  rw [Patch.usableCells]
  omega

/-- The usable cells of a frame in order: each with its patch, its number there and its stack. -/
def Frame.cells (frame : Frame) : List (Patch × Nat × LayerStack) :=
  frame.patches.flatMap fun patch =>
    (patch.cells.take patch.usableCells).zipIdx.map fun (stack, i) => (patch, i, stack)

theorem Frame.mem_cells {c : Patch × Nat × LayerStack} (h : c ∈ frame.cells) :
    c.1 ∈ frame.patches ∧ c.2.1 < c.1.usableCells := by
  obtain ⟨patch, hpatch, hc⟩ := List.mem_flatMap.1 h
  obtain ⟨⟨stack, i⟩, hcell, rfl⟩ := List.mem_map.1 hc
  have hi := List.snd_lt_of_mem_zipIdx hcell
  rw [List.length_take] at hi
  have husable : i < patch.usableCells := by omega
  exact ⟨hpatch, husable⟩

theorem Frame.exists_cell {i : Nat} (hpatch : patch ∈ frame.patches)
    (hi : i < patch.usableCells) : ∃ stack, (patch, i, stack) ∈ frame.cells := by
  have hlength : i < (patch.cells.take patch.usableCells).length := by
    rw [List.length_take]
    have := patch.usableCells_eq
    omega
  have hcell := List.mk_mem_zipIdx_iff_getElem?.2 (List.getElem?_eq_getElem hlength)
  exact ⟨_, List.mem_flatMap.2 ⟨patch, hpatch, List.mem_map.2 ⟨_, hcell, rfl⟩⟩⟩

namespace Patcher

/-- The usable cells of a patch with the coordinates that they are stored at, in order. -/
def patchWrites (frame : Frame) (patch : Patch) : List (Coord × LayerStack) :=
  (patch.cells.take patch.usableCells).zipIdx.map fun (stack, i) => (cellAt frame patch i, stack)

/-- The usable cells of a frame. -/
def writes (frame : Frame) : List (Coord × LayerStack) :=
  frame.patches.flatMap (patchWrites frame)

theorem writes_eq_map (frame : Frame) :
    writes frame = frame.cells.map fun c => (cellAt frame c.1 c.2.1, c.2.2) := by
  rw [writes, Frame.cells, List.map_flatMap]
  apply List.flatMap_congr
  intro patch _
  rw [patchWrites, List.map_map]
  rfl

theorem mem_writes {w : Coord × LayerStack} (h : w ∈ writes frame) :
    ∃ patch ∈ frame.patches, ∃ i < patch.usableCells, cellAt frame patch i = w.1 := by
  rw [writes_eq_map] at h
  obtain ⟨⟨patch, i, stack⟩, hc, rfl⟩ := List.mem_map.1 h
  obtain ⟨hpatch, hi⟩ := Frame.mem_cells hc
  exact ⟨patch, hpatch, i, hi, rfl⟩

/-- The loop over a patch's cells, from any store and any count. -/
theorem foldl_store (frame : Frame) (patch : Patch) (cells : List (LayerStack × Nat))
    (tiles : TileStore) (written : Nat) :
    cells.foldl (fun (tiles, written) (stack, i) =>
        let (x, y) := cellAt frame patch i
        (tiles.insert x y stack, if rowFits y then written + 1 else written)) (tiles, written) =
      (tiles.insertAll (cells.map fun (stack, i) => (cellAt frame patch i, stack)),
        written + cells.countP fun (_, i) => rowFits (cellAt frame patch i).2) := by
  induction cells generalizing tiles written with
  | nil => rfl
  | cons w cells ih =>
    rw [List.foldl_cons, ih, List.countP_cons]
    refine Prod.ext rfl ?_
    dsimp only
    split
    · omega
    · omega

theorem store_eq (frame : Frame) (patch : Patch) (tiles : TileStore) :
    store frame patch tiles =
      (tiles.insertAll (patchWrites frame patch),
        (patchWrites frame patch).countP (rowFits ·.1.2)) := by
  unfold store
  split
  · next hwidth =>
    have hnone : patch.usableCells = 0 := by
      rw [patch.usableCells_eq, hwidth]
      simp
    rw [patchWrites, hnone, List.take_zero]
    rfl
  · rw [foldl_store, Nat.zero_add, patchWrites, List.countP_map]
    rfl

theorem foldl_store_eq (frame : Frame) (patches : List Patch) (tiles : TileStore)
    (written : Nat) :
    patches.foldl (fun (tiles, written) patch =>
        let (tiles, more) := store frame patch tiles
        (tiles, written + more)) (tiles, written) =
      (tiles.insertAll (patches.flatMap (patchWrites frame)),
        written + (patches.flatMap (patchWrites frame)).countP (rowFits ·.1.2)) := by
  induction patches generalizing tiles written with
  | nil => rfl
  | cons patch patches ih =>
    rw [List.foldl_cons]
    dsimp only
    rw [store_eq, ih, List.flatMap_cons, TileStore.insertAll_append, List.countP_append,
      Nat.add_assoc]

/-- Marks the view if it has moved. -/
def markMoved (p : Patcher) (frame : Frame) (window : Window) (dirty : DirtyGrid) :
    Except Overflow DirtyGrid :=
  if p.lastOrigin ≠ some (frame.viewX, frame.viewY) then markView p.sprite frame window dirty
  else .ok dirty

/-- The marks alone that applying a frame makes. -/
def markAll (p : Patcher) (frame : Frame) (window : Window) (dirty : DirtyGrid) :
    Except Overflow DirtyGrid :=
  p.markMoved frame window dirty >>= fun dirty =>
    frame.patches.foldlM (fun d patch => mark p.sprite frame window patch d) dirty

/-- Marking and storing do not depend on each other, and only marking can fail. -/
theorem apply_eq (p : Patcher) (frame : Frame) (window : Window) (tiles : TileStore)
    (dirty : DirtyGrid) :
    p.apply frame window tiles dirty = (p.markAll frame window dirty).map fun marks =>
      (⟨frame.patches.length, (writes frame).countP (rowFits ·.1.2),
          p.lastOrigin ≠ some (frame.viewX, frame.viewY)⟩,
        { p with lastOrigin := some (frame.viewX, frame.viewY) },
        tiles.insertAll (writes frame), marks) := by
  by_cases hmoved : p.lastOrigin ≠ some (frame.viewX, frame.viewY)
  · simp only [apply, markAll, markMoved, if_pos hmoved, foldl_store_eq, Nat.zero_add,
      bind_pure_comp]
    exact (map_bind _ _ _).symm
  · simp only [apply, markAll, markMoved, if_neg hmoved, foldl_store_eq, Nat.zero_add,
      bind_pure_comp]
    exact (map_bind _ _ _).symm

theorem apply_of_markAll {p : Patcher} {window : Window} {g marks : DirtyGrid}
    (h : p.markAll frame window g = .ok marks) (tiles : TileStore) :
    p.apply frame window tiles g =
      .ok (⟨frame.patches.length, (writes frame).countP (rowFits ·.1.2),
          p.lastOrigin ≠ some (frame.viewX, frame.viewY)⟩,
        { p with lastOrigin := some (frame.viewX, frame.viewY) },
        tiles.insertAll (writes frame), marks) := by
  rw [apply_eq, h]
  rfl

theorem apply_eq_ok {p p' : Patcher} {window : Window} {tiles' : TileStore} {g g' : DirtyGrid}
    {summary : PatchSummary} (h : p.apply frame window tiles g = .ok (summary, p', tiles', g')) :
    p.markAll frame window g = .ok g' ∧
      summary = ⟨frame.patches.length, (writes frame).countP (rowFits ·.1.2),
        p.lastOrigin ≠ some (frame.viewX, frame.viewY)⟩ ∧
      p' = { p with lastOrigin := some (frame.viewX, frame.viewY) } ∧
      tiles' = tiles.insertAll (writes frame) := by
  rw [apply_eq] at h
  cases hmarks : p.markAll frame window g with
  | error e =>
    rw [hmarks] at h
    cases h
  | ok marks =>
    rw [hmarks] at h
    cases h
    exact ⟨rfl, rfl, rfl, rfl⟩

/-- Squares of the greatest size are divided by as by -1, which needs corners inside the picture. -/
def CanMark (sprite : UInt32) (g : DirtyGrid) : Prop :=
  sprite.toNat < 2 ^ 31 ∨ g.cellWidth ≠ 0xFFFFFFFF ∧ g.cellHeight ≠ 0xFFFFFFFF

theorem CanMark.sameSize {sprite : UInt32} {g g' : DirtyGrid} (h : CanMark sprite g)
    (hs : g.SameSize g') : CanMark sprite g' := by
  rw [CanMark, hs.cellWidth, hs.cellHeight]
  exact h

theorem timesSat_nonneg {z : Int32} {n : UInt32} (hz : 0 ≤ z.toInt) (hn : n.toNat < 2 ^ 31) :
    0 ≤ (Word.timesSat z n.toInt32).toInt := by
  have hclamp : (Word.timesSat z n.toInt32).toInt =
      max (-0x80000000) (min (z.toInt * n.toInt32.toInt) 0x7FFFFFFF) :=
    Word.toInt_clamp (α := Int32) (z.toInt * n.toInt32.toInt)
  have hproduct : 0 ≤ z.toInt * n.toInt32.toInt := by
    rw [toInt_toInt32 hn]
    exact Int.mul_nonneg hz (Int.natCast_nonneg _)
  omega

theorem CanMark.gives_mark {sprite : UInt32} {g : DirtyGrid} (h : CanMark sprite g)
    (frame : Frame) (window : Window) (patch : Patch) :
    Gives (mark sprite frame window patch g) g.SameSize := by
  unfold mark
  dsimp only
  split
  · have hfrom (z : Int32) : 0 ≤ (max z 0).toInt := by
      rw [toInt_max, Int32.toInt_zero]
      omega
    refine DirtyGrid.gives_markRect ?_ ?_ _ _
    · rcases h with hsprite | ⟨hwidth, -⟩
      · exact .inl (timesSat_nonneg (hfrom _) hsprite)
      · exact .inr hwidth
    · rcases h with hsprite | ⟨-, hheight⟩
      · exact .inl (timesSat_nonneg (hfrom _) hsprite)
      · exact .inr hheight
  · exact .ok (.refl g)

theorem gives_markMoved (p : Patcher) (frame : Frame) (window : Window) (g : DirtyGrid) :
    Gives (p.markMoved frame window g) g.SameSize := by
  unfold markMoved
  split
  · have hzero : 0 ≤ (0 : Int32).toInt := Int.le_refl 0
    exact DirtyGrid.gives_markRect (.inl hzero) (.inl hzero) _ _
  · exact .ok (.refl g)

theorem CanMark.gives_markAll {p : Patcher} {g : DirtyGrid} (h : CanMark p.sprite g)
    (frame : Frame) (window : Window) : Gives (p.markAll frame window g) g.SameSize := by
  refine (gives_markMoved p frame window g).bind ?_
  intro g₁ hs
  refine Gives.foldlM hs ?_
  intro g₂ hs' patch _
  refine ((h.sameSize hs').gives_mark frame window patch).mono ?_
  intro g₃ hs''
  exact hs'.trans hs''

end Patcher

/-- A number that a coordinate can be. -/
def FitsCoord (z : Int) : Prop := -2 ^ 31 ≤ z ∧ z < 2 ^ 31

/-- The usable cells of a patch with their exact coordinates, in order. -/
def Patch.placed (frame : Frame) (patch : Patch) : List ((Int × Int) × LayerStack) :=
  let width := patch.width.toNat
  (patch.cells.take (width * patch.height.toNat)).zipIdx.map fun (stack, i) =>
    (((i % width : Nat) + patch.x.toInt + frame.viewX.toInt,
      (i / width : Nat) + patch.y.toInt + frame.viewY.toInt), stack)

/-- The usable cells of a frame, patch by patch. -/
def Frame.placed (frame : Frame) : List ((Int × Int) × LayerStack) :=
  frame.patches.flatMap (Patch.placed frame)

/-- Where a cell of a patch belongs, in exact numbers. -/
def Patch.placeOf (frame : Frame) (patch : Patch) (i : Nat) : Int × Int :=
  ((i % patch.width.toNat : Nat) + patch.x.toInt + frame.viewX.toInt,
    (i / patch.width.toNat : Nat) + patch.y.toInt + frame.viewY.toInt)

theorem Frame.placed_eq_map (frame : Frame) :
    frame.placed = frame.cells.map fun c => (c.1.placeOf frame c.2.1, c.2.2) := by
  rw [placed, cells, List.map_flatMap]
  apply List.flatMap_congr
  intro patch _
  have htake : patch.cells.take (patch.width.toNat * patch.height.toNat) =
      patch.cells.take patch.usableCells := by
    rw [List.take_eq_take_iff, patch.usableCells_eq]
    omega
  rw [Patch.placed, List.map_map, htake]
  rfl

instance : DecidablePred FitsCoord := fun _ => inferInstanceAs (Decidable (_ ∧ _))

/-- A row of the band. -/
def InBandRow (y : Int) : Prop := -16384 ≤ y ∧ y ≤ 16383

instance : DecidablePred InBandRow := fun _ => inferInstanceAs (Decidable (_ ∧ _))

/-- A frame whose coordinates are sums that fit one by one, with rows in the band or outside all
that a store takes. -/
structure Frame.SumsFit (frame : Frame) : Prop where
  column : ∀ patch ∈ frame.patches,
    ∀ i < min patch.cells.length (patch.width.toNat * patch.height.toNat),
    FitsCoord (i % patch.width.toNat : Nat) ∧
    FitsCoord ((i % patch.width.toNat : Nat) + patch.x.toInt) ∧
    FitsCoord ((i % patch.width.toNat : Nat) + patch.x.toInt + frame.viewX.toInt)
  row : ∀ patch ∈ frame.patches,
    ∀ i < min patch.cells.length (patch.width.toNat * patch.height.toNat),
    FitsCoord (i / patch.width.toNat : Nat) ∧
    FitsCoord ((i / patch.width.toNat : Nat) + patch.y.toInt) ∧
    FitsCoord ((i / patch.width.toNat : Nat) + patch.y.toInt + frame.viewY.toInt)
  band : ∀ w ∈ frame.placed, InBandRow w.1.2 ∨ w.1.2 < -32767 ∨ 32767 < w.1.2

/-- A coordinate as exact numbers. -/
def Coord.exact (c : Coord) : Int × Int := (c.1.toInt, c.2.toInt)

theorem Coord.exact_injective (c d : Coord) (h : c.exact = d.exact) : c = d :=
  Coord.ext_toInt (congrArg Prod.fst h) (congrArg Prod.snd h)

theorem toInt_plusSat_of_fits {y z : Int32} (h : FitsCoord (y.toInt + z.toInt)) :
    (Word.plusSat y z).toInt = y.toInt + z.toInt := by
  obtain ⟨hlo, hhi⟩ := h
  rw [toInt_plusSat]
  omega

/-- A coordinate whose partial sums fit is their exact sum. -/
theorem toInt_sum_of_fits {n : Nat} {y z : Int32} (hn : FitsCoord n)
    (hy : FitsCoord (n + y.toInt)) (hz : FitsCoord (n + y.toInt + z.toInt)) :
    (Word.plusSat (Word.plusSat (Int32.ofNat n) y) z).toInt = n + y.toInt + z.toInt := by
  have hcell : (Int32.ofNat n).toInt = n := Int32.toInt_ofNat_of_lt (by
    have := hn.2
    omega)
  have hfirst : (Word.plusSat (Int32.ofNat n) y).toInt = n + y.toInt := by
    rw [toInt_plusSat_of_fits (hcell ▸ hy), hcell]
  rw [toInt_plusSat_of_fits (hfirst ▸ hz), hfirst]

namespace Frame.SumsFit

variable (h : frame.SumsFit)

include h

theorem exact_cellAt {i : Nat} (hpatch : patch ∈ frame.patches) (hi : i < patch.usableCells) :
    Coord.exact (Patcher.cellAt frame patch i) = patch.placeOf frame i := by
  rw [patch.usableCells_eq] at hi
  obtain ⟨hcolumn, hcolumn', hcolumn''⟩ := h.column patch hpatch i hi
  obtain ⟨hrow, hrow', hrow''⟩ := h.row patch hpatch i hi
  exact Prod.ext (toInt_sum_of_fits hcolumn hcolumn' hcolumn'')
    (toInt_sum_of_fits hrow hrow' hrow'')

theorem placed_eq : frame.placed = (Patcher.writes frame).map fun w => (w.1.exact, w.2) := by
  rw [frame.placed_eq_map, Patcher.writes_eq_map, List.map_map]
  apply List.map_congr_left
  intro c hc
  obtain ⟨hpatch, hi⟩ := Frame.mem_cells hc
  exact Prod.ext (h.exact_cellAt hpatch hi).symm rfl

theorem inBand {w : Coord × LayerStack} (hw : w ∈ Patcher.writes frame) (hfits : rowFits w.1.2) :
    w.1.InBand := by
  have hmem : (w.1.exact, w.2) ∈ frame.placed := by
    rw [h.placed_eq]
    exact List.mem_map_of_mem hw
  have hband := h.band _ hmem
  have hrow := Coord.accepted_iff.1 hfits
  simp only [Coord.exact, InBandRow] at hband
  rcases hband with hband | hlow | hhigh
  · exact hband
  · omega
  · omega

theorem rowFits_iff {w : Coord × LayerStack} (hw : w ∈ Patcher.writes frame) :
    rowFits w.1.2 ↔ InBandRow w.1.exact.2 :=
  ⟨h.inBand hw, Coord.InBand.accepted⟩

theorem countP_rowFits :
    (Patcher.writes frame).countP (rowFits ·.1.2) =
      frame.placed.countP (InBandRow ·.1.2) := by
  rw [h.placed_eq, List.countP_map]
  apply List.countP_congr
  intro w hw
  rw [h.rowFits_iff hw]
  exact decide_eq_true_iff.symm

end Frame.SumsFit

namespace Patcher

/-- Applying a frame writes the frame and nothing else. In the band each coordinate has the stack of
the last cell on it, or what it had before; the count is of the cells in the band; and the store
depends on no window, grid, sprite size or earlier view. Marking does not stop it, unless sprites of
`2 ^ 31` pixels meet squares of the greatest size. -/
theorem apply_stores_placed (tiles : TileStore) (h : frame.SumsFit) :
    ∃ stored : TileStore,
      (∀ x y : Int32, InBandRow y.toInt → stored.get? x y =
        (lastAt frame.placed (x.toInt, y.toInt)).or (tiles.get? x y)) ∧
      ∀ (p : Patcher) (window : Window) (g : DirtyGrid),
        (∀ summary p' tiles' g',
          p.apply frame window tiles g = .ok (summary, p', tiles', g') →
            tiles' = stored ∧ summary.patches = frame.patches.length ∧
            summary.cellsWritten = frame.placed.countP (InBandRow ·.1.2)) ∧
        (CanMark p.sprite g → ∃ out, p.apply frame window tiles g = .ok out) := by
  refine ⟨tiles.insertAll (writes frame), ?_, ?_⟩
  · intro x y hy
    have hplace : lastAt frame.placed (x.toInt, y.toInt) = lastAt (writes frame) (x, y) := by
      rw [h.placed_eq]
      exact lastAt_map Coord.exact_injective (x, y)
    rw [hplace]
    exact TileStore.get?_insertAll (d := (x, y)) hy fun w hw => h.inBand hw
  · intro p window g
    refine ⟨?_, ?_⟩
    · intro summary p' tiles' g' happly
      obtain ⟨-, rfl, -, hstored⟩ := apply_eq_ok happly
      exact ⟨hstored, rfl, h.countP_rowFits⟩
    · intro hcan
      obtain ⟨marks, hmarks, -⟩ := hcan.gives_markAll frame window
      exact ⟨_, apply_of_markAll hmarks tiles⟩

/-- A patch with too few cells, one with too many on top of it, one without width, and one in a row
that is not stored. -/
theorem apply_stores_placed_four :
    ∃ frame : Frame, frame.SumsFit ∧ frame.patches.length = 4 ∧
      ∀ (tiles : TileStore) (p : Patcher) (window : Window) (g : DirtyGrid), CanMark p.sprite g →
        ∃ summary p' tiles' g', p.apply frame window tiles g = .ok (summary, p', tiles', g') ∧
          tiles'.get? 101 200 = some [⟨9, .half⟩] ∧ tiles'.get? 100 201 = some [⟨3, .none⟩] ∧
          tiles'.get? 101 201 = tiles.get? 101 201 ∧ summary.patches = 4 ∧
          summary.cellsWritten = 4 := by
  let patches : List Patch := [⟨0, 0, 2, 2, [[⟨1, .none⟩], [⟨2, .none⟩], [⟨3, .none⟩]]⟩,
    ⟨1, 0, 1, 1, [[⟨9, .half⟩], [⟨8, .none⟩]]⟩, ⟨0, 0, 0, 4, [[⟨7, .none⟩]]⟩,
    ⟨0, 40000, 1, 1, [[⟨5, .none⟩]]⟩]
  let frame : Frame := ⟨1, 100, 200, 4, 4, patches, [], false, none⟩
  have hfit : frame.SumsFit := ⟨by decide, by decide, by decide⟩
  have hlast : lastAt frame.placed ((101 : Int32).toInt, (200 : Int32).toInt) =
      some [⟨9, .half⟩] := by decide
  have hthird : lastAt frame.placed ((100 : Int32).toInt, (201 : Int32).toInt) =
      some [⟨3, .none⟩] := by decide
  have hfourth : lastAt frame.placed ((101 : Int32).toInt, (201 : Int32).toInt) = none := by decide
  refine ⟨frame, hfit, rfl, ?_⟩
  intro tiles p window g hcan
  obtain ⟨stored, hstored, happly⟩ := apply_stores_placed tiles hfit
  obtain ⟨hright, hgives⟩ := happly p window g
  obtain ⟨⟨summary, p', tiles', g'⟩, hok⟩ := hgives hcan
  obtain ⟨rfl, hpatches, hcount⟩ := hright summary p' tiles' g' hok
  refine ⟨summary, p', tiles', g', hok, ?_, ?_, ?_, hpatches, hcount.trans (by decide)⟩
  · rw [hstored 101 200 (by decide), hlast, Option.some_or]
  · rw [hstored 100 201 (by decide), hthird, Option.some_or]
  · rw [hstored 101 201 (by decide), hfourth, Option.none_or]

end Patcher

end TileViewer
