import TileViewer.Proofs.Picture.Pass
import TileViewer.Proofs.Tile.Writes

/-!
What bringing a frame into the world changes, and that every cell of the window whose stack may
have changed is marked.
-/
namespace TileViewer

variable {sprite width height : UInt32} {g : DirtyGrid} {window : Window} {frame : Frame}
  {patch : Patch} {tiles : TileStore}

namespace Scope

theorem decides_dirty (hg : g.Regular) : (dirty g).Decides :=
  fun _ _ => ⟨_, DirtyGrid.isDirty_eq hg⟩

theorem covers_dirty_iff (hg : g.ForSprite sprite) (hpos : 0 < sprite.toNat)
    (hlt : 5 * sprite.toNat < 2 ^ 31) {c r : Nat} (hc : c * sprite.toNat < 2 ^ 31)
    (hr : r * sprite.toNat < 2 ^ 31) :
    (dirty g).Covers sprite c r ↔ DirtyGrid.cellKey c r ∈ g.marks := by
  rw [Covers, includes, hg.isDirty_cell hpos hlt hc hr, Except.ok.injEq,
    Std.HashSet.contains_iff_mem]

end Scope

/-- A frame whose cells are stored where they belong, all in rows of the band. -/
structure Frame.Exact (frame : Frame) : Prop where
  column : ∀ patch ∈ frame.patches, ∀ i < patch.usableCells,
    (Patcher.cellAt frame patch i).1.toInt =
      (i % patch.width.toNat : Nat) + patch.x.toInt + frame.viewX.toInt
  row : ∀ patch ∈ frame.patches, ∀ i < patch.usableCells,
    (Patcher.cellAt frame patch i).2.toInt =
      (i / patch.width.toNat : Nat) + patch.y.toInt + frame.viewY.toInt
  band : ∀ patch ∈ frame.patches, ∀ i < patch.usableCells,
    rowFits (Patcher.cellAt frame patch i).2 → Coord.InBand (Patcher.cellAt frame patch i)

namespace Patcher

/-- The lines of a patch that the window shows, in one direction: the first of them, counted from
the window's corner, and their number, both exact in pixels. -/
theorem span_exact {corner view start : Int32} {lines size : UInt32}
    (hsize : size.toNat * sprite.toNat < 2 ^ 31) :
    let x := max (Word.minusSat (Word.plusSat corner view) start) 0
    x.toUInt32 < size → ∃ first < size.toNat, (first : Int) = x.toInt ∧
      (Word.timesSat x sprite.toInt32).toInt = (first * sprite.toNat : Nat) ∧
      (Word.timesSat (min lines (size - x.toUInt32)) sprite).toNat =
        min lines.toNat (size.toNat - first) * sprite.toNat := by
  intro x hin
  obtain ⟨first, hfirst⟩ : ∃ first : Nat, x.toInt = first :=
    Int.eq_ofNat_of_zero_le (by rw [toInt_max, Int32.toInt_zero]; omega)
  have hxNat : x.toUInt32.toNat = first := by
    have := toNat_toUInt32 (z := x) (by omega)
    omega
  have hlt : first < size.toNat := hxNat ▸ UInt32.lt_iff_toNat_lt.1 hin
  have hsprite : sprite.toNat < 2 ^ 31 :=
    Nat.lt_of_le_of_lt (Nat.le_mul_of_pos_left _ (Nat.zero_lt_of_lt hlt)) hsize
  have hrest : (min lines (size - x.toUInt32)).toNat = min lines.toNat (size.toNat - first) := by
    rw [toNat_min, UInt32.toNat_sub_of_le _ _ (UInt32.le_of_lt hin), hxNat]
  refine ⟨first, hlt, hfirst.symm, ?_, ?_⟩
  · exact toInt_timesSat hfirst hsprite
      (Nat.lt_of_le_of_lt (Nat.mul_le_mul_right _ (Nat.le_of_lt hlt)) hsize)
  · rw [← hrest]
    apply toNat_timesSat
    rw [hrest]
    exact Nat.lt_trans (Nat.lt_of_le_of_lt (Nat.mul_le_mul_right _ (by omega)) hsize) (by decide)

/-- In one direction: the `c`-th line of the window, covered by the `j`-th line of a patch of
`lines`, has a sample of the patch in its square. -/
theorem exists_sample_span {corner view start : Int32} {lines size cell : UInt32} {c j : Nat}
    (hpos : 0 < sprite.toNat) (hcell : cell.toNat = 5 * sprite.toNat)
    (hsize : (size.toNat / 5 + 1) * (5 * sprite.toNat) < 2 ^ 31)
    (hcoord : start.toInt + c < 2 ^ 31)
    (hline : start.toInt + c = j + corner.toInt + view.toInt) (hj : j < lines.toNat)
    (hc : c < size.toNat) :
    let x := max (Word.minusSat (Word.plusSat corner view) start) 0
    x.toUInt32 < size ∧
      ∃ px ∈ DirtyGrid.samples (Word.timesSat x sprite.toInt32)
        (Word.timesSat (min lines (size - x.toUInt32)) sprite) cell,
        px.toInt / cell.toNat = (c / 5 : Nat) := by
  intro x
  have hsizesprite : size.toNat * sprite.toNat < 2 ^ 31 := by
    refine Nat.lt_of_le_of_lt ?_ hsize
    rw [← Nat.mul_assoc]
    exact Nat.mul_le_mul_right _ (by omega)
  have hclt : c < 2 ^ 31 :=
    Nat.lt_of_le_of_lt (Nat.le_of_lt hc)
      (Nat.lt_of_le_of_lt (Nat.le_mul_of_pos_right _ hpos) hsizesprite)
  -- A corner that was cut off lies before the window, where the patch is cut off anyway.
  have hx : x.toInt = max (corner.toInt + view.toInt - start.toInt) 0 := by
    have hlo := start.le_toInt
    rw [toInt_max, toInt_minusSat, toInt_plusSat, Int32.toInt_zero]
    omega
  have hxsize : x.toUInt32 < size := by
    have := toNat_toUInt32 (z := x) (by omega)
    exact UInt32.lt_iff_toNat_lt.2 (by omega)
  obtain ⟨first, -, hfirst, hstart, hextent⟩ := span_exact hsizesprite hxsize
  change (first : Int) = x.toInt at hfirst
  refine ⟨hxsize, DirtyGrid.exists_sample hpos hcell hstart hextent (by omega) (by omega) ?_⟩
  exact Nat.le_of_lt (Nat.lt_of_le_of_lt (Nat.mul_le_mul_right _ (by omega)) hsize)

/-- The squares that a patch marks on a grid with squares like those of `g`. -/
def Footprint (g : DirtyGrid) (sprite : UInt32) (frame : Frame) (window : Window) (patch : Patch)
    (k : Int) : Prop :=
  let x := max (Word.minusSat (Word.plusSat patch.x frame.viewX) window.startX) 0
  let y := max (Word.minusSat (Word.plusSat patch.y frame.viewY) window.startY) 0
  (x.toUInt32 < window.width ∧ y.toUInt32 < window.height) ∧
    ∃ px ∈ DirtyGrid.samples (Word.timesSat x sprite.toInt32)
        (Word.timesSat (min patch.width (window.width - x.toUInt32)) sprite) g.cellWidth,
      ∃ py ∈ DirtyGrid.samples (Word.timesSat y sprite.toInt32)
          (Word.timesSat (min patch.height (window.height - y.toUInt32)) sprite) g.cellHeight,
        k = g.square px.toInt py.toInt

instance (k : Int) : Decidable (Footprint g sprite frame window patch k) :=
  inferInstanceAs (Decidable (_ ∧ ∃ _ ∈ _, ∃ _ ∈ _, _ = _))

theorem mark_marks (hg : g.Regular) (sprite : UInt32) (frame : Frame) (window : Window)
    (patch : Patch) : ∃ g', mark sprite frame window patch g = .ok g' ∧
    g.Marks g' (Footprint g sprite frame window patch) := by
  unfold mark Footprint
  dsimp only
  split
  · next hin =>
    obtain ⟨g', hmark, hm⟩ := DirtyGrid.markRect_marks hg _ _ _ _
    exact ⟨g', hmark, hm.congr fun k => (and_iff_right hin).symm⟩
  · next hout =>
    exact ⟨g, rfl, (DirtyGrid.Marks.refl g).congr fun k =>
      ⟨False.elim, fun h => hout h.1⟩⟩

/-- A patch marks the square of every cell of the window that one of its cells falls on. -/
theorem footprint_cellKey {i c r : Nat} (hg : g.ForSprite sprite)
    (hfit : window.Fits sprite width height) (hi : i < patch.usableCells)
    (hcolumn : (cellAt frame patch i).1.toInt =
      (i % patch.width.toNat : Nat) + patch.x.toInt + frame.viewX.toInt)
    (hrow : (cellAt frame patch i).2.toInt =
      (i / patch.width.toNat : Nat) + patch.y.toInt + frame.viewY.toInt)
    (hc : c < window.width.toNat) (hr : r < window.height.toNat)
    (hx : window.startX.toInt + c = (cellAt frame patch i).1.toInt)
    (hy : window.startY.toInt + r = (cellAt frame patch i).2.toInt) :
    Footprint g sprite frame window patch (DirtyGrid.cellKey c r) := by
  have hiw : i < patch.width.toNat * patch.height.toNat := by
    unfold Patch.usableCells at hi
    omega
  have hw : 0 < patch.width.toNat := Nat.pos_of_mul_pos_right (Nat.zero_lt_of_lt hiw)
  have hxlt := (cellAt frame patch i).1.toInt_lt
  have hylt := (cellAt frame patch i).2.toInt_lt
  obtain ⟨hxin, px, hpx, hpxSquare⟩ := exists_sample_span hfit.sprite_pos hg.width_eq hfit.columns
    (hx ▸ hxlt) (hx.trans hcolumn) (Nat.mod_lt i hw) hc
  obtain ⟨hyin, py, hpy, hpySquare⟩ := exists_sample_span hfit.sprite_pos hg.height_eq hfit.rows
    (hy ▸ hylt) (hy.trans hrow) (Nat.div_lt_of_lt_mul hiw) hr
  refine ⟨⟨hxin, hyin⟩, px, hpx, py, hpy, ?_⟩
  rw [DirtyGrid.square, hpxSquare, hpySquare, DirtyGrid.cellKey]

/-- Whether some cell of a frame falls on a coordinate. -/
def Touches (frame : Frame) (d : Coord) : Prop :=
  ∃ patch ∈ frame.patches, ∃ i < patch.usableCells, cellAt frame patch i = d

/-- A coordinate that no cell falls on keeps its stack. -/
theorem get?_of_not_touches {d : Coord} (tiles : TileStore) (hexact : frame.Exact)
    (hd : d.InBand) (hne : ¬ Touches frame d) :
    (tiles.insertAll (writes frame)).get? d.1 d.2 = tiles.get? d.1 d.2 := by
  have hband : ∀ w ∈ writes frame, rowFits w.1.2 → w.1.InBand := by
    intro w hw
    obtain ⟨patch, hpatch, i, hi, hcell⟩ := mem_writes hw
    rw [← hcell]
    exact hexact.band patch hpatch i hi
  have hnone : lastAt (writes frame) d = none := by
    apply lastAt_eq_none
    rintro w hw rfl
    exact hne (mem_writes hw)
  rw [TileStore.get?_insertAll hd hband, hnone, Option.none_or]

/-- What applying a frame does. It never fails, loses no mark, and marks each cell of the window
whose stack may have changed; a view that has moved marks what the window shows of it. -/
structure Applied (p : Patcher) (frame : Frame) (window : Window) (tiles : TileStore)
    (g : DirtyGrid) (tiles' : TileStore) (g' : DirtyGrid) : Prop where
  sameSize : g.SameSize g'
  kept : ∀ k ∈ g.marks, k ∈ g'.marks
  moved : p.lastOrigin ≠ some (frame.viewX, frame.viewY) →
    ∀ c < min frame.viewWidth.toNat window.width.toNat,
    ∀ r < min frame.viewHeight.toNat window.height.toNat, DirtyGrid.cellKey c r ∈ g'.marks
  touched : ∀ c < window.width.toNat, ∀ r < window.height.toNat,
    window.startX.toInt + c < 2 ^ 31 → window.startY.toInt + r < 2 ^ 31 →
    Touches frame (window.coordAt c r) → DirtyGrid.cellKey c r ∈ g'.marks
  untouched : ∀ d : Coord, d.InBand → ¬ Touches frame d → tiles'.get? d.1 d.2 = tiles.get? d.1 d.2

/-- The squares that a view marks on a grid with squares like those of `g`. -/
def ViewFootprint (g : DirtyGrid) (sprite : UInt32) (frame : Frame) (window : Window) (k : Int) :
    Prop :=
  ∃ px ∈ DirtyGrid.samples 0 (Word.timesSat (min frame.viewWidth window.width) sprite) g.cellWidth,
    ∃ py ∈ DirtyGrid.samples 0 (Word.timesSat (min frame.viewHeight window.height) sprite)
        g.cellHeight,
      k = g.square px.toInt py.toInt

instance (k : Int) : Decidable (ViewFootprint g sprite frame window k) :=
  inferInstanceAs (Decidable (∃ _ ∈ _, ∃ _ ∈ _, _ = _))

theorem markView_marks (hg : g.Regular) (sprite : UInt32) (frame : Frame) (window : Window) :
    ∃ g', markView sprite frame window g = .ok g' ∧
      g.Marks g' (ViewFootprint g sprite frame window) :=
  DirtyGrid.markRect_marks hg 0 0 _ _

/-- A view marks the square of every cell of the window that it reaches. -/
theorem viewFootprint_cellKey {c r : Nat} (hg : g.ForSprite sprite)
    (hfit : window.Fits sprite width height)
    (hc : c < min frame.viewWidth.toNat window.width.toNat)
    (hr : r < min frame.viewHeight.toNat window.height.toNat) :
    ViewFootprint g sprite frame window (DirtyGrid.cellKey c r) := by
  have hpos := hfit.sprite_pos
  have hzero : (0 : Int32).toInt = (0 * sprite.toNat : Nat) := by
    rw [Nat.zero_mul]
    rfl
  rw [← toNat_min] at hc hr
  have hcw : (min frame.viewWidth window.width).toNat ≤ window.width.toNat := by
    rw [toNat_min]
    omega
  have hrh : (min frame.viewHeight window.height).toNat ≤ window.height.toNat := by
    rw [toNat_min]
    omega
  have hwidth := toNat_timesSat (Nat.lt_trans (hfit.column_lt hcw) (by decide))
  have hheight := toNat_timesSat (Nat.lt_trans (hfit.row_lt hrh) (by decide))
  obtain ⟨px, hpx, hpxSquare⟩ := DirtyGrid.exists_sample (c := c) hpos hg.width_eq hzero hwidth
    (Nat.zero_le _) (by omega) (hfit.columns_le (by omega))
  obtain ⟨py, hpy, hpySquare⟩ := DirtyGrid.exists_sample (c := r) hpos hg.height_eq hzero hheight
    (Nat.zero_le _) (by omega) (hfit.rows_le (by omega))
  refine ⟨px, hpx, py, hpy, ?_⟩
  rw [DirtyGrid.square, hpxSquare, hpySquare, DirtyGrid.cellKey]

theorem marks_of_patches (hg : g.Regular) (sprite : UInt32) (frame : Frame) (window : Window)
    (patches : List Patch) :
    ∃ g', patches.foldlM (fun g patch => mark sprite frame window patch g) g = .ok g' ∧
      g.Marks g' (fun k => ∃ patch ∈ patches, Footprint g sprite frame window patch k) := by
  refine DirtyGrid.Marks.foldlM ?_
  intro h hs patch _
  obtain ⟨h', hmark, hm⟩ := mark_marks (hs.regular hg) sprite frame window patch
  refine ⟨h', hmark, hm.congr ?_⟩
  intro k
  rw [Footprint, Footprint, hs.cellWidth, hs.cellHeight, hs.square_eq]

/-- The squares that bringing a frame into the world marks: those of a view that has moved, and
those of the patches. -/
def Marked (p : Patcher) (frame : Frame) (window : Window) (g : DirtyGrid) (k : Int) : Prop :=
  p.lastOrigin ≠ some (frame.viewX, frame.viewY) ∧ ViewFootprint g p.sprite frame window k ∨
    ∃ patch ∈ frame.patches, Footprint g p.sprite frame window patch k

instance (p : Patcher) (k : Int) : Decidable (p.Marked frame window g k) :=
  inferInstanceAs (Decidable (_ ∧ _ ∨ ∃ _ ∈ _, _))

/-- Only the size of the squares counts, not which of them are marked already. -/
theorem marked_congr {g' : DirtyGrid} (h : g.SameSize g') (p : Patcher) (frame : Frame)
    (window : Window) (k : Int) : p.Marked frame window g' k ↔ p.Marked frame window g k := by
  simp only [Marked, ViewFootprint, Footprint, h.cellWidth, h.cellHeight, h.square_eq]

theorem markAll_marks (hg : g.Regular) (p : Patcher) (frame : Frame) (window : Window) :
    ∃ g', p.markAll frame window g = .ok g' ∧ g.Marks g' (p.Marked frame window g) := by
  obtain ⟨g₁, hview, h₁⟩ : ∃ g₁, p.markMoved frame window g = .ok g₁ ∧ g.Marks g₁ fun k =>
      p.lastOrigin ≠ some (frame.viewX, frame.viewY) ∧ ViewFootprint g p.sprite frame window k := by
    unfold markMoved
    split
    · next hmoved =>
      obtain ⟨g₁, h, hm⟩ := markView_marks hg p.sprite frame window
      exact ⟨g₁, h, hm.congr fun k => (and_iff_right hmoved).symm⟩
    · next hsame =>
      exact ⟨g, rfl, (DirtyGrid.Marks.refl g).congr fun k => ⟨False.elim, fun h => hsame h.1⟩⟩
  obtain ⟨g₂, hpatches, h₂⟩ := marks_of_patches (h₁.regular hg) p.sprite frame window frame.patches
  refine ⟨g₂, by rw [markAll, hview]; exact hpatches, (h₁.trans h₂).congr fun k => ?_⟩
  simp only [Marked, Footprint, h₁.cellWidth, h₁.cellHeight, h₁.square_eq]

theorem apply_applied {p : Patcher} (tiles : TileStore) (hg : g.ForSprite p.sprite)
    (hfit : window.Fits p.sprite width height) (hexact : frame.Exact) :
    ∃ summary tiles' g', p.apply frame window tiles g =
        .ok (summary, { p with lastOrigin := some (frame.viewX, frame.viewY) }, tiles', g') ∧
      Applied p frame window tiles g tiles' g' := by
  have hreg := hg.regular hfit.sprite_pos hfit.square_lt
  obtain ⟨g', hmarks, hm⟩ := markAll_marks hreg p frame window
  refine ⟨_, _, g', apply_of_markAll hmarks tiles, hm.toSameSize,
    fun k hk => (hm.mem_iff k).2 (.inl hk), ?_, ?_,
    fun d hd hne => get?_of_not_touches tiles hexact hd hne⟩
  · intro hmoved c hc r hr
    exact (hm.mem_iff _).2 (.inr (.inl ⟨hmoved, viewFootprint_cellKey hg hfit hc hr⟩))
  · intro c hc r hr hcx hry htouch
    obtain ⟨patch, hpatch, i, hi, heq⟩ := htouch
    refine (hm.mem_iff _).2 (.inr (.inr ⟨patch, hpatch, ?_⟩))
    have hlox := window.startX.le_toInt
    have hloy := window.startY.le_toInt
    refine footprint_cellKey hg hfit hi (hexact.column patch hpatch i hi)
      (hexact.row patch hpatch i hi) hc hr ?_ ?_
    · rw [heq, Window.coordAt, Int32.toInt_ofInt_of_le (by omega) hcx]
    · rw [heq, Window.coordAt, Int32.toInt_ofInt_of_le (by omega) hry]

end Patcher

end TileViewer
