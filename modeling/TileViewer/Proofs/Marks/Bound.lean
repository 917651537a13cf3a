import Mathlib.Data.List.Perm.Subperm
import Mathlib.Data.List.ProdSigma
import TileViewer.Proofs.Marks.Patch

/-!
The marks of one frame. They cover every cell that the frame wrote inside the window, and the view
if it has moved; and they are no more than the squares of the window, with one row and one column
of squares besides, however many patches there are and whatever size they claim.
-/
namespace TileViewer

variable {sprite : UInt32} {g : DirtyGrid} {frame : Frame} {window : Window} {patch : Patch}

namespace DirtyGrid

/-- Marks that lie in the first columns and rows are no more than these have squares. -/
theorem size_le_of_keys {m n : Nat}
    (h : ∀ k ∈ g.marks, ∃ i < m, ∃ j < n, k = (i : Int) * rowStride + (j : Int)) :
    g.size ≤ m * n := by
  let keys : List Int := (List.range m ×ˢ List.range n).map fun p => p.1 * rowStride + p.2
  have hnodup : g.marks.toList.Nodup :=
    g.marks.distinct_toList.imp fun hne heq => ne_of_beq_false hne heq
  have hsub : g.marks.toList ⊆ keys := by
    intro k hk
    obtain ⟨i, hi, j, hj, rfl⟩ := h k (Std.HashSet.mem_toList.1 hk)
    exact List.mem_map.2
      ⟨(i, j), List.mem_product.2 ⟨List.mem_range.2 hi, List.mem_range.2 hj⟩, rfl⟩
  calc g.size = g.marks.toList.length := Std.HashSet.length_toList.symm
    _ ≤ keys.length := hnodup.length_le_of_subset hsub
    _ = m * n := by rw [List.length_map, List.length_product, List.length_range, List.length_range]

/-- Samples of sprites in a window lie in its squares, or in the one after them. -/
theorem sample_lt {x px : Int32} {extent cell : UInt32} {first n size : Nat}
    (hpos : 0 < sprite.toNat) (hcell : cell.toNat = 5 * sprite.toNat)
    (hsize : (size + 10) * sprite.toNat < 2 ^ 31) (hx : x.toInt = (first * sprite.toNat : Nat))
    (hextent : extent.toNat = n * sprite.toNat) (hn : first + n ≤ size)
    (hpx : px ∈ samples x extent cell) :
    ∃ i < size / 5 + 2, px.toInt / cell.toNat = (i : Nat) := by
  have hfirst : x.toInt / cell.toNat = (first / 5 : Nat) := by
    rw [hx, hcell, ← Int.natCast_ediv, Nat.mul_div_mul_right _ _ hpos]
  have hwhole : extent.toNat / cell.toNat = n / 5 := by
    rw [hextent, hcell, Nat.mul_div_mul_right _ _ hpos]
  have hend : x.toInt + extent.toNat + cell.toNat < 2 ^ 31 := by
    have hle : (first + n + 5) * sprite.toNat ≤ (size + 10) * sprite.toNat :=
      Nat.mul_le_mul_right _ (by omega)
    rw [Nat.add_mul, Nat.add_mul] at hle
    rw [hx, hextent, hcell]
    omega
  obtain ⟨hlow, hhigh⟩ := (exists_sample_iff (by omega) (by omega) hend).1 ⟨px, hpx, rfl⟩
  rw [hfirst, ← Int.natCast_ediv, hwhole] at hhigh
  rw [hfirst] at hlow
  obtain ⟨i, hi⟩ := Int.eq_ofNat_of_zero_le (Int.le_trans (Int.natCast_nonneg _) hlow)
  exact ⟨i, by omega, hi⟩

end DirtyGrid

/-- A window with room for ten more sprites in each direction before its pixels are not exact. -/
structure Window.HasRoom (window : Window) (sprite : UInt32) : Prop where
  sprite_pos : 0 < sprite.toNat
  columns : (window.width.toNat + 10) * sprite.toNat < 2 ^ 31
  rows : (window.height.toNat + 10) * sprite.toNat < 2 ^ 31

/-- The key of a square of the window, or of one in the column or the row after them. -/
def Window.HasKey (window : Window) (k : Int) : Prop :=
  ∃ i < window.width.toNat / 5 + 2, ∃ j < window.height.toNat / 5 + 2,
    k = (i : Int) * rowStride + (j : Int)

theorem Window.HasRoom.fits (h : window.HasRoom sprite) : window.Fits sprite 0 0 := by
  have hsquares {n : Nat} (hn : (n + 10) * sprite.toNat < 2 ^ 31) :
      (n / 5 + 1) * (5 * sprite.toNat) < 2 ^ 31 := by
    rw [← Nat.mul_assoc]
    exact Nat.lt_of_le_of_lt (Nat.mul_le_mul_right _ (by omega)) hn
  have hnone {c r : Nat} : ¬ window.Shows sprite 0 0 c r := by
    rintro ⟨⟨-, hc⟩, -⟩
    exact absurd hc (Int.not_lt.2 (Int.natCast_nonneg _))
  exact ⟨h.sprite_pos, hsquares h.columns, hsquares h.rows, fun _ _ h => absurd h hnone,
    fun _ _ h => absurd h hnone⟩

namespace Patcher

/-- A patch marks nothing outside the squares of the window and one more each way. -/
theorem footprint_within {k : Int} (hg : g.ForSprite sprite) (hroom : window.HasRoom sprite)
    (h : Footprint g sprite frame window patch k) : window.HasKey k := by
  obtain ⟨hpos, hwidth, hheight⟩ := hroom
  obtain ⟨⟨hxin, hyin⟩, px, hpx, py, hpy, rfl⟩ := h
  have hexact {n : Nat} (hn : (n + 10) * sprite.toNat < 2 ^ 31) : n * sprite.toNat < 2 ^ 31 :=
    Nat.lt_of_le_of_lt (Nat.mul_le_mul_right _ (Nat.le_add_right _ 10)) hn
  obtain ⟨first, hfirst, -, hx, hcolumns⟩ := span_exact (hexact hwidth) hxin
  obtain ⟨first', hfirst', -, hy, hrows⟩ := span_exact (hexact hheight) hyin
  obtain ⟨i, hi, hcolumn⟩ :=
    DirtyGrid.sample_lt hpos hg.width_eq hwidth hx hcolumns (by omega) hpx
  obtain ⟨j, hj, hrow⟩ := DirtyGrid.sample_lt hpos hg.height_eq hheight hy hrows (by omega) hpy
  exact ⟨i, hi, j, hj, by rw [DirtyGrid.square, hcolumn, hrow]⟩

theorem viewFootprint_within {k : Int} (hg : g.ForSprite sprite) (hroom : window.HasRoom sprite)
    (h : ViewFootprint g sprite frame window k) : window.HasKey k := by
  obtain ⟨hpos, hwidth, hheight⟩ := hroom
  obtain ⟨px, hpx, py, hpy, rfl⟩ := h
  have hzero : (0 : Int32).toInt = (0 * sprite.toNat : Nat) := by
    rw [Nat.zero_mul]
    rfl
  have hextent {view size : UInt32} (hsize : (size.toNat + 10) * sprite.toNat < 2 ^ 31) :
      (Word.timesSat (min view size) sprite).toNat =
        min view.toNat size.toNat * sprite.toNat := by
    rw [← toNat_min]
    apply toNat_timesSat
    rw [toNat_min]
    exact Nat.lt_trans (Nat.lt_of_le_of_lt (Nat.mul_le_mul_right _ (by omega)) hsize) (by decide)
  obtain ⟨i, hi, hcolumn⟩ :=
    DirtyGrid.sample_lt hpos hg.width_eq hwidth hzero (hextent hwidth) (by omega) hpx
  obtain ⟨j, hj, hrow⟩ :=
    DirtyGrid.sample_lt hpos hg.height_eq hheight hzero (hextent hheight) (by omega) hpy
  exact ⟨i, hi, j, hj, by rw [DirtyGrid.square, hcolumn, hrow]⟩

theorem marked_within {p : Patcher} {k : Int} (hg : g.ForSprite p.sprite)
    (hroom : window.HasRoom p.sprite) (h : p.Marked frame window g k) : window.HasKey k := by
  obtain ⟨-, hview⟩ | ⟨patch, -, hpatch⟩ := h
  · exact viewFootprint_within hg hroom hview
  · exact footprint_within hg hroom hpatch

/-- One use of a patcher. -/
inductive Op
  | apply (frame : Frame) (window : Window) (tiles : TileStore) (dirty : DirtyGrid)
  | reset

def use (p : Patcher) : Op → Except Overflow Patcher
  | .apply frame window tiles dirty => do
    let (_, p, _) ← p.apply frame window tiles dirty
    return p
  | .reset => .ok p.reset

def run (sprite : UInt32) (ops : List Op) : Except Overflow Patcher :=
  ops.foldlM use (ofSprite sprite)

/-- Where the view of the frame applied last begins, if one was applied since the last reset. -/
def lastView (ops : List Op) : Option (Int32 × Int32) :=
  ops.foldl (fun _ op => match op with
    | .apply frame _ _ _ => some (frame.viewX, frame.viewY)
    | .reset => none) none

theorem run_eq_ok {p : Patcher} {ops : List Op} (h : run sprite ops = .ok p) :
    p = ⟨max sprite 1, lastView ops⟩ := by
  induction ops using List.reverseRecOn generalizing p with
  | nil =>
    cases h
    rfl
  | append_singleton ops op ih =>
    rw [run, List.foldlM_append] at h
    obtain ⟨q, hq, h⟩ := bind_eq_ok h
    obtain rfl := ih hq
    obtain ⟨q', hop, h⟩ := bind_eq_ok h
    cases h
    rw [lastView, List.foldl_append]
    cases op with
    | reset =>
      cases hop
      rfl
    | apply frame window tiles dirty =>
      obtain ⟨⟨summary, p', tiles', g'⟩, happly, hop⟩ := bind_eq_ok hop
      cases hop
      obtain ⟨-, -, hp, -⟩ := apply_eq_ok happly
      exact hp

/-- The `i`-th cell of a patch lies in column `x` and row `y` of the world, and no sum on the way
there was cut off. -/
structure LandsAt (frame : Frame) (patch : Patch) (i : Nat) (x y : Int) : Prop where
  usable : i < patch.usableCells
  column_eq : (cellAt frame patch i).1.toInt = x
  row_eq : (cellAt frame patch i).2.toInt = y
  column_exact : x = (i % patch.width.toNat : Nat) + patch.x.toInt + frame.viewX.toInt
  row_exact : y = (i / patch.width.toNat : Nat) + patch.y.toInt + frame.viewY.toInt

/-- What is dirty after a frame, where `g` was the grid before it and `last` the beginning of the
view before. -/
structure Covers (sprite : UInt32) (last : Option (Int32 × Int32)) (frame : Frame)
    (window : Window) (g g' : DirtyGrid) : Prop where
  cells : ∀ patch ∈ frame.patches, ∀ i c r : Nat,
    LandsAt frame patch i (window.startX.toInt + c) (window.startY.toInt + r) →
    c < window.width.toNat → r < window.height.toNat →
    g'.isDirty (Int32.ofNat (c * sprite.toNat)) (Int32.ofNat (r * sprite.toNat)) = .ok true
  view : last ≠ some (frame.viewX, frame.viewY) →
    ∀ c < min frame.viewWidth.toNat window.width.toNat,
    ∀ r < min frame.viewHeight.toNat window.height.toNat,
      g'.isDirty (Int32.ofNat (c * sprite.toNat)) (Int32.ofNat (r * sprite.toNat)) = .ok true
  few : g.isEmpty = true →
    g'.size ≤ (window.width.toNat / 5 + 2) * (window.height.toNat / 5 + 2)

theorem covers_of_marks {p : Patcher} {g' : DirtyGrid} (hg : g.ForSprite p.sprite)
    (hroom : window.HasRoom p.sprite) (hm : g.Marks g' (p.Marked frame window g)) :
    Covers p.sprite p.lastOrigin frame window g g' := by
  have hfit := hroom.fits
  -- A cell of the window is dirty as soon as its square is marked.
  have hdirty {c r : Nat} (hc : c < window.width.toNat) (hr : r < window.height.toNat)
      (hk : p.Marked frame window g (DirtyGrid.cellKey c r)) :
      g'.isDirty (Int32.ofNat (c * p.sprite.toNat)) (Int32.ofNat (r * p.sprite.toNat)) =
        .ok true := by
    rw [(hg.sameSize hm.toSameSize).isDirty_cell hroom.sprite_pos hfit.square_lt
      (hfit.column_lt (Nat.le_of_lt hc)) (hfit.row_lt (Nat.le_of_lt hr)),
      Std.HashSet.contains_iff_mem.2 ((hm.mem_iff _).2 (.inr hk))]
  constructor
  · intro patch hpatch i c r hlands hc hr
    apply hdirty hc hr
    refine .inr ⟨patch, hpatch, footprint_cellKey hg hfit hlands.usable ?_ ?_ hc hr
      hlands.column_eq.symm hlands.row_eq.symm⟩
    · exact hlands.column_eq.trans hlands.column_exact
    · exact hlands.row_eq.trans hlands.row_exact
  · intro hmoved c hc r hr
    apply hdirty (by omega) (by omega)
    exact .inl ⟨hmoved, viewFootprint_cellKey hg hfit hc hr⟩
  · intro hempty
    apply DirtyGrid.size_le_of_keys
    intro k hk
    rcases (hm.mem_iff k).1 hk with hold | hnew
    · exact absurd hold (Std.HashSet.isEmpty_iff_forall_not_mem.1 hempty k)
    · exact marked_within hg hroom hnew

/-- However a patcher was used before, the next frame is applied to any grid for its sprites, and
covers what it has to without marking more than the window asks for. -/
theorem apply_covers {p : Patcher} {ops : List Op} (hrun : run sprite ops = .ok p)
    (frame : Frame) (window : Window) (tiles : TileStore)
    (hwidth : (window.width.toNat + 10) * p.sprite.toNat < 2 ^ 31)
    (hheight : (window.height.toNat + 10) * p.sprite.toNat < 2 ^ 31) :
    ∃ g₀, DirtyGrid.ofSprite p.sprite = .ok g₀ ∧ ∀ g, g₀.SameSize g →
      ∃ summary p' tiles' g', p.apply frame window tiles g = .ok (summary, p', tiles', g') ∧
        Covers p.sprite (lastView ops) frame window g g' := by
  obtain rfl := run_eq_ok hrun
  have hpos := max_one_pos sprite
  have hroom : window.HasRoom (max sprite 1) := ⟨hpos, hwidth, hheight⟩
  have hten : 10 * (max sprite 1).toNat < 2 ^ 31 :=
    Nat.lt_of_le_of_lt (Nat.mul_le_mul_right _ (Nat.le_add_left _ _)) hwidth
  obtain ⟨g₀, hg₀⟩ := DirtyGrid.exists_ofSprite hpos (by omega)
  refine ⟨g₀, hg₀, ?_⟩
  intro g hsize
  have hg := (DirtyGrid.ofSprite_forSprite hpos hg₀).sameSize hsize
  obtain ⟨g', hmarks, hm⟩ :=
    markAll_marks (hg.regular hpos (by omega)) ⟨max sprite 1, lastView ops⟩ frame window
  exact ⟨_, _, _, g', apply_of_markAll hmarks tiles, covers_of_marks hg hroom hm⟩

/-- Two frames of one view. The patch of the second is far larger than the window and begins before
it; its third cell is the first one in the window. -/
theorem apply_covers_large :
    ∃ (frame : Frame) (p p' : Patcher) (tiles tiles' : TileStore) (g g' : DirtyGrid)
      (summary : PatchSummary),
      run 8 [.apply frame ⟨95, 195, 20, 20⟩ {} g] = .ok p ∧
      p.apply { frame with patches := [⟨-7, 3, 20000, 20000, [[], [], [⟨1, .none⟩]]⟩] }
        ⟨95, 195, 20, 20⟩ tiles g = .ok (summary, p', tiles', g') ∧
      g'.isDirty 0 64 = .ok true ∧ g'.size ≤ 36 := by
  let frame : Frame := ⟨1, 100, 200, 10, 10, [], [], false, none⟩
  let patch : Patch := ⟨-7, 3, 20000, 20000, [[], [], [⟨1, .none⟩]]⟩
  have hfirst : run 8 [] = .ok (ofSprite 8) := rfl
  have hsize : (20 + 10) * (max (8 : UInt32) 1).toNat < 2 ^ 31 := by decide
  obtain ⟨g, hg, hall⟩ := apply_covers hfirst frame ⟨95, 195, 20, 20⟩ {} hsize hsize
  obtain ⟨_, p, tiles, _, happly, -⟩ := hall g (.refl g)
  have hrun : run 8 [.apply frame ⟨95, 195, 20, 20⟩ {} g] = .ok p := by
    change ((ofSprite 8).apply frame ⟨95, 195, 20, 20⟩ {} g >>= _) >>= _ = _
    rw [happly]
    rfl
  obtain rfl := run_eq_ok hrun
  obtain ⟨g₂, hg₂, hall⟩ := apply_covers hrun { frame with patches := [patch] }
    ⟨95, 195, 20, 20⟩ tiles hsize hsize
  cases hg.symm.trans hg₂
  obtain ⟨summary, p', tiles', g', hok, hcovers⟩ := hall g (.refl g)
  have hempty : g.isEmpty = true := by
    obtain ⟨side, -, h⟩ := bind_eq_ok hg
    cases h
    rfl
  have hlands : LandsAt { frame with patches := [patch] } patch 2 95 203 := by
    constructor <;> decide
  refine ⟨frame, _, p', tiles, tiles', g, g', summary, hrun, hok, ?_, hcovers.few hempty⟩
  exact hcovers.cells patch List.mem_cons_self 2 0 8 hlands (by decide) (by decide)

end Patcher

end TileViewer
