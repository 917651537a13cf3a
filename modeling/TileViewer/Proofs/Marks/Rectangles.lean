import Mathlib.Data.List.Perm.Basic
import Mathlib.Tactic.Ring
import TileViewer.Proofs.Marks.Grid

/-!
A grid as the rectangles marked on it. However it was built, by marking rectangles and adding the
marks of other grids, a pixel is dirty exactly when one of the rectangles reaches its square.
-/
namespace TileViewer.DirtyGrid

variable {g g' : DirtyGrid} {width height : UInt32}

/-- A rectangle of pixels. -/
structure Rect where
  x : Int32
  y : Int32
  width : UInt32
  height : UInt32

namespace Rect

/-- One of the pixels of the rectangle. -/
structure Holds (r : Rect) (x y : Int) : Prop where
  left : r.x.toInt ≤ x
  right : x < r.x.toInt + r.width.toNat
  top : r.y.toInt ≤ y
  bottom : y < r.y.toInt + r.height.toNat

/-- The rectangle, and one square more to the right and below, lie in the picture and in rows of
squares that a key can tell apart. -/
structure Fits (width height : UInt32) (r : Rect) : Prop where
  left : 0 ≤ r.x.toInt
  top : 0 ≤ r.y.toInt
  right : r.x.toInt + r.width.toNat + width.toNat < 2 ^ 31
  bottom : r.y.toInt + r.height.toNat + height.toNat < 2 ^ 31
  rows : (r.y.toInt + r.height.toNat + height.toNat) / height.toNat ≤ 32767

/-- The square around a pixel is at most one further than as many as there are whole ones in the
rectangle, counted from the square of its corner. -/
structure Reaches (width height : UInt32) (r : Rect) (x y : Int) : Prop where
  left : r.x.toInt / width.toNat ≤ x / width.toNat
  right : x / width.toNat ≤ r.x.toInt / width.toNat + r.width.toNat / width.toNat + 1
  top : r.y.toInt / height.toNat ≤ y / height.toNat
  bottom : y / height.toNat ≤ r.y.toInt / height.toNat + r.height.toNat / height.toNat + 1

/-- The keys that marking the rectangle adds. -/
def Keys (width height : UInt32) (r : Rect) (k : Int) : Prop :=
  ∃ px ∈ samples r.x r.width width, ∃ py ∈ samples r.y r.height height,
    k = px.toInt / width.toNat * rowStride + py.toInt / height.toNat

end Rect

/-- One use of a grid: a rectangle is marked on it, or the marks of another grid are added to it,
one that was new, with squares of this size, before its own uses. -/
inductive Op
  | rect (r : Rect)
  | absorb (width height : UInt32) (ops : List Op)

mutual

def use (g : DirtyGrid) : Op → Except Overflow DirtyGrid
  | .rect r => g.markRect r.x r.y r.width r.height
  | .absorb width height ops => do
    let other ← useAll (ofCellSize width height) ops
    return g.absorb other

def useAll (g : DirtyGrid) : List Op → Except Overflow DirtyGrid
  | [] => .ok g
  | op :: ops => do
    let g ← use g op
    useAll g ops

end

mutual

/-- The rectangles that a use marks on a grid with squares of this size. Those of a grid with other
squares do not count. -/
def Op.rects (width height : UInt32) : Op → List Rect
  | .rect r => [r]
  | .absorb w h ops => if w = width ∧ h = height then rectsOf width height ops else []

def rectsOf (width height : UInt32) : List Op → List Rect
  | [] => []
  | op :: ops => op.rects width height ++ rectsOf width height ops

end

/-- Squares of at least one pixel, and of a size that a coordinate can be. -/
structure SquareSize (width height : UInt32) : Prop where
  width_pos : 1 ≤ width.toNat
  width_lt : width.toNat < 2 ^ 31
  height_pos : 1 ≤ height.toNat
  height_lt : height.toNat < 2 ^ 31

mutual

/-- Each rectangle fits the squares of the grid that it is marked on. -/
def Op.Fits (width height : UInt32) : Op → Prop
  | .rect r => r.Fits width height
  | .absorb w h ops => SquareSize w h ∧ AllFit w h ops

def AllFit (width height : UInt32) : List Op → Prop
  | [] => True
  | op :: ops => op.Fits width height ∧ AllFit width height ops

end

theorem allFit_iff {ops : List Op} :
    AllFit width height ops ↔ ∀ op ∈ ops, op.Fits width height := by
  induction ops with
  | nil => exact iff_of_true trivial nofun
  | cons op ops ih => rw [AllFit, List.forall_mem_cons, ih]

theorem rectsOf_eq (ops : List Op) :
    rectsOf width height ops = ops.flatMap (Op.rects width height) := by
  induction ops with
  | nil => rfl
  | cons op ops ih => rw [rectsOf, List.flatMap_cons, ih]

theorem AllFit.perm {ops ops' : List Op} (h : AllFit width height ops) (hperm : ops'.Perm ops) :
    AllFit width height ops' := by
  rw [allFit_iff] at h ⊢
  intro op hop
  exact h op (hperm.mem_iff.1 hop)

theorem mem_rectsOf_perm {ops ops' : List Op} (hperm : ops'.Perm ops) (r : Rect) :
    r ∈ rectsOf width height ops' ↔ r ∈ rectsOf width height ops := by
  rw [rectsOf_eq, rectsOf_eq]
  exact (hperm.flatMap_right _).mem_iff

mutual

theorem fits_of_mem_rects {r : Rect} : ∀ {op : Op}, op.Fits width height →
    r ∈ op.rects width height → r.Fits width height
  | .rect _, hop, hr => by
    rw [Op.rects, List.mem_singleton] at hr
    rw [hr]
    exact hop
  | .absorb w h ops, hop, hr => by
    rw [Op.rects] at hr
    split at hr
    · next hsize =>
      have hops := hop.2
      rw [hsize.1, hsize.2] at hops
      exact fits_of_mem_rectsOf hops hr
    · cases hr

theorem fits_of_mem_rectsOf {r : Rect} : ∀ {ops : List Op}, AllFit width height ops →
    r ∈ rectsOf width height ops → r.Fits width height
  | [], _, hr => nomatch hr
  | op :: ops, hops, hr => by
    rcases List.mem_append.1 hr with hr | hr
    · exact fits_of_mem_rects hops.1 hr
    · exact fits_of_mem_rectsOf hops.2 hr

end

namespace SquareSize

variable (h : SquareSize width height)

include h

theorem cellWidth_eq : (ofCellSize width height).cellWidth = width := max_one h.width_pos

theorem cellHeight_eq : (ofCellSize width height).cellHeight = height := max_one h.height_pos

theorem regular : (ofCellSize width height).Regular := by
  constructor <;> simp only [h.cellWidth_eq, h.cellHeight_eq]
  · exact h.width_pos
  · exact h.width_lt
  · exact h.height_pos
  · exact h.height_lt

end SquareSize

mutual

/-- A use never fails, and adds the keys of its rectangles. -/
theorem use_marks : ∀ (op : Op) {g : DirtyGrid}, g.Regular → op.Fits g.cellWidth g.cellHeight →
    ∃ g', g.use op = .ok g' ∧ Marks g g' fun k =>
      ∃ r ∈ op.rects g.cellWidth g.cellHeight, r.Keys g.cellWidth g.cellHeight k
  | .rect r, g, hg, _ => by
    obtain ⟨g', hmark, hm⟩ := markRect_marks hg r.x r.y r.width r.height
    refine ⟨g', hmark, hm.congr fun k => ?_⟩
    simp only [Op.rects, List.mem_singleton, exists_eq_left]
    rfl
  | .absorb w h ops, g, hg, hop => by
    obtain ⟨hsize, hops⟩ := hop
    rw [← hsize.cellWidth_eq, ← hsize.cellHeight_eq] at hops
    obtain ⟨other, hother, hm⟩ := useAll_marks ops hsize.regular hops
    rw [hsize.cellWidth_eq, hsize.cellHeight_eq] at hm
    have hw := hm.cellWidth.trans hsize.cellWidth_eq
    have hh := hm.cellHeight.trans hsize.cellHeight_eq
    refine ⟨g.absorb other, by rw [use, hother]; rfl, ?_⟩
    by_cases hsame : w = g.cellWidth ∧ h = g.cellHeight
    · refine (absorb_marks ⟨hw.trans hsame.1, hh.trans hsame.2⟩).congr fun k => ?_
      obtain ⟨rfl, rfl⟩ := hsame
      rw [hm.mem_iff, Op.rects, if_pos ⟨rfl, rfl⟩]
      exact or_iff_right Std.HashSet.not_mem_empty
    · rw [absorb, hw, hh, if_neg hsame, Op.rects, if_neg hsame]
      refine (Marks.refl g).congr fun k => ⟨False.elim, ?_⟩
      rintro ⟨r, hr, -⟩
      cases hr

theorem useAll_marks : ∀ (ops : List Op) {g : DirtyGrid}, g.Regular →
    AllFit g.cellWidth g.cellHeight ops →
    ∃ g', g.useAll ops = .ok g' ∧ Marks g g' fun k =>
      ∃ r ∈ rectsOf g.cellWidth g.cellHeight ops, r.Keys g.cellWidth g.cellHeight k
  | [], g, _, _ => by
    refine ⟨g, rfl, (Marks.refl g).congr fun k => ⟨False.elim, ?_⟩⟩
    rintro ⟨r, hr, -⟩
    cases hr
  | op :: ops, g, hg, hops => by
    obtain ⟨g₁, hop, h₁⟩ := use_marks op hg hops.1
    have hfits := hops.2
    rw [← h₁.cellWidth, ← h₁.cellHeight] at hfits
    obtain ⟨g₂, hrest, h₂⟩ := useAll_marks ops (h₁.regular hg) hfits
    rw [h₁.cellWidth, h₁.cellHeight] at h₂
    refine ⟨g₂, by rw [useAll, hop]; exact hrest, (h₁.trans h₂).congr fun k => ?_⟩
    simp only [rectsOf, List.mem_append, or_and_right, exists_or]

end

/-- What ends before `a + b` is at most one square past the whole squares of both. -/
theorem div_le_of_lt {a b z c : Int} (hc : 0 < c) (hz : z < a + b) : z / c ≤ a / c + b / c + 1 := by
  have ha := Int.lt_ediv_add_one_mul_self a hc
  have hb := Int.lt_ediv_add_one_mul_self b hc
  apply Int.le_of_lt_add_one
  rw [Int.ediv_lt_iff_lt_mul hc]
  calc z < a + b := hz
    _ < (a / c + 1) * c + (b / c + 1) * c := Int.add_lt_add ha hb
    _ = (a / c + b / c + 1 + 1) * c := by ring

namespace Rect

variable {r : Rect} {x y : Int}

/-- The last row of squares that a rectangle reaches has a key of its own. -/
theorem Fits.lastRow_le (h : r.Fits width height) (hpos : 1 ≤ height.toNat) :
    r.y.toInt / height.toNat + r.height.toNat / height.toNat + 1 ≤ 32767 := by
  have hpos' : (0 : Int) < height.toNat := Int.natCast_pos.2 hpos
  refine Int.le_trans ?_ h.rows
  rw [Int.le_ediv_iff_mul_le hpos', Int.add_mul, Int.add_mul, Int.one_mul]
  have htop := Int.ediv_mul_le r.y.toInt (Int.ne_of_gt hpos')
  have hrows := Int.ediv_mul_le (r.height.toNat : Int) (Int.ne_of_gt hpos')
  omega

/-- Marking a rectangle adds the key of a pixel's square exactly when it reaches the square. -/
theorem Fits.keys_iff (h : r.Fits width height) (hsize : SquareSize width height) (hy : 0 ≤ y)
    (hrow : y / height.toNat ≤ 32767) :
    r.Keys width height (x / width.toNat * rowStride + y / height.toNat) ↔
      r.Reaches width height x y := by
  have hcolumns {k : Int} := exists_sample_iff (k := k) hsize.width_pos h.left h.right
  have hrows {k : Int} := exists_sample_iff (k := k) hsize.height_pos h.top h.bottom
  have hfirst : 0 ≤ r.y.toInt / height.toNat := Int.ediv_nonneg h.top (Int.natCast_nonneg _)
  have hlast := h.lastRow_le hsize.height_pos
  have hrow' : 0 ≤ y / height.toNat := Int.ediv_nonneg hy (Int.natCast_nonneg _)
  constructor
  · rintro ⟨px, hpx, py, hpy, hkey⟩
    obtain ⟨hleft, hright⟩ := hcolumns.1 ⟨px, hpx, rfl⟩
    obtain ⟨htop, hbottom⟩ := hrows.1 ⟨py, hpy, rfl⟩
    -- Rows from 0 to 32767 leave only one way to read the key.
    rw [rowStride] at hkey
    have hcolumn : x / width.toNat = px.toInt / width.toNat := by omega
    have hrow : y / height.toNat = py.toInt / height.toNat := by omega
    constructor
    · rwa [hcolumn]
    · rwa [hcolumn]
    · rwa [hrow]
    · rwa [hrow]
  · intro hreach
    obtain ⟨px, hpx, hcolumn⟩ := hcolumns.2 ⟨hreach.left, hreach.right⟩
    obtain ⟨py, hpy, hrow⟩ := hrows.2 ⟨hreach.top, hreach.bottom⟩
    exact ⟨px, hpx, py, hpy, by rw [hcolumn, hrow]⟩

theorem Holds.reaches (h : r.Holds x y) (hsize : SquareSize width height) :
    r.Reaches width height x y := by
  have hw : (0 : Int) < width.toNat := Int.natCast_pos.2 hsize.width_pos
  have hh : (0 : Int) < height.toNat := Int.natCast_pos.2 hsize.height_pos
  constructor
  · exact Int.ediv_le_ediv hw h.left
  · exact div_le_of_lt hw h.right
  · exact Int.ediv_le_ediv hh h.top
  · exact div_le_of_lt hh h.bottom

instance (width height : UInt32) (r : Rect) (x y : Int) : Decidable (r.Reaches width height x y) :=
  decidable_of_iff
    ((r.x.toInt / width.toNat ≤ x / width.toNat ∧
        x / width.toNat ≤ r.x.toInt / width.toNat + r.width.toNat / width.toNat + 1) ∧
      r.y.toInt / height.toNat ≤ y / height.toNat ∧
        y / height.toNat ≤ r.y.toInt / height.toNat + r.height.toNat / height.toNat + 1)
    ⟨fun h => ⟨h.1.1, h.1.2, h.2.1, h.2.2⟩, fun h => ⟨⟨h.left, h.right⟩, h.top, h.bottom⟩⟩

end Rect

variable {ops : List Op}

/-- A new grid that was used, with the keys of its rectangles as its marks. -/
theorem useAll_new (hsize : SquareSize width height) (hfits : AllFit width height ops) :
    ∃ g, useAll (ofCellSize width height) ops = .ok g ∧ g.Regular ∧
      (∀ x y, g.square x y = x / width.toNat * rowStride + y / height.toNat) ∧
      ∀ k, k ∈ g.marks ↔ ∃ r ∈ rectsOf width height ops, r.Keys width height k := by
  rw [← hsize.cellWidth_eq, ← hsize.cellHeight_eq] at hfits
  obtain ⟨g, hg, hm⟩ := useAll_marks ops hsize.regular hfits
  rw [hsize.cellWidth_eq, hsize.cellHeight_eq] at hm
  refine ⟨g, hg, hm.regular hsize.regular, ?_, ?_⟩
  · intro x y
    rw [square, hm.cellWidth, hm.cellHeight, hsize.cellWidth_eq, hsize.cellHeight_eq]
  · intro k
    rw [hm.mem_iff]
    exact or_iff_right Std.HashSet.not_mem_empty

/-- Whatever rectangles were marked on a grid, and on the grids whose marks were added to it, and in
whatever order: a pixel is dirty exactly when one of the rectangles marked on squares of this size
reaches its square. So are all pixels of the rectangles themselves. -/
theorem isDirty_iff_reached (hsize : SquareSize width height) (hfits : AllFit width height ops) :
    ∃ g, useAll (ofCellSize width height) ops = .ok g ∧
      (∀ x y : Int32, 0 ≤ y.toInt → y.toInt / height.toNat ≤ 32767 →
        ∃ dirty, g.isDirty x y = .ok dirty ∧ (dirty = true ↔
          ∃ r ∈ rectsOf width height ops, r.Reaches width height x.toInt y.toInt)) ∧
      (∀ r ∈ rectsOf width height ops, ∀ x y : Int32, r.Holds x.toInt y.toInt →
        g.isDirty x y = .ok true) ∧
      ∀ ops' : List Op, ops'.Perm ops →
        ∃ g', useAll (ofCellSize width height) ops' = .ok g' ∧
          ∀ x y : Int32, g'.isDirty x y = g.isDirty x y := by
  obtain ⟨g, hg, hreg, hsquare, hmarks⟩ := useAll_new hsize hfits
  have hdirty {x y : Int32} (hy : 0 ≤ y.toInt) (hrow : y.toInt / height.toNat ≤ 32767) :
      g.square x.toInt y.toInt ∈ g.marks ↔
        ∃ r ∈ rectsOf width height ops, r.Reaches width height x.toInt y.toInt := by
    rw [hmarks, hsquare]
    apply exists_congr
    intro r
    apply and_congr_right
    intro hr
    exact (fits_of_mem_rectsOf hfits hr).keys_iff hsize hy hrow
  refine ⟨g, hg, ?_, ?_, ?_⟩
  · intro x y hy hrow
    exact ⟨_, isDirty_eq hreg, Std.HashSet.contains_iff_mem.trans (hdirty hy hrow)⟩
  · intro r hr x y hin
    have hreach := hin.reaches hsize
    have hfit := fits_of_mem_rectsOf hfits hr
    have hy : 0 ≤ y.toInt := Int.le_trans hfit.top hin.top
    have hrow := Int.le_trans hreach.bottom (hfit.lastRow_le hsize.height_pos)
    rw [isDirty_eq hreg, Std.HashSet.contains_iff_mem.2 ((hdirty hy hrow).2 ⟨r, hr, hreach⟩)]
  · intro ops' hperm
    obtain ⟨g', hg', hreg', hsquare', hmarks'⟩ := useAll_new hsize (hfits.perm hperm)
    refine ⟨g', hg', ?_⟩
    intro x y
    have hcontains (k : Int) : g'.marks.contains k = g.marks.contains k := by
      rw [Bool.eq_iff_iff, Std.HashSet.contains_iff_mem, Std.HashSet.contains_iff_mem, hmarks,
        hmarks']
      simp only [mem_rectsOf_perm hperm]
    rw [isDirty_eq hreg, isDirty_eq hreg', hsquare, hsquare', hcontains]

/-- Two rectangles that count, the second one without pixels, and one on a grid with other squares.
The first ends in the middle of a square and reaches the next one, but none after that. -/
theorem isDirty_iff_reached_three :
    ∃ g, useAll (ofCellSize 40 30) [.rect ⟨39, 29, 41, 31⟩, .absorb 40 30 [.rect ⟨800, 0, 0, 0⟩],
        .absorb 20 30 [.rect ⟨1200, 0, 8, 8⟩]] = .ok g ∧
      g.isDirty 119 89 = .ok true ∧ g.isDirty 120 89 = .ok false ∧
      g.isDirty 879 59 = .ok true ∧ g.isDirty 1200 0 = .ok false := by
  have hsize : SquareSize 40 30 := ⟨by decide, by decide, by decide, by decide⟩
  have hother : SquareSize 20 30 := ⟨by decide, by decide, by decide, by decide⟩
  have hfirst : Rect.Fits 40 30 ⟨39, 29, 41, 31⟩ := by constructor <;> decide
  have hsecond : Rect.Fits 40 30 ⟨800, 0, 0, 0⟩ := by constructor <;> decide
  have hthird : Rect.Fits 20 30 ⟨1200, 0, 8, 8⟩ := by constructor <;> decide
  let ops : List Op := [.rect ⟨39, 29, 41, 31⟩, .absorb 40 30 [.rect ⟨800, 0, 0, 0⟩],
    .absorb 20 30 [.rect ⟨1200, 0, 8, 8⟩]]
  have hfits : AllFit 40 30 ops :=
    ⟨hfirst, ⟨hsize, hsecond, trivial⟩, ⟨hother, hthird, trivial⟩, trivial⟩
  obtain ⟨g, hg, hread, -, -⟩ := isDirty_iff_reached hsize hfits
  have hpixel {x y : Int32} {b : Bool} (hy : 0 ≤ y.toInt ∧ y.toInt / (30 : UInt32).toNat ≤ 32767)
      (hb : decide (∃ r ∈ [(⟨39, 29, 41, 31⟩ : Rect), ⟨800, 0, 0, 0⟩],
        r.Reaches 40 30 x.toInt y.toInt) = b) : g.isDirty x y = .ok b := by
    obtain ⟨dirty, hdirty, hiff⟩ := hread x y hy.1 hy.2
    rw [hdirty, ← hb]
    exact congrArg Except.ok (Bool.eq_iff_iff.2 (hiff.trans decide_eq_true_iff.symm))
  refine ⟨g, hg, ?_, ?_, ?_, ?_⟩
  · exact hpixel (by decide) (by decide)
  · exact hpixel (by decide) (by decide)
  · exact hpixel (by decide) (by decide)
  · exact hpixel (by decide) (by decide)

end TileViewer.DirtyGrid
