import TileViewer.DirtyGrid
import TileViewer.Proofs.Exact

/-! Which squares a grid has marked. Marking a rectangle fails nowhere and loses no mark. -/
namespace TileViewer

namespace DirtyGrid

variable {g g' : DirtyGrid} {x y : Int32} {width height sprite : UInt32}

/-- A grid whose squares have an exact size that is not zero. -/
structure Regular (g : DirtyGrid) : Prop where
  width_pos : 0 < g.cellWidth.toNat
  width_lt : g.cellWidth.toNat < 2 ^ 31
  height_pos : 0 < g.cellHeight.toNat
  height_lt : g.cellHeight.toNat < 2 ^ 31

/-- The key of the square around a pixel. -/
def square (g : DirtyGrid) (x y : Int) : Int :=
  x / g.cellWidth.toNat * rowStride + y / g.cellHeight.toNat

/-- `g'` has squares of the same size as `g`. -/
structure SameSize (g g' : DirtyGrid) : Prop where
  cellWidth : g'.cellWidth = g.cellWidth
  cellHeight : g'.cellHeight = g.cellHeight

namespace SameSize

theorem refl (g : DirtyGrid) : SameSize g g := ⟨rfl, rfl⟩

theorem trans {g'' : DirtyGrid} (h : SameSize g g') (h' : SameSize g' g'') : SameSize g g'' :=
  ⟨h'.cellWidth.trans h.cellWidth, h'.cellHeight.trans h.cellHeight⟩

theorem regular (h : SameSize g g') (hg : g.Regular) : g'.Regular := by
  obtain ⟨hw, hh⟩ := h
  constructor <;> simp only [hw, hh, hg.width_pos, hg.width_lt, hg.height_pos, hg.height_lt]

theorem square_eq (h : SameSize g g') : g'.square = g.square := by
  funext x y
  rw [square, square, h.cellWidth, h.cellHeight]

end SameSize

/-- `g'` is `g` with the squares of `K` marked too. -/
structure Marks (g g' : DirtyGrid) (K : Int → Prop) : Prop extends SameSize g g' where
  mem_iff : ∀ k, k ∈ g'.marks ↔ k ∈ g.marks ∨ K k

namespace Marks

variable {g'' : DirtyGrid} {K L : Int → Prop}

theorem refl (g : DirtyGrid) : Marks g g (fun _ => False) := ⟨.refl g, fun _ => by rw [or_false]⟩

theorem trans (h : Marks g g' K) (h' : Marks g' g'' L) : Marks g g'' (fun k => K k ∨ L k) :=
  ⟨h.toSameSize.trans h'.toSameSize, fun k => by rw [h'.mem_iff, h.mem_iff, or_assoc]⟩

theorem congr (h : Marks g g' K) (hKL : ∀ k, K k ↔ L k) : Marks g g' L :=
  ⟨h.toSameSize, fun k => by rw [h.mem_iff, hKL]⟩

/-- A loop whose every turn marks some squares marks the squares of all turns. -/
theorem foldlM {α : Type} {f : DirtyGrid → α → Except Overflow DirtyGrid} {K : α → Int → Prop}
    {as : List α}
    (hf : ∀ h, SameSize g h → ∀ a ∈ as, ∃ h', f h a = .ok h' ∧ Marks h h' (K a)) :
    ∃ g', as.foldlM f g = .ok g' ∧ Marks g g' (fun k => ∃ a ∈ as, K a k) := by
  induction as generalizing g with
  | nil => exact ⟨g, rfl, (refl g).congr (by simp)⟩
  | cons a as ih =>
    obtain ⟨g₁, hg₁, h₁⟩ := hf g (.refl g) a List.mem_cons_self
    obtain ⟨g₂, hg₂, h₂⟩ := ih (g := g₁) fun h hs b hb =>
      hf h (h₁.toSameSize.trans hs) b (List.mem_cons_of_mem _ hb)
    refine ⟨g₂, ?_, (h₁.trans h₂).congr (by simp)⟩
    rw [List.foldlM_cons, hg₁]
    exact hg₂

end Marks

theorem quotient_eq_ok {n : UInt32} (hpos : 0 < n.toNat) (hn : n.toNat < 2 ^ 31) :
    ∃ z : Int32, Word.quotient x n.toInt32 = .ok z ∧ z.toInt = x.toInt / n.toNat := by
  have hlo := x.le_toInt
  have hhi := x.toInt_lt
  have h1 : -2 ^ 31 ≤ x.toInt / n.toNat := by
    rw [Int.le_ediv_iff_mul_le (by omega)]
    have : (2 ^ 31 : Int) * 1 ≤ 2 ^ 31 * n.toNat := Int.mul_le_mul_of_nonneg_left (by omega)
      (by decide)
    omega
  have h2 : x.toInt / n.toNat < 2 ^ 31 := by
    rw [Int.ediv_lt_iff_lt_mul (by omega)]
    have : (2 ^ 31 : Int) * 1 ≤ 2 ^ 31 * n.toNat := Int.mul_le_mul_of_nonneg_left (by omega)
      (by decide)
    omega
  have hz := Int32.toInt_ofInt_of_le h1 h2
  refine ⟨Int32.ofInt (x.toInt / n.toNat), Word.fit_eq_ok_iff.2 ?_, hz⟩
  simp only [Word.toInt, toInt_toInt32 hn]
  exact hz

/-- Division by a word stays in range, but for the lowest value over a divisor that reads as -1. -/
theorem gives_quotient {n : UInt32} (h : -2 ^ 31 < x.toInt ∨ n ≠ 0xFFFFFFFF) :
    Gives (Word.quotient x n.toInt32) fun _ => True := by
  have hlo := x.le_toInt
  have hhi := x.toInt_lt
  have hsize := Int.natAbs_ediv_le_natAbs x.toInt n.toInt32.toInt
  have hlow := n.toInt32.le_toInt
  have hdivisor : n.toInt32.toInt = -1 → n = 0xFFFFFFFF := by
    intro hminus
    have hword : n.toInt32 = -1 := Int32.toInt_inj.1 hminus
    exact congrArg Int32.toUInt32 hword
  -- A quotient of `2 ^ 31` has the lowest value over -1: the remainder leaves room for no other.
  have hne : x.toInt / n.toInt32.toInt ≠ 2 ^ 31 := by
    intro hquot
    have hzero : n.toInt32.toInt ≠ 0 := by
      intro hzero
      rw [hzero, Int.ediv_zero] at hquot
      omega
    have hdiv := Int.mul_ediv_add_emod x.toInt n.toInt32.toInt
    have hrem := Int.emod_lt x.toInt hzero
    have hpos := Int.emod_nonneg x.toInt hzero
    rw [hquot] at hdiv
    rcases h with hx | hn
    · omega
    · exact hn (hdivisor (by omega))
  refine ⟨_, if_pos ⟨?_, ?_⟩, trivial⟩
  · simp only [Word.toInt, Word.lo]
    omega
  · simp only [Word.toInt, Word.hi]
    omega

theorem keyOf_eq (hg : g.Regular) : g.keyOf x y = .ok (g.square x.toInt y.toInt) := by
  obtain ⟨column, hc, hcInt⟩ := quotient_eq_ok (x := x) hg.width_pos hg.width_lt
  obtain ⟨row, hr, hrInt⟩ := quotient_eq_ok (x := y) hg.height_pos hg.height_lt
  simp only [keyOf, hc, hr, bind, Except.bind, pure, Except.pure, packedKey, hcInt, hrInt, square]

theorem isDirty_eq (hg : g.Regular) :
    g.isDirty x y = .ok (g.marks.contains (g.square x.toInt y.toInt)) := by
  simp only [isDirty, keyOf_eq hg, bind, Except.bind, pure, Except.pure]

theorem markPixel_marks (hg : g.Regular) :
    ∃ g', g.markPixel x y = .ok g' ∧ Marks g g' (fun k => k = g.square x.toInt y.toInt) := by
  refine ⟨{ g with marks := g.marks.insert (g.square x.toInt y.toInt) }, ?_, ⟨rfl, rfl⟩, ?_⟩
  · simp only [markPixel, keyOf_eq hg, bind, Except.bind, pure, Except.pure]
  · intro k
    simp only [Std.HashSet.mem_insert, beq_iff_eq]
    rw [or_comm, eq_comm]

theorem markRect_marks (hg : g.Regular) (x y : Int32) (width height : UInt32) :
    ∃ g', g.markRect x y width height = .ok g' ∧
      Marks g g' (fun k => ∃ px ∈ samples x width g.cellWidth, ∃ py ∈ samples y height g.cellHeight,
        k = g.square px.toInt py.toInt) := by
  refine Marks.foldlM ?_
  intro h hs px _
  rw [hs.cellHeight]
  refine Marks.foldlM ?_
  intro h' hs' py _
  have hsame := hs.trans hs'
  rw [← hsame.square_eq]
  exact markPixel_marks (hsame.regular hg)

/-- Squares of the greatest width are so wide that no sample beyond the start lies far back. -/
theorem lowest_lt_sample {px : Int32} {extent : UInt32} (hx : 0 ≤ x.toInt)
    (hpx : px ∈ samples x extent 0xFFFFFFFF) : -2 ^ 31 < px.toInt := by
  obtain ⟨i, hi, rfl⟩ := List.mem_map.1 hpx
  have hextent := extent.toNat_lt
  have hhi := x.toInt_lt
  have hcell : (0xFFFFFFFF : UInt32).toNat = 4294967295 := rfl
  rw [hcell, List.mem_range] at hi
  have hfew : i = 0 ∨ i = 1 ∨ i = 2 := by omega
  rw [hcell, Int32.toInt_ofInt, Int.bmod, Int32.size]
  rcases hfew with rfl | rfl | rfl <;> split <;> omega

theorem gives_quotient_sample {px : Int32} {extent cell : UInt32}
    (hx : 0 ≤ x.toInt ∨ cell ≠ 0xFFFFFFFF) (hpx : px ∈ samples x extent cell) :
    Gives (Word.quotient px cell.toInt32) fun _ => True := by
  apply gives_quotient
  by_cases hcell : cell = 0xFFFFFFFF
  · subst hcell
    exact .inl (lowest_lt_sample (hx.resolve_right (absurd rfl)) hpx)
  · exact .inr hcell

/-- A rectangle that begins in the picture can be marked on any grid. -/
theorem gives_markRect (hx : 0 ≤ x.toInt ∨ g.cellWidth ≠ 0xFFFFFFFF)
    (hy : 0 ≤ y.toInt ∨ g.cellHeight ≠ 0xFFFFFFFF) (width height : UInt32) :
    Gives (g.markRect x y width height) g.SameSize := by
  refine Gives.foldlM (.refl g) ?_
  intro h hs px hpx
  refine Gives.foldlM hs ?_
  intro h' hs' py hpy
  rw [hs.cellHeight] at hpy
  obtain ⟨column, hcolumn, -⟩ := gives_quotient_sample hx hpx
  obtain ⟨row, hrow, -⟩ := gives_quotient_sample hy hpy
  rw [← hs'.cellWidth] at hcolumn
  rw [← hs'.cellHeight] at hrow
  simp only [markPixel, keyOf, hcolumn, hrow, bind, Except.bind, pure, Except.pure]
  exact .ok ⟨hs'.cellWidth, hs'.cellHeight⟩

theorem insertMany_toList (m l : Std.HashSet Int) : m.insertMany l = m.insertMany l.toList := by
  have h : ∀ r : Std.DHashMap.Internal.Raw₀ Int (fun _ => Unit),
      Std.DHashMap.Internal.Raw₀.Const.insertManyIfNewUnit r l =
        Std.DHashMap.Internal.Raw₀.Const.insertManyIfNewUnit r l.toList := by
    intro r
    unfold Std.DHashMap.Internal.Raw₀.Const.insertManyIfNewUnit
    simp only [Std.HashSet.forIn_eq_forIn_toList]
  unfold Std.HashSet.insertMany Std.HashMap.insertManyIfNewUnit
    Std.DHashMap.Const.insertManyIfNewUnit
  simp only [h]

theorem absorb_marks (h : SameSize g g') : Marks g (g.absorb g') (· ∈ g'.marks) := by
  rw [absorb, if_pos ⟨h.cellWidth, h.cellHeight⟩]
  refine ⟨⟨rfl, rfl⟩, ?_⟩
  intro k
  rw [insertMany_toList, Std.HashSet.mem_insertMany_list, List.contains_iff_mem,
    Std.HashSet.mem_toList]

/-- A grid whose squares are five sprites wide and high. -/
structure ForSprite (sprite : UInt32) (g : DirtyGrid) : Prop where
  width_eq : g.cellWidth.toNat = 5 * sprite.toNat
  height_eq : g.cellHeight.toNat = 5 * sprite.toNat

theorem ForSprite.regular (h : g.ForSprite sprite) (hpos : 0 < sprite.toNat)
    (hlt : 5 * sprite.toNat < 2 ^ 31) : g.Regular := by
  obtain ⟨hw, hh⟩ := h
  constructor <;> omega

theorem ForSprite.sameSize (h : g.ForSprite sprite) (hs : SameSize g g') : g'.ForSprite sprite :=
  ⟨hs.cellWidth ▸ h.width_eq, hs.cellHeight ▸ h.height_eq⟩

/-- The sprites decide how large the squares are. -/
theorem ForSprite.agree (h : g.ForSprite sprite) (h' : g'.ForSprite sprite) : SameSize g g' :=
  ⟨UInt32.toNat_inj.1 (h'.width_eq.trans h.width_eq.symm),
    UInt32.toNat_inj.1 (h'.height_eq.trans h.height_eq.symm)⟩

/-- The key of the square around the cell in column `c` and row `r` of a window. -/
def cellKey (c r : Nat) : Int := (c / 5 : Nat) * rowStride + (r / 5 : Nat)

theorem ForSprite.square_cell (h : g.ForSprite sprite) (hpos : 0 < sprite.toNat) (c r : Nat) :
    g.square (c * sprite.toNat : Nat) (r * sprite.toNat : Nat) = cellKey c r := by
  rw [square, h.width_eq, h.height_eq, ← Int.natCast_ediv, ← Int.natCast_ediv,
    Nat.mul_div_mul_right _ _ hpos, Nat.mul_div_mul_right _ _ hpos, cellKey]

/-- The square around a cell is dirty if its key is marked. -/
theorem ForSprite.isDirty_cell (h : g.ForSprite sprite) (hpos : 0 < sprite.toNat)
    (hlt : 5 * sprite.toNat < 2 ^ 31) {c r : Nat} (hc : c * sprite.toNat < 2 ^ 31)
    (hr : r * sprite.toNat < 2 ^ 31) :
    g.isDirty (Int32.ofNat (c * sprite.toNat)) (Int32.ofNat (r * sprite.toNat)) =
      .ok (g.marks.contains (cellKey c r)) := by
  rw [isDirty_eq (h.regular hpos hlt), Int32.toInt_ofNat_of_lt hc, Int32.toInt_ofNat_of_lt hr,
    h.square_cell hpos]

theorem exists_ofSprite (hpos : 0 < sprite.toNat) (hlt : 5 * sprite.toNat < 2 ^ 32) :
    ∃ g, ofSprite sprite = .ok g := by
  obtain ⟨side, hside, -⟩ := gives_times_nat (m := sprite) (n := spritesPerCell)
    (by simpa only [spritesPerCell, UInt32.reduceToNat, Nat.mul_comm] using hlt)
  rw [ofSprite, max_one hpos, hside]
  exact ⟨_, rfl⟩

theorem ofSprite_forSprite (hpos : 0 < sprite.toNat) (h : ofSprite sprite = .ok g) :
    g.ForSprite sprite := by
  obtain ⟨side, hside, h⟩ := bind_eq_ok h
  cases h
  have hval := Word.fit_eq_ok_iff.1 hside
  simp only [Word.toInt, max_one hpos, spritesPerCell, UInt32.reduceToNat] at hval
  rw [ofCellSize, max_one (by omega)]
  constructor <;> simp only <;> omega

/-- A sample lies as many squares on as its place among the samples says. -/
theorem sample_div {cell : UInt32} {i : Nat} (hpos : 0 < cell.toNat) (hx : 0 ≤ x.toInt)
    (hlt : x.toInt + (i * cell.toNat : Nat) < 2 ^ 31) :
    (Int32.ofInt (x.toInt + (i * cell.toNat : Nat))).toInt / cell.toNat =
      x.toInt / cell.toNat + i := by
  rw [Int32.toInt_ofInt_of_le (by omega) hlt, Int.natCast_mul,
    Int.add_mul_ediv_right _ _ (by omega)]

/-- The samples of an extent hit every square from the first to one past the whole squares that
fit into the extent, and no other. -/
theorem exists_sample_iff {cell extent : UInt32} {k : Int} (hpos : 0 < cell.toNat)
    (hx : 0 ≤ x.toInt) (hend : x.toInt + extent.toNat + cell.toNat < 2 ^ 31) :
    (∃ px ∈ samples x extent cell, px.toInt / cell.toNat = k) ↔
      x.toInt / cell.toNat ≤ k ∧ k ≤ x.toInt / cell.toNat + extent.toNat / cell.toNat + 1 := by
  have hlast {i : Nat} (hi : i < extent.toNat / cell.toNat + 2) :
      x.toInt + (i * cell.toNat : Nat) < 2 ^ 31 := by
    have hle : i * cell.toNat ≤ (extent.toNat / cell.toNat + 1) * cell.toNat :=
      Nat.mul_le_mul_right _ (Nat.le_of_lt_succ hi)
    have hwhole := Nat.div_mul_le_self extent.toNat cell.toNat
    rw [Nat.add_mul, Nat.one_mul] at hle
    omega
  constructor
  · rintro ⟨px, hpx, rfl⟩
    obtain ⟨i, hi, rfl⟩ := List.mem_map.1 hpx
    rw [List.mem_range] at hi
    rw [sample_div hpos hx (hlast hi)]
    omega
  · rintro ⟨hlow, hhigh⟩
    obtain ⟨i, hi⟩ := Int.eq_ofNat_of_zero_le (Int.sub_nonneg_of_le hlow)
    have hlt : i < extent.toNat / cell.toNat + 2 := by
      rw [← Int.natCast_ediv] at hhigh
      omega
    refine ⟨_, List.mem_map_of_mem (List.mem_range.2 hlt), ?_⟩
    rw [sample_div hpos hx (hlast hlt)]
    omega

/-- A rectangle that begins with sprite `first` and is `n` sprites wide has a sample in the square
of each of its sprites. -/
theorem exists_sample {cell extent : UInt32} {first n c : Nat} (hpos : 0 < sprite.toNat)
    (hcell : cell.toNat = 5 * sprite.toNat) (hx : x.toInt = (first * sprite.toNat : Nat))
    (hextent : extent.toNat = n * sprite.toNat) (hc : first ≤ c) (hlt : c < first + n)
    (hend : (c / 5 + 1) * (5 * sprite.toNat) ≤ 2 ^ 31) :
    ∃ px ∈ samples x extent cell, px.toInt / cell.toNat = (c / 5 : Nat) := by
  -- The sample as many squares on as there are between the two sprites.
  let i := c / 5 - first / 5
  have hquot : extent.toNat / cell.toNat = n / 5 := by
    rw [hextent, hcell, Nat.mul_div_mul_right _ _ hpos]
  have hvalue : x.toInt + (i * cell.toNat : Nat) = ((first + 5 * i) * sprite.toNat : Nat) := by
    rw [hx, hcell, ← Int.natCast_add, Nat.add_mul, Nat.mul_left_comm, Nat.mul_assoc]
  have hbound : (first + 5 * i) * sprite.toNat < 2 ^ 31 := by
    refine Nat.lt_of_lt_of_le ?_ hend
    rw [← Nat.mul_assoc]
    exact Nat.mul_lt_mul_of_pos_right (by omega) hpos
  have hi : i < extent.toNat / cell.toNat + 2 := by omega
  refine ⟨_, List.mem_map_of_mem (List.mem_range.2 hi), ?_⟩
  rw [sample_div (by omega) (by omega) (by omega), hx, hcell, ← Int.natCast_ediv,
    Nat.mul_div_mul_right _ _ hpos]
  omega

end DirtyGrid

end TileViewer
