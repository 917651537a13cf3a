import TileViewer.Proofs.Terminal.Shown

/-!
The text on a grid. A place shows the last label that reaches it, one character after the other,
and where no label reaches it a half block.
-/
namespace TileViewer

/-- The character in column `x` of a line of text that begins in column `start`. -/
def lineAt (cs : List Char) (start x : Nat) : Option Char :=
  if start ≤ x then cs[x - start]? else none

theorem lineAt_cons (c : Char) (cs : List Char) (start x : Nat) :
    lineAt (c :: cs) start x = if x = start then some c else lineAt cs (start + 1) x := by
  unfold lineAt
  rcases Nat.lt_trichotomy x start with hlt | rfl | hgt
  · rw [if_neg (by omega), if_neg (by omega), if_neg (by omega)]
  · rw [if_pos (Nat.le_refl _), if_pos rfl, Nat.sub_self, List.getElem?_cons_zero]
  · have hsub : x - start = x - (start + 1) + 1 := by omega
    rw [if_pos (by omega), if_neg (by omega), if_pos (by omega), hsub, List.getElem?_cons_succ]

theorem lineAt_eq_some_iff {cs : List Char} {start x : Nat} {c : Char} :
    lineAt cs start x = some c ↔ ∃ i, x = start + i ∧ cs[i]? = some c := by
  unfold lineAt
  constructor
  · intro h
    split at h
    · next hle => exact ⟨x - start, by omega, h⟩
    · cases h
  · rintro ⟨i, rfl, hc⟩
    rwa [if_pos (Nat.le_add_right _ _), Nat.add_sub_cancel_left]

/-- The character that a label puts at a place of a grid on which `s` is shown. -/
def Label.charAt (l : Label) (s : Surface) (width height : UInt16) (x y : Nat) : Option Char :=
  let column := l.x.toInt.toNat * width.toNat / s.width.toNat
  let row := l.y.toInt.toNat * height.toNat / s.height.toNat
  if 0 ≤ l.x ∧ 0 ≤ l.y ∧ y = row then lineAt l.text.toList column x else none

/-- The character of the last label that reaches a place. -/
def Surface.textAt (s : Surface) (width height : UInt16) (x y : Nat) : Option Char :=
  if s.width = 0 ∨ s.height = 0 then none
  else s.labels.toList.reverse.findSome? fun l => l.charAt s width height x y

namespace CellGrid

variable {g : CellGrid} {x y : UInt16}

/-- The character at a place. -/
def charAt (g : CellGrid) (x y : UInt16) : Option Char := (g.get? x y).map Cell.char

theorem get?_eq_none (h : ¬ (x < g.width ∧ y < g.height)) : g.get? x y = none := if_neg h

theorem lt_of_get? {c : Cell} (h : g.get? x y = some c) : x < g.width ∧ y < g.height := by
  by_cases hin : x < g.width ∧ y < g.height
  · exact hin
  · rw [get?_eq_none hin] at h
    cases h

/-- Two places of a grid do not share a place in the row by row order. -/
theorem place_injective {width x y x' y' : Nat} (hx : x < width) (hx' : x' < width)
    (h : y * width + x = y' * width + x') : x = x' ∧ y = y' := by
  have hcolumn := congrArg (· % width) h
  have hrow := congrArg (· / width) h
  simp only [Nat.mul_comm _ width, Nat.mul_add_mod, Nat.mod_eq_of_lt hx,
    Nat.mod_eq_of_lt hx'] at hcolumn
  simp only [Nat.mul_comm _ width, Nat.mul_add_div (Nat.zero_lt_of_lt hx), Nat.div_eq_of_lt hx,
    Nat.div_eq_of_lt hx', Nat.add_zero] at hrow
  exact ⟨hcolumn, hrow⟩

theorem get?_set (hx : x < g.width) (hy : y < g.height) (x' y' : UInt16) (c : Cell) :
    (g.set x y c).get? x' y' = if x' = x ∧ y' = y then some c else g.get? x' y' := by
  have hxNat := UInt16.lt_iff_toNat_lt.1 hx
  have hyNat := UInt16.lt_iff_toNat_lt.1 hy
  by_cases hsame : x' = x ∧ y' = y
  · obtain ⟨rfl, rfl⟩ := hsame
    have hlt := place_lt hxNat hyNat
    rw [← g.size_eq] at hlt
    rw [if_pos ⟨rfl, rfl⟩]
    simp only [get?, set, hx, hy, and_self, if_true, Array.getElem?_setIfInBounds_self_of_lt hlt]
  · rw [if_neg hsame]
    by_cases hin : x' < g.width ∧ y' < g.height
    · have hne : y.toNat * g.width.toNat + x.toNat ≠ y'.toNat * g.width.toNat + x'.toNat := by
        intro heq
        obtain ⟨hcolumn, hrow⟩ := place_injective hxNat (UInt16.lt_iff_toNat_lt.1 hin.1) heq
        exact hsame ⟨UInt16.toNat_inj.1 hcolumn.symm, UInt16.toNat_inj.1 hrow.symm⟩
      simp only [get?, set, hx, hy, hin, and_self, if_true, Array.getElem?_setIfInBounds_ne hne]
    · obtain ⟨hw, hh⟩ := g.size_set x y c
      rw [get?_eq_none hin, get?_eq_none (by rwa [hw, hh])]

/-- A line of text that has left the grid writes no more. -/
theorem putChars_of_out {i : Nat} (hi : i < UInt16.size) (fg : Rgb) (bg : Option Rgb)
    (cs : List Char) (hout : ¬ (x.toNat + i < g.width.toNat ∧ y < g.height)) :
    putChars x y fg bg i cs g = g := by
  have hiNat : i.toUInt16.toNat = i := UInt16.toNat_ofNat_of_lt' hi
  cases cs with
  | nil => rfl
  | cons c cs =>
    rw [putChars]
    split
    · rfl
    · next column hplus =>
      have hcolumn := Word.fit_eq_ok_iff.1 hplus
      simp only [Word.toInt, hiNat] at hcolumn
      split
      · rfl
      · next hedge =>
        rw [UInt16.not_le, UInt16.lt_iff_toNat_lt] at hedge
        rw [get?_eq_none fun h => hout ⟨by omega, h.2⟩]

/-- Behind a place of a line that is inside the grid the next one is still a word. -/
theorem succ_lt_size {i : Nat} (hx : x.toNat + i < g.width.toNat) : i + 1 < UInt16.size := by
  have hwidth := g.width.toNat_lt
  exact Nat.lt_of_le_of_lt (by omega) hwidth

/-- A character inside the grid is written, and the line goes on behind it. -/
theorem putChars_cons {i : Nat} (fg : Rgb) (bg : Option Rgb) (c : Char) (cs : List Char)
    (hx : x.toNat + i < g.width.toNat) (hy : y < g.height) :
    ∃ column under, column.toNat = x.toNat + i ∧ g.get? column y = some under ∧
      putChars x y fg bg i (c :: cs) g =
        putChars x y fg bg (i + 1) cs (g.set column y ⟨c, fg, bg.getD under.bg⟩) := by
  have hiNat : i.toUInt16.toNat = i :=
    UInt16.toNat_ofNat_of_lt' (Nat.lt_of_succ_lt (succ_lt_size hx))
  have hNat : (x.toNat + i).toUInt16.toNat = x.toNat + i := toNat_toUInt16 (Nat.le_of_lt hx)
  have hplus : (Word.plus x i.toUInt16 : Except Overflow UInt16) = .ok (x.toNat + i).toUInt16 := by
    refine Word.fit_eq_ok_iff.2 ?_
    simp only [Word.toInt, hiNat, hNat]
    exact Int.natCast_add _ _
  have hcolumn : (x.toNat + i).toUInt16 < g.width := UInt16.lt_iff_toNat_lt.2 (by rwa [hNat])
  obtain ⟨under, hunder⟩ := exists_cell hcolumn hy
  refine ⟨_, under, hNat, hunder, ?_⟩
  rw [putChars, hplus]
  dsimp only
  rw [if_neg (UInt16.not_le.2 hcolumn), hunder]

/-- A line of text, written from its place `i` on. It never reaches past the last column, so the
place is a word of 16 bits. -/
theorem get?_putChars (x y : UInt16) (fg : Rgb) (bg : Option Rgb) {i : Nat} (hi : i < UInt16.size)
    (cs : List Char) {g : CellGrid} {x' y' : UInt16} (hx' : x' < g.width) (hy' : y' < g.height) :
    (putChars x y fg bg i cs g).get? x' y' = (g.get? x' y').map fun under =>
      (if y' = y then lineAt cs (x.toNat + i) x'.toNat else none).elim under fun c =>
        ⟨c, fg, bg.getD under.bg⟩ := by
  induction cs generalizing i g with
  | nil =>
    have hnil : lineAt [] (x.toNat + i) x'.toNat = none := by simp [lineAt]
    rw [putChars, hnil, ite_self]
    exact Option.map_id_apply.symm
  | cons c cs ih =>
    have hx'Nat := UInt16.lt_iff_toNat_lt.1 hx'
    by_cases hin : x.toNat + i < g.width.toNat ∧ y < g.height
    · obtain ⟨column, under, hcolumn, hunder, hputs⟩ := putChars_cons fg bg c cs hin.1 hin.2
      obtain ⟨hw, hh⟩ := g.size_set column y ⟨c, fg, bg.getD under.bg⟩
      have hlt : column < g.width := UInt16.lt_iff_toNat_lt.2 (hcolumn ▸ hin.1)
      have hhere : x' = column ↔ x'.toNat = x.toNat + i := by rw [← UInt16.toNat_inj, hcolumn]
      rw [hputs, ih (succ_lt_size hin.1) (hw ▸ hx') (hh ▸ hy'), get?_set hlt hin.2, lineAt_cons,
        Nat.add_assoc]
      by_cases hplace : x' = column ∧ y' = y
      · obtain ⟨hx, hy⟩ := hplace
        have hbehind : lineAt cs (x.toNat + (i + 1)) x'.toNat = none :=
          if_neg (Nat.not_le.2 (by rw [hhere.1 hx]; exact Nat.lt_succ_self _))
        rw [if_pos hy, if_pos hy, if_pos ⟨hx, hy⟩, if_pos (hhere.1 hx), hbehind, hx, hy, hunder]
        rfl
      · rw [if_neg hplace]
        by_cases hy : y' = y
        · rw [if_pos hy, if_pos hy, if_neg fun hx => hplace ⟨hhere.2 hx, hy⟩]
        · rw [if_neg hy, if_neg hy]
    · rw [putChars_of_out hi fg bg _ hin]
      have hnone : (if y' = y then lineAt (c :: cs) (x.toNat + i) x'.toNat else none) = none := by
        split
        · next hy =>
          have hpast : ¬ x.toNat + i < g.width.toNat := fun h => hin ⟨h, hy ▸ hy'⟩
          exact if_neg (by omega)
        · rfl
      rw [hnone]
      exact Option.map_id_apply.symm

theorem charAt_putChars (x y : UInt16) (fg : Rgb) (bg : Option Rgb) {i : Nat} (hi : i < UInt16.size)
    (cs : List Char) {x' y' : UInt16} (hx' : x' < g.width) (hy' : y' < g.height) :
    (putChars x y fg bg i cs g).charAt x' y' =
      (if y' = y then lineAt cs (x.toNat + i) x'.toNat else none).or (g.charAt x' y') := by
  obtain ⟨under, hunder⟩ := exists_cell hx' hy'
  rw [charAt, get?_putChars x y fg bg hi cs hx' hy', charAt, hunder]
  cases (if y' = y then lineAt cs (x.toNat + i) x'.toNat else none) <;> rfl

theorem charAt_putLabel (s : Surface) (l : Label) (hx : x < g.width) (hy : y < g.height) :
    (putLabel s g l).charAt x y =
      (l.charAt s g.width g.height x.toNat y.toNat).or (g.charAt x y) := by
  have hxNat := UInt16.lt_iff_toNat_lt.1 hx
  have hyNat := UInt16.lt_iff_toNat_lt.1 hy
  unfold putLabel Label.charAt
  split
  · next hoff =>
    rw [if_neg (fun h => hoff.elim (Int32.not_lt.2 h.1) (Int32.not_lt.2 h.2.1)), Option.none_or]
  · next hon =>
    rw [not_or, Int32.not_lt, Int32.not_lt] at hon
    dsimp only
    generalize hcolumn : l.x.toInt.toNat * g.width.toNat / s.width.toNat = column
    generalize hrow : l.y.toInt.toNat * g.height.toNat / s.height.toNat = row
    split
    · next hout =>
      have hnone : (if 0 ≤ l.x ∧ 0 ≤ l.y ∧ y.toNat = row then
          lineAt l.text.toList column x.toNat else none) = none := by
        rcases hout with hout | hout
        · rw [lineAt, if_neg (Nat.not_le.2 (Nat.lt_of_lt_of_le hxNat hout)), ite_self]
        · exact if_neg fun h => absurd h.2.2 (by omega)
      rw [hnone, Option.none_or]
    · next hin =>
      rw [not_or, Nat.not_le, Nat.not_le] at hin
      have hcolumnNat := toNat_toUInt16 (Nat.le_of_lt hin.1)
      have hrowNat := toNat_toUInt16 (Nat.le_of_lt hin.2)
      have hrow' : y = row.toUInt16 ↔ y.toNat = row := by rw [← UInt16.toNat_inj, hrowNat]
      rw [putText, charAt_putChars _ _ _ _ (by decide) _ hx hy, hcolumnNat, Nat.add_zero]
      simp only [hrow', hon, true_and]

theorem charAt_foldl_putLabel (s : Surface) (labels : List Label) (hx : x < g.width)
    (hy : y < g.height) : (labels.foldl (putLabel s) g).charAt x y =
      (labels.reverse.findSome? fun l => l.charAt s g.width g.height x.toNat y.toNat).or
        (g.charAt x y) := by
  induction labels generalizing g with
  | nil => rfl
  | cons l labels ih =>
    obtain ⟨hw, hh⟩ := size_putLabel s g l
    rw [List.foldl_cons, ih (hw ▸ hx) (hh ▸ hy), charAt_putLabel s l hx hy, hw, hh,
      List.reverse_cons, List.findSome?_append, List.findSome?_singleton, Option.or_assoc]

/-- A place shows the text that reaches it, and otherwise a half block. -/
theorem charAt_showSurface (g : CellGrid) (s : Surface) (hx : x < g.width) (hy : y < g.height) :
    (g.showSurface s).charAt x y =
      some ((s.textAt g.width g.height x.toNat y.toNat).getD halfBlock) := by
  unfold showSurface Surface.textAt
  dsimp only
  split
  · rw [charAt, get?_ofFn, if_pos ⟨hx, hy⟩]
    rfl
  · rw [← Array.foldl_toList, charAt_foldl_putLabel s _ (by exact hx) (by exact hy), charAt,
      get?_ofFn, if_pos ⟨hx, hy⟩]
    exact Option.or_some

end CellGrid

end TileViewer
