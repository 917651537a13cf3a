import TileViewer.Proofs.Terminal.Labels

/-!
A text that is written on a grid, cell by cell. It fills its row up to its own end or the right edge
and changes no other cell. A text of any length ends at the edge: the loop over its characters is
left before a place is too large for a word.
-/
namespace TileViewer

namespace CellGrid

variable {g : CellGrid} {x y : UInt16}

theorem size_putText (g : CellGrid) (x y : UInt16) (text : String) (fg : Rgb) (bg : Option Rgb) :
    (g.putText x y text fg bg).width = g.width ∧ (g.putText x y text fg bg).height = g.height :=
  size_putChars x y fg bg 0 text.toList g

/-- What comes after the characters that reach the right edge has no part in the line. -/
theorem putChars_append (fg : Rgb) (bg : Option Rgb) {i : Nat} (hi : i < UInt16.size)
    (cs beyond : List Char) (hedge : g.width.toNat ≤ x.toNat + i + cs.length) :
    putChars x y fg bg i (cs ++ beyond) g = putChars x y fg bg i cs g := by
  induction cs generalizing i g with
  | nil =>
    rw [List.length_nil] at hedge
    exact putChars_of_out hi fg bg beyond (by omega)
  | cons c cs ih =>
    by_cases hin : x.toNat + i < g.width.toNat ∧ y < g.height
    · obtain ⟨column, under, hcolumn, hunder, hputs⟩ := putChars_cons fg bg c cs hin.1 hin.2
      obtain ⟨column', under', hcolumn', hunder', hputs'⟩ :=
        putChars_cons fg bg c (cs ++ beyond) hin.1 hin.2
      obtain rfl : column = column' := UInt16.toNat_inj.1 (hcolumn.trans hcolumn'.symm)
      cases hunder.symm.trans hunder'
      -- Both lines write the same cell, and the next place is still a word.
      have hw := (g.size_set column y ⟨c, fg, bg.getD under.bg⟩).1
      rw [List.length_cons] at hedge
      rw [List.cons_append, hputs, hputs', ih (succ_lt_size hin.1) (by rw [hw]; omega)]
    · rw [putChars_of_out hi fg bg _ hin, putChars_of_out hi fg bg _ hin]

theorem get?_putText_of_char {text : String} {fg : Rgb} {bg : Option Rgb} {column : UInt16}
    {i : Nat} {c : Char} {under : Cell} (hcolumn : column.toNat = x.toNat + i)
    (hc : text.toList[i]? = some c) (hunder : g.get? column y = some under) :
    (g.putText x y text fg bg).get? column y = some ⟨c, fg, bg.getD under.bg⟩ := by
  have hline : lineAt text.toList x.toNat column.toNat = some c :=
    lineAt_eq_some_iff.2 ⟨i, hcolumn, hc⟩
  obtain ⟨hcolumnLt, hyLt⟩ := lt_of_get? hunder
  rw [putText, get?_putChars x y fg bg (by decide) _ hcolumnLt hyLt, if_pos rfl, Nat.add_zero,
    hline, hunder]
  rfl

theorem get?_putText_of_no_char {text : String} {fg : Rgb} {bg : Option Rgb} {x' y' : UInt16}
    (hnone : ∀ i < text.length, x'.toNat = x.toNat + i → y' = y → ¬ (x' < g.width ∧ y < g.height)) :
    (g.putText x y text fg bg).get? x' y' = g.get? x' y' := by
  obtain ⟨hw, hh⟩ := g.size_putText x y text fg bg
  by_cases hin : x' < g.width ∧ y' < g.height
  · have hline : (if y' = y then lineAt text.toList x.toNat x'.toNat else none) = none := by
      split
      · next hy =>
        rw [Option.eq_none_iff_forall_ne_some]
        intro c hc
        obtain ⟨i, hcolumn, hchar⟩ := lineAt_eq_some_iff.1 hc
        have hi := (List.getElem?_eq_some_iff.1 hchar).1
        rw [String.length_toList] at hi
        exact hnone i hi hcolumn hy ⟨hin.1, hy ▸ hin.2⟩
      · rfl
    rw [putText, get?_putChars x y fg bg (by decide) _ hin.1 hin.2, Nat.add_zero, hline]
    exact Option.map_id_apply
  · rw [get?_eq_none hin, get?_eq_none (by rwa [hw, hh])]

/-- Where a text changes a grid: from its first cell on, as many cells as the text has characters
and the row has columns left, each with its own character, in the given colour and on the given
background or the one that was there. No other cell changes, and no character behind the right
edge has any effect, however many there are. -/
theorem putText_clipped (g : CellGrid) (x y : UInt16) (text : String) (fg : Rgb) (bg : Option Rgb) :
    let shown := g.putText x y text fg bg
    let count := min text.length (g.width.toNat - x.toNat)
    (shown.width = g.width ∧ shown.height = g.height) ∧
    (x < g.width → y < g.height → ∀ i < count, (x + i.toUInt16).toNat = x.toNat + i ∧
      ∃ c under, text.toList[i]? = some c ∧ g.get? (x + i.toUInt16) y = some under ∧
        shown.get? (x + i.toUInt16) y = some ⟨c, fg, bg.getD under.bg⟩) ∧
    (∀ x' y', ¬ (x < g.width ∧ y < g.height ∧ y' = y ∧ ∃ i < count, x'.toNat = x.toNat + i) →
      shown.get? x' y' = g.get? x' y') ∧
    ∀ beyond : String, g.width.toNat - x.toNat ≤ text.length →
      g.putText x y (text ++ beyond) fg bg = shown := by
  intro shown count
  refine ⟨g.size_putText x y text fg bg, ?_, ?_, ?_⟩
  · intro _ hy i hi
    have hwidth := g.width.toNat_lt
    have hcolumn : (x + i.toUInt16).toNat = x.toNat + i := by
      rw [UInt16.toNat_add, toNat_toUInt16 (n := g.width) (by omega)]
      omega
    obtain ⟨under, hunder⟩ := exists_cell (g := g) (x := x + i.toUInt16) (y := y)
      (UInt16.lt_iff_toNat_lt.2 (by omega)) hy
    have hlt : i < text.toList.length := by
      rw [String.length_toList]
      omega
    have hc := List.getElem?_eq_getElem hlt
    exact ⟨hcolumn, _, under, hc, hunder, get?_putText_of_char hcolumn hc hunder⟩
  · intro x' y' hout
    refine get?_putText_of_no_char fun i hi hcolumn hrow hin => hout ?_
    have hx' := UInt16.lt_iff_toNat_lt.1 hin.1
    exact ⟨UInt16.lt_iff_toNat_lt.2 (by omega), hin.2, hrow, i, by omega, hcolumn⟩
  · intro beyond hedge
    have hlength : g.width.toNat ≤ x.toNat + 0 + text.toList.length := by
      rw [String.length_toList]
      omega
    rw [putText, String.toList_append]
    exact putChars_append fg bg (by decide) _ _ hlength

/-- A text of more characters than a word has values. The last one, whose place is that of the
first as a word, is written nowhere. -/
theorem putText_clipped_long :
    let red : Rgb := ⟨255, 0, 0⟩
    let g := (blank 3 1).set 1 0 ⟨' ', red, red⟩
    let text := String.ofList (List.replicate 65536 'a' ++ ['b'])
    let shown := g.putText 1 0 text ⟨1, 2, 3⟩ none
    ((1 : UInt16) < g.width ∧ (0 : UInt16) < g.height ∧ text.length = 65537) ∧
      shown.get? 1 0 = some ⟨'a', ⟨1, 2, 3⟩, red⟩ ∧
      shown.get? 2 0 = some ⟨'a', ⟨1, 2, 3⟩, ⟨0, 0, 0⟩⟩ ∧
      shown.get? 0 0 = some Cell.blank := by
  intro red g text shown
  have hlength : text.length = 65537 := by
    rw [← String.length_toList, String.toList_ofList, List.length_append, List.length_replicate]
    rfl
  have hchar (i : Nat) (hi : i < 2) : text.toList[i]? = some 'a' := by
    rw [String.toList_ofList, List.getElem?_append_left (by rw [List.length_replicate]; omega),
      List.getElem?_replicate_of_lt (by omega)]
  have hx : (1 : UInt16) < g.width := by decide
  have hy : (0 : UInt16) < g.height := by decide
  obtain ⟨-, hwritten, hkept, -⟩ := putText_clipped g 1 0 text ⟨1, 2, 3⟩ none
  have hcount : min text.length (g.width.toNat - (1 : UInt16).toNat) = 2 := by
    rw [hlength]
    decide
  rw [hcount] at hwritten hkept
  have hcell (i : Nat) (hi : i < 2) (under : Cell)
      (hunder : g.get? (1 + i.toUInt16) 0 = some under) :
      shown.get? (1 + i.toUInt16) 0 = some ⟨'a', ⟨1, 2, 3⟩, under.bg⟩ := by
    obtain ⟨-, c, under', hc, hunder', hshown⟩ := hwritten hx hy i hi
    cases (hchar i hi).symm.trans hc
    cases hunder.symm.trans hunder'
    exact hshown
  refine ⟨⟨hx, hy, hlength⟩, hcell 0 (by decide) ⟨' ', red, red⟩ (by decide),
    hcell 1 (by decide) Cell.blank (by decide), ?_⟩
  refine (hkept 0 0 ?_).trans (by decide)
  rintro ⟨-, -, -, i, -, hi⟩
  exact absurd hi (by simp; omega)

end CellGrid

end TileViewer
