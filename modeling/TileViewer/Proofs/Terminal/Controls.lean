import TileViewer.Painter.Overlay
import TileViewer.Proofs.Terminal.Labels

/-!
Which characters a surface sends to a terminal. A control character of a label is printed like any
other character, and only labels print control characters.
-/
namespace TileViewer

/-- The control characters. -/
def isControl (c : Char) : Bool := c < ' ' || ('\x7f' ≤ c && c ≤ '\u009f')

namespace TermCommand

def isPrint : TermCommand → Bool
  | print _ => true
  | _ => false

/-- The text of the commands has more of `c` than their control sequences have. -/
def Stray (c : Char) (cs : Array TermCommand) : Prop :=
  (renderAll (cs.filter fun command => !command.isPrint)).toList.count c <
    (renderAll cs).toList.count c

theorem toList_renderAll (cs : Array TermCommand) :
    (renderAll cs).toList = cs.toList.flatMap fun command => command.render.toList := by
  have happend (text : String) (commands : List TermCommand) :
      (commands.foldl (fun text command => text ++ command.render) text).toList =
        text.toList ++ commands.flatMap fun command => command.render.toList := by
    induction commands generalizing text with
    | nil => rw [List.foldl_nil, List.flatMap_nil, List.append_nil]
    | cons command commands ih =>
      rw [List.foldl_cons, ih, String.toList_append, List.flatMap_cons, List.append_assoc]
  rw [renderAll, ← Array.foldl_toList, happend]
  rfl

theorem stray_iff {c : Char} {cs : Array TermCommand} : Stray c cs ↔ .print c ∈ cs := by
  have hcount (commands : List TermCommand) :
      (commands.flatMap fun command => command.render.toList).count c =
        ((commands.filter fun command => !command.isPrint).flatMap
          fun command => command.render.toList).count c + commands.count (.print c) := by
    induction commands with
    | nil => rfl
    | cons command commands ih =>
      rw [List.flatMap_cons, List.count_append, ih, List.count_cons]
      cases command with
      | print d =>
        have hchar : (render (.print d)).toList = [d] := by simp [render]
        rw [hchar, List.count_singleton, List.filter_cons_of_neg (by simp [isPrint])]
        simp only [beq_iff_eq, print.injEq]
        omega
      | _ =>
        rw [List.filter_cons_of_pos (by rfl), List.flatMap_cons, List.count_append,
          if_neg (by simp)]
        omega
  rw [Stray, toList_renderAll, toList_renderAll, Array.toList_filter, hcount cs.toList,
    Nat.lt_add_right_iff_pos, List.count_pos_iff, Array.mem_toList_iff]

end TermCommand

namespace Writer

variable {w : Writer} {c : Char}

theorem print_mem_push {w : Writer} {command : TermCommand} :
    .print c ∈ (w.push command).commands ↔ .print c ∈ w.commands ∨ .print c = command := by
  rw [push, Array.mem_push]

theorem print_mem_writeCell {cell : Cell} :
    .print c ∈ (w.writeCell cell).commands ↔ .print c ∈ w.commands ∨ cell.char = c := by
  have hpen : .print c ∈ (w.setPen cell.fg cell.bg).commands ↔ .print c ∈ w.commands := by
    unfold setPen
    split
    · exact Iff.rfl
    · simp [push]
  rw [writeCell, print_mem_push, hpen, TermCommand.print.injEq, eq_comm]

theorem print_mem_writeSpan {s : Span} :
    .print c ∈ (w.writeSpan s).commands ↔
      .print c ∈ w.commands ∨ ∃ cell ∈ s.cells, cell.char = c := by
  have hcells (cells : List Cell) (w : Writer) :
      .print c ∈ (cells.foldl writeCell w).commands ↔
        .print c ∈ w.commands ∨ ∃ cell ∈ cells, cell.char = c := by
    induction cells generalizing w with
    | nil => simp
    | cons cell cells ih =>
      rw [List.foldl_cons, ih, print_mem_writeCell, or_assoc]
      simp
  rw [writeSpan, hcells, print_mem_push]
  simp

theorem print_mem_writeSpans {spans : List Span} :
    .print c ∈ w.writeSpans spans ↔
      .print c ∈ w.commands ∨ ∃ s ∈ spans, ∃ cell ∈ s.cells, cell.char = c := by
  have hspans (w : Writer) : .print c ∈ (spans.foldl writeSpan w).commands ↔
      .print c ∈ w.commands ∨ ∃ s ∈ spans, ∃ cell ∈ s.cells, cell.char = c := by
    induction spans generalizing w with
    | nil => simp
    | cons s spans ih =>
      rw [List.foldl_cons, ih, print_mem_writeSpan, or_assoc]
      simp
  rw [writeSpans, print_mem_push, hspans]
  simp

end Writer

namespace CellGrid

variable {g old new : CellGrid} {x y : UInt16} {runs : List (Nat × Nat × Nat)} {w : Writer}
  {c : Char}

theorem lt_of_charAt (h : g.charAt x y = some c) : x < g.width ∧ y < g.height := by
  obtain ⟨cell, hcell, -⟩ := Option.map_eq_some_iff.1 h
  exact lt_of_get? hcell

/-- Writing runs of a grid prints the characters at their places. -/
theorem print_mem_writeRuns (hruns : g.Holds runs) :
    .print c ∈ w.writeSpans (runs.map fun (y, x, n) => g.span y x n) ↔
      .print c ∈ w.commands ∨ ∃ x y, Reach runs x.toNat y.toNat ∧ g.charAt x y = some c := by
  rw [Writer.print_mem_writeSpans]
  refine or_congr_right ⟨?_, ?_⟩
  · rintro ⟨s, hs, cell, hcell, rfl⟩
    obtain ⟨⟨y, x, n⟩, hrun, rfl⟩ := List.mem_map.1 hs
    obtain ⟨i, hi, rfl⟩ := List.mem_map.1 hcell
    obtain ⟨hy, hx⟩ := hruns _ hrun
    have hi := List.mem_range.1 hi
    dsimp only at hx hy
    have hxNat : (x + i).toUInt16.toNat = x + i := toNat_toUInt16 (n := g.width) (by omega)
    have hyNat : y.toUInt16.toNat = y := toNat_toUInt16 (Nat.le_of_lt hy)
    obtain ⟨cell, hcell⟩ := exists_cell (g := g) (x := (x + i).toUInt16) (y := y.toUInt16)
      (UInt16.lt_iff_toNat_lt.2 (by omega)) (UInt16.lt_iff_toNat_lt.2 (by omega))
    refine ⟨_, _, ⟨_, hrun, hyNat.symm, by rw [hxNat]; exact Nat.le_add_right x i, ?_⟩, ?_⟩
    · rw [hxNat]
      exact Nat.add_lt_add_left hi x
    · rw [charAt, hcell]
      rfl
  · rintro ⟨x, y, ⟨⟨row, column, n⟩, hrun, hrow, hle, hlt⟩, hchar⟩
    dsimp only at hrow hle hlt
    obtain ⟨cell, hcell, rfl⟩ := Option.map_eq_some_iff.1 hchar
    refine ⟨_, List.mem_map_of_mem hrun, cell, ?_, rfl⟩
    refine List.mem_map.2 ⟨x.toNat - column, List.mem_range.2 (by omega), ?_⟩
    rw [Nat.add_sub_cancel' hle, hrow]
    simp [hcell]

theorem print_mem_fullCommands : .print c ∈ g.fullCommands ↔ ∃ x y, g.charAt x y = some c := by
  have hwrite := print_mem_writeRuns (c := c) (w := { commands := #[.clear, .moveTo 0 0] })
    g.holds_rows
  rw [List.map_map] at hwrite
  refine hwrite.trans ⟨?_, ?_⟩
  · rintro (hstart | ⟨x, y, -, hchar⟩)
    · simp at hstart
    · exact ⟨x, y, hchar⟩
  · rintro ⟨x, y, hchar⟩
    obtain ⟨hx, hy⟩ := lt_of_charAt hchar
    exact .inr ⟨x, y, reach_rows hx hy, hchar⟩

/-- A place that is written anew: its cell differs, or the whole grid has another size. -/
def Changed (old new : CellGrid) (x y : UInt16) : Prop :=
  old.width = new.width ∧ old.height = new.height → old.get? x y ≠ new.get? x y

theorem reach_changedRuns_iff (hx : x < new.width) (hy : y < new.height) :
    Reach (changedRuns old new) x.toNat y.toNat ↔ Changed old new x y := by
  by_cases hsize : old.width = new.width ∧ old.height = new.height
  · refine ⟨?_, fun hchanged => ?_⟩
    · rintro ⟨⟨row, column, n⟩, hrun, rfl, hle, hlt⟩ -
      rw [changedRuns, if_pos hsize] at hrun
      obtain ⟨_, -, hrun⟩ := List.mem_flatMap.1 hrun
      obtain ⟨run, hmem, heq⟩ := List.mem_map.1 hrun
      cases heq
      simpa using runs_satisfy _ _ _ run hmem _ hle hlt
    · refine reach_changedRuns hsize.1 hsize.2 (UInt16.lt_iff_toNat_lt.1 hx)
        (UInt16.lt_iff_toNat_lt.1 hy) ?_
      simpa using hchanged hsize
  · rw [changedRuns, if_neg hsize]
    exact ⟨fun _ hsame => absurd hsame hsize, fun _ => reach_rows hx hy⟩

theorem print_mem_diffCommands : .print c ∈ diffCommands old new ↔
    ∃ x y, Changed old new x y ∧ new.charAt x y = some c := by
  refine (print_mem_writeRuns (holds_changedRuns old new)).trans ⟨?_, ?_⟩
  · rintro (hstart | ⟨x, y, hreach, hchar⟩)
    · simp at hstart
    · obtain ⟨hx, hy⟩ := lt_of_charAt hchar
      exact ⟨x, y, (reach_changedRuns_iff hx hy).1 hreach, hchar⟩
  · rintro ⟨x, y, hchanged, hchar⟩
    obtain ⟨hx, hy⟩ := lt_of_charAt hchar
    exact .inr ⟨x, y, (reach_changedRuns_iff hx hy).2 hchanged, hchar⟩

/-- A control character is never the half block, so a place that shows one has it from a label. -/
theorem charAt_showSurface_iff (g : CellGrid) (s : Surface) (hc : isControl c = true)
    (hx : x < g.width) (hy : y < g.height) :
    (g.showSurface s).charAt x y = some c ↔
      s.textAt g.width g.height x.toNat y.toNat = some c := by
  have hblock : c ≠ halfBlock := by
    rintro rfl
    cases hc
  rw [charAt_showSurface g s hx hy, Option.some.injEq]
  cases s.textAt g.width g.height x.toNat y.toNat with
  | none => exact ⟨fun h => absurd h.symm hblock, nofun⟩
  | some d => exact Option.some.injEq d c ▸ Iff.rfl

/-- Which control characters a surface brings onto a terminal: exactly those that the labels put
at the places of the grid, and for a changed grid at the places that are written anew. -/
theorem control_sent_iff (g : CellGrid) (s : Surface) (old : CellGrid) {c : Char}
    (hc : isControl c = true) :
    (∀ x < g.width, ∀ y < g.height, (g.showSurface s).charAt x y = some c ↔
      s.textAt g.width g.height x.toNat y.toNat = some c) ∧
    (TermCommand.Stray c (g.showSurface s).fullCommands ↔
      ∃ x < g.width, ∃ y < g.height, s.textAt g.width g.height x.toNat y.toNat = some c) ∧
    (TermCommand.Stray c (diffCommands old (g.showSurface s)) ↔
      ∃ x < g.width, ∃ y < g.height, Changed old (g.showSurface s) x y ∧
        s.textAt g.width g.height x.toNat y.toNat = some c) := by
  obtain ⟨hw, hh⟩ := g.size_showSurface s
  refine ⟨fun x hx y hy => charAt_showSurface_iff g s hc hx hy, ?_, ?_⟩
  · rw [TermCommand.stray_iff, print_mem_fullCommands]
    refine ⟨?_, ?_⟩
    · rintro ⟨x, y, hchar⟩
      obtain ⟨hx, hy⟩ := lt_of_charAt hchar
      rw [hw] at hx
      rw [hh] at hy
      exact ⟨x, hx, y, hy, (charAt_showSurface_iff g s hc hx hy).1 hchar⟩
    · rintro ⟨x, hx, y, hy, htext⟩
      exact ⟨x, y, (charAt_showSurface_iff g s hc hx hy).2 htext⟩
  · rw [TermCommand.stray_iff, print_mem_diffCommands]
    refine ⟨?_, ?_⟩
    · rintro ⟨x, y, hchanged, hchar⟩
      obtain ⟨hx, hy⟩ := lt_of_charAt hchar
      rw [hw] at hx
      rw [hh] at hy
      exact ⟨x, hx, y, hy, hchanged, (charAt_showSurface_iff g s hc hx hy).1 hchar⟩
    · rintro ⟨x, hx, y, hy, hchanged, htext⟩
      exact ⟨x, y, hchanged, (charAt_showSurface_iff g s hc hx hy).2 htext⟩

/-- A bell in the middle of a name rings. -/
theorem control_sent_iff_bell :
    let s : Surface :=
      (Surface.blank 16 16).pushLabel ⟨0, 8, "a\x07b", Palette.white, some Palette.black, 12⟩
    isControl '\x07' = true ∧
      TermCommand.Stray '\x07' ((blank 16 8).showSurface s).fullCommands := by
  intro s
  have hc : isControl '\x07' = true := by decide
  have htext : s.textAt 16 8 1 4 = some '\x07' := by decide
  exact ⟨hc, (control_sent_iff (blank 16 8) s (blank 16 8) hc).2.1.2
    ⟨1, by decide, 4, by decide, htext⟩⟩

/-- A creature's name that clears the screen. Its escape character has a place of its own on the
grid; it is sent with the whole grid, and as a change of the surface without the name. -/
theorem name_sends_escape :
    ∃ l : Label, Overlay.nameLabel .follow "\x1b[2J" 1 0 8 = .ok l ∧
      ∃ bare named : CellGrid, bare = (blank 16 8).showSurface (Surface.blank 16 16) ∧
        named = (blank 16 8).showSurface ((Surface.blank 16 16).pushLabel l) ∧
        named.charAt 1 4 = some '\x1b' ∧ TermCommand.Stray '\x1b' named.fullCommands ∧
        TermCommand.Stray '\x1b' (diffCommands bare named) := by
  let l : Label := ⟨1, 8, "\x1b[2J", Palette.white, some Palette.black, 12⟩
  let bare := (blank 16 8).showSurface (Surface.blank 16 16)
  let named := (blank 16 8).showSurface ((Surface.blank 16 16).pushLabel l)
  have htext : ((Surface.blank 16 16).pushLabel l).textAt 16 8 1 4 = some '\x1b' := by decide
  have hchar : named.charAt 1 4 = some '\x1b' :=
    (charAt_showSurface_iff (blank 16 8) _ (by decide) (by decide) (by decide)).2 htext
  have hbare : bare.charAt 1 4 = some halfBlock :=
    charAt_showSurface (blank 16 8) (Surface.blank 16 16) (by decide) (by decide)
  have hchanged : Changed bare named 1 4 := by
    intro _ hsame
    rw [charAt, hsame] at hbare
    cases hbare.symm.trans hchar
  refine ⟨l, rfl, bare, named, rfl, rfl, hchar, ?_, ?_⟩
  · rw [TermCommand.stray_iff, print_mem_fullCommands]
    exact ⟨1, 4, hchar⟩
  · rw [TermCommand.stray_iff, print_mem_diffCommands]
    exact ⟨1, 4, hchanged, hchar⟩

end CellGrid

end TileViewer
