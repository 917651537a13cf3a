import TileViewer.Terminal.Command

/-!
A terminal that carries out commands: what its places show, where it writes next and in which
colours. Every character takes one place. Writing cells shows their characters in their colours,
whatever the pen was before.
-/
namespace TileViewer

/-- What one place of a terminal shows. Without a colour it has the terminal's own. -/
structure Glyph where
  char : Char
  fg : Option Rgb
  bg : Option Rgb
  deriving DecidableEq, Repr

def Glyph.blank : Glyph := ⟨' ', none, none⟩

def Cell.glyph (c : Cell) : Glyph := ⟨c.char, some c.fg, some c.bg⟩

/-- The places by column and row, the next one to be written, and the colours of the pen. -/
structure Screen where
  glyph : Nat → Nat → Glyph
  column : Nat
  row : Nat
  fg : Option Rgb
  bg : Option Rgb

namespace Screen

def exec (s : Screen) : TermCommand → Screen
  | .clear => { s with glyph := fun _ _ => .blank }
  | .moveTo x y => { s with column := x.toNat, row := y.toNat }
  | .foreground c => { s with fg := some c }
  | .background c => { s with bg := some c }
  | .resetColors => { s with fg := none, bg := none }
  | .print c =>
    { s with
      glyph := fun x y => if x = s.column ∧ y = s.row then ⟨c, s.fg, s.bg⟩ else s.glyph x y
      column := s.column + 1 }

def execAll (s : Screen) (commands : Array TermCommand) : Screen := commands.foldl exec s

/-- A cell written at the place that comes next. -/
def write (s : Screen) (c : Cell) : Screen where
  glyph x y := if x = s.column ∧ y = s.row then c.glyph else s.glyph x y
  column := s.column + 1
  row := s.row
  fg := some c.fg
  bg := some c.bg

variable {s t u : Screen} {want : Nat → Nat → Glyph} {A B : Nat → Nat → Prop}

/-- `t` is `s` with the places of `A` as wanted. -/
structure Redrawn (want : Nat → Nat → Glyph) (A : Nat → Nat → Prop) (s t : Screen) : Prop where
  drawn : ∀ x y, A x y → t.glyph x y = want x y
  kept : ∀ x y, ¬ A x y → t.glyph x y = s.glyph x y

theorem Redrawn.refl (h : t.glyph = s.glyph) : Redrawn want (fun _ _ => False) s t :=
  ⟨fun _ _ => False.elim, fun _ _ _ => by rw [h]⟩

theorem Redrawn.trans (h : Redrawn want A s t) (h' : Redrawn want B t u) :
    Redrawn want (fun x y => A x y ∨ B x y) s u where
  drawn x y hin := by
    by_cases hB : B x y
    · exact h'.drawn x y hB
    · rw [h'.kept x y hB]
      exact h.drawn x y (hin.resolve_right hB)
  kept x y hout := by
    rw [not_or] at hout
    rw [h'.kept x y hout.2, h.kept x y hout.1]

theorem Redrawn.congr (h : Redrawn want A s t) (hAB : ∀ x y, A x y ↔ B x y) :
    Redrawn want B s t :=
  ⟨fun x y hB => h.drawn x y ((hAB x y).2 hB), fun x y hB => h.kept x y (mt (hAB x y).1 hB)⟩

/-- A line of cells takes the places from the cursor on. -/
theorem redrawn_foldl_write (want : Nat → Nat → Glyph) (cells : List Cell) (s : Screen)
    (hwant : ∀ i c, cells[i]? = some c → want (s.column + i) s.row = c.glyph) :
    Redrawn want (fun x y => y = s.row ∧ s.column ≤ x ∧ x < s.column + cells.length) s
      (cells.foldl write s) := by
  induction cells generalizing s with
  | nil =>
    refine (Redrawn.refl rfl).congr ?_
    intro x y
    simp only [List.length_nil, false_iff]
    omega
  | cons c cells ih =>
    have hfirst : Redrawn want (fun x y => x = s.column ∧ y = s.row) s (s.write c) := by
      refine ⟨?_, fun x y h => if_neg h⟩
      rintro x y ⟨rfl, rfl⟩
      have := hwant 0 c rfl
      rw [Nat.add_zero] at this
      rw [this]
      exact if_pos ⟨rfl, rfl⟩
    refine (hfirst.trans (ih (s.write c) ?_)).congr ?_
    · intro i c' hc'
      have := hwant (i + 1) c' hc'
      rwa [← Nat.add_assoc, Nat.add_right_comm] at this
    · intro x y
      simp only [write, List.length_cons]
      omega

/-- The screen shows the cells of a grid, from its top left corner. -/
def Shows (s : Screen) (g : CellGrid) : Prop :=
  ∀ x y, x < g.width → y < g.height →
    (g.get? x y).map Cell.glyph = some (s.glyph x.toNat y.toNat)

end Screen

namespace Writer

variable {w : Writer} {s t : Screen}

/-- The commands written so far take the screen `s` to `t`, and the pen has there the colours that
the writer takes it to have. -/
structure Leaves (w : Writer) (s t : Screen) : Prop where
  screen : s.execAll w.commands = t
  pen : ∀ fg bg, w.pen = some (fg, bg) → t.fg = some fg ∧ t.bg = some bg

theorem execAll_push (w : Writer) (c : TermCommand) (s : Screen) :
    s.execAll (w.push c).commands = (s.execAll w.commands).exec c := by
  simp only [push, Screen.execAll, Array.foldl_push]

theorem Leaves.setPen (h : w.Leaves s t) (fg bg : Rgb) :
    (w.setPen fg bg).Leaves s { t with fg := some fg, bg := some bg } := by
  obtain ⟨rfl, hpen⟩ := h
  unfold Writer.setPen
  split
  · next hsame =>
    obtain ⟨hfg, hbg⟩ := hpen fg bg hsame
    refine ⟨?_, fun fg' bg' h => ?_⟩
    · rw [← hfg, ← hbg]
    · cases hsame.symm.trans h
      exact ⟨rfl, rfl⟩
  · refine ⟨?_, fun fg' bg' h => ?_⟩
    · exact (execAll_push (w.push _) _ s).trans (by rw [execAll_push]; rfl)
    · cases h
      exact ⟨rfl, rfl⟩

theorem Leaves.writeCell (h : w.Leaves s t) (c : Cell) : (w.writeCell c).Leaves s (t.write c) := by
  have hpen := h.setPen c.fg c.bg
  refine ⟨?_, hpen.pen⟩
  rw [Writer.writeCell, execAll_push, hpen.screen]
  rfl

theorem Leaves.writeCells (h : w.Leaves s t) (cells : List Cell) :
    (cells.foldl Writer.writeCell w).Leaves s (cells.foldl Screen.write t) := by
  induction cells generalizing w t with
  | nil => exact h
  | cons c cells ih => exact ih (h.writeCell c)

theorem Leaves.moveTo (h : w.Leaves s t) (x y : UInt16) :
    (w.push (.moveTo x y)).Leaves s { t with column := x.toNat, row := y.toNat } :=
  ⟨by rw [execAll_push, h.screen]; rfl, h.pen⟩

theorem Leaves.writeSpan (h : w.Leaves s t) (span : Span) :
    (w.writeSpan span).Leaves s
      (span.cells.foldl Screen.write { t with column := span.x.toNat, row := span.y.toNat }) :=
  (h.moveTo span.x span.y).writeCells span.cells

end Writer

end TileViewer
