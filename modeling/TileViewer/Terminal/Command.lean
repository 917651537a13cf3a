import TileViewer.Terminal.Cell

/-!
The commands that bring a grid onto a terminal. A whole grid is written row by row after clearing
the screen; a changed grid is written in runs of the cells that differ.
-/
namespace TileViewer

/-- What a terminal is told. -/
inductive TermCommand
  | clear
  | moveTo (x y : UInt16)
  | foreground (c : Rgb)
  | background (c : Rgb)
  | resetColors
  | print (c : Char)
  deriving DecidableEq, Repr

namespace TermCommand

/-- The control sequence or character of a command. Positions count from one, row first. -/
def render : TermCommand → String
  | clear => "\x1b[2J"
  | moveTo x y => s!"\x1b[{y.toNat + 1};{x.toNat + 1}H"
  | foreground c => s!"\x1b[38;2;{c.r};{c.g};{c.b}m"
  | background c => s!"\x1b[48;2;{c.r};{c.g};{c.b}m"
  | resetColors => "\x1b[0m"
  | print c => c.toString

def renderAll (cs : Array TermCommand) : String := cs.foldl (fun text c => text ++ c.render) ""

end TermCommand

/-- Neighbouring cells of one row, from column `x` on. -/
structure Span where
  x : UInt16
  y : UInt16
  cells : List Cell
  deriving DecidableEq, Repr

/-- Commands written so far, and the colours the terminal writes with, if they are known. -/
structure Writer where
  commands : Array TermCommand := #[]
  pen : Option (Rgb × Rgb) := none

namespace Writer

def push (w : Writer) (c : TermCommand) : Writer := { w with commands := w.commands.push c }

/-- Sets the colours, if they are not the ones in use. -/
def setPen (w : Writer) (fg bg : Rgb) : Writer :=
  if w.pen = some (fg, bg) then w
  else { (w.push (.foreground fg)).push (.background bg) with pen := some (fg, bg) }

def writeCell (w : Writer) (c : Cell) : Writer := (w.setPen c.fg c.bg).push (.print c.char)

def writeSpan (w : Writer) (s : Span) : Writer :=
  s.cells.foldl writeCell (w.push (.moveTo s.x s.y))

/-- Writes spans at their places and resets the colours at the end. -/
def writeSpans (w : Writer) (spans : List Span) : Array TermCommand :=
  ((spans.foldl writeSpan w).push .resetColors).commands

end Writer

namespace CellGrid

/-- `length` cells of a row, from column `x` on. -/
def span (g : CellGrid) (y x length : Nat) : Span where
  x := x.toUInt16
  y := y.toUInt16
  cells := (List.range length).map fun i =>
    (g.get? (x + i).toUInt16 y.toUInt16).getD Cell.blank

/-- The commands for a whole grid. -/
def fullCommands (g : CellGrid) : Array TermCommand :=
  let start : Writer := { commands := #[.clear, .moveTo 0 0] }
  start.writeSpans ((List.range g.height.toNat).map fun y => g.span y 0 g.width.toNat)

/-- How many columns in a row, from `x` on and before `width`, satisfy `p`. -/
def runLength (p : Nat → Bool) (width x : Nat) : Nat :=
  ((List.range' x (width - x)).takeWhile p).length

/-- The runs of columns that satisfy `p`, from `x` on: where each begins and how long it is. A run
is never empty, so `max 1` changes nothing but shows that the search moves on. -/
def runs (p : Nat → Bool) (width x : Nat) : List (Nat × Nat) :=
  if x < width then
    if p x then (x, runLength p width x) :: runs p width (x + max 1 (runLength p width x))
    else runs p width (x + 1)
  else []
termination_by width - x

/-- The runs of cells, as row, column and length, that take one grid to another. For grids of
different sizes every row is one run. -/
def changedRuns (old new : CellGrid) : List (Nat × Nat × Nat) :=
  if old.width = new.width ∧ old.height = new.height then
    (List.range new.height.toNat).flatMap fun y =>
      (runs (fun x => old.get? x.toUInt16 y.toUInt16 ≠ new.get? x.toUInt16 y.toUInt16)
        new.width.toNat 0).map fun (x, length) => (y, x, length)
  else (List.range new.height.toNat).map fun y => (y, 0, new.width.toNat)

/-- The commands that bring the changes of a grid onto a terminal that shows the old one. -/
def diffCommands (old new : CellGrid) : Array TermCommand :=
  let start : Writer := {}
  start.writeSpans ((changedRuns old new).map fun (y, x, length) => new.span y x length)

end CellGrid

end TileViewer
