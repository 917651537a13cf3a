import TileViewer.Surface
import TileViewer.Terminal.Command

/-!
Showing surfaces on one terminal, one after the other. Each cell shows two points of the surface,
one above the other, as the two colours of an upper half block. The labels are written over the
cells.
-/
namespace TileViewer

namespace CellGrid

def halfBlock : Char := '▀'

/-- The colour of the surface at point `(px, py)` of a raster of `columns` by `rows` points; black
where the surface has no pixel. -/
def sample (s : Surface) (columns rows px py : Nat) : Rgb :=
  match s.image.pixel? (px * s.width.toNat / columns) (py * s.height.toNat / rows) with
  | none => default
  | some c => c.toRgb

/-- Writes a label at the cell that shows its corner. One that begins off the surface is left out. -/
def putLabel (s : Surface) (g : CellGrid) (label : Label) : CellGrid :=
  if label.x < 0 ∨ label.y < 0 then g
  else
    let x := label.x.toInt.toNat * g.width.toNat / s.width.toNat
    let y := label.y.toInt.toNat * g.height.toNat / s.height.toNat
    if g.width.toNat ≤ x ∨ g.height.toNat ≤ y then g
    else g.putText x.toUInt16 y.toUInt16 label.text label.fg.toRgb (label.bg.map Color.toRgb)

/-- Shows a surface on a grid, in place of what was there. A surface without pixels shows no
labels either. -/
def showSurface (g : CellGrid) (s : Surface) : CellGrid :=
  let columns := g.width.toNat
  let rows := g.height.toNat * 2
  let shown := ofFn g.width g.height fun x y =>
    ⟨halfBlock, sample s columns rows x (y * 2), sample s columns rows x (y * 2 + 1)⟩
  if s.width = 0 ∨ s.height = 0 then shown else s.labels.foldl (putLabel s) shown

end CellGrid

/-- The grid to draw the next surface on, and what the terminal shows, if that is known. -/
structure Display where
  next : CellGrid := CellGrid.blank 0 0
  shown : Option CellGrid := none

namespace Display

/-- Forgets what the terminal shows, so that everything is written anew. -/
def invalidate (d : Display) : Display := { d with shown := none }

/-- Shows a surface on a terminal of `columns` by `rows` cells. The two grids change places, so
that none is made anew. -/
def present (d : Display) (s : Surface) (columns rows : UInt16) : Array TermCommand × Display :=
  let next := (d.next.resize columns rows).showSurface s
  match d.shown with
  | some old =>
    if old.width = columns ∧ old.height = rows then
      (CellGrid.diffCommands old next, { next := old, shown := some next })
    else (CellGrid.fullCommands next, { next, shown := some next })
  | none => (CellGrid.fullCommands next, { next, shown := some next })

end Display

end TileViewer
