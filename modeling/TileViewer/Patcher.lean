import TileViewer.DirtyGrid
import TileViewer.Frame
import TileViewer.Window

/-!
Bringing a frame into the world: its stacks are stored and the squares they cover are marked. A
view that has moved since the last frame marks the whole view.
-/
namespace TileViewer

/-- What one frame changed. -/
structure PatchSummary where
  patches : Nat := 0
  cellsWritten : Nat := 0
  viewMoved : Bool := false
  deriving DecidableEq, Repr

/-- Remembers where the last frame's view began. -/
structure Patcher where
  sprite : UInt32
  lastOrigin : Option (Int32 × Int32) := none
  deriving DecidableEq, Repr

namespace Patcher

def ofSprite (sprite : UInt32) : Patcher := { sprite := max sprite 1 }

/-- Forgets the last view, so that the next frame counts as moved. -/
def reset (p : Patcher) : Patcher := { p with lastOrigin := none }

/-- The world coordinate of the `i`-th cell of a patch. Each partial sum stops at the ends of the
coordinate range. -/
def cellAt (frame : Frame) (patch : Patch) (i : Nat) : Int32 × Int32 :=
  let width := patch.width.toNat
  (Word.plusSat (Word.plusSat (Int32.ofNat (i % width)) patch.x) frame.viewX,
    Word.plusSat (Word.plusSat (Int32.ofNat (i / width)) patch.y) frame.viewY)

/-- Stores the usable cells of a patch and counts the ones the store accepts. -/
def store (frame : Frame) (patch : Patch) (tiles : TileStore) : TileStore × Nat :=
  if patch.width = 0 then (tiles, 0)
  else
    (patch.cells.take patch.usableCells).zipIdx.foldl (fun (tiles, written) (stack, i) =>
      let (x, y) := cellAt frame patch i
      (tiles.insert x y stack, if rowFits y then written + 1 else written)) (tiles, 0)

/-- Marks what a patch covers of the window, in pixels from the window's corner. -/
def mark (sprite : UInt32) (frame : Frame) (window : Window) (patch : Patch) (dirty : DirtyGrid) :
    Except Overflow DirtyGrid :=
  let x := max (Word.minusSat (Word.plusSat patch.x frame.viewX) window.startX) 0
  let y := max (Word.minusSat (Word.plusSat patch.y frame.viewY) window.startY) 0
  if x.toUInt32 < window.width ∧ y.toUInt32 < window.height then
    dirty.markRect (Word.timesSat x sprite.toInt32) (Word.timesSat y sprite.toInt32)
      (Word.timesSat (min patch.width (window.width - x.toUInt32)) sprite)
      (Word.timesSat (min patch.height (window.height - y.toUInt32)) sprite)
  else .ok dirty

/-- Marks the part of the view that the window shows. -/
def markView (sprite : UInt32) (frame : Frame) (window : Window) (dirty : DirtyGrid) :
    Except Overflow DirtyGrid :=
  dirty.markRect 0 0 (Word.timesSat (min frame.viewWidth window.width) sprite)
    (Word.timesSat (min frame.viewHeight window.height) sprite)

/-- Applies a frame to the stored tiles and marks what it touched. -/
def apply (p : Patcher) (frame : Frame) (window : Window) (tiles : TileStore) (dirty : DirtyGrid) :
    Except Overflow (PatchSummary × Patcher × TileStore × DirtyGrid) := do
  let moved := p.lastOrigin ≠ some (frame.viewX, frame.viewY)
  let dirty ← if moved then markView p.sprite frame window dirty else pure dirty
  let dirty ← frame.patches.foldlM (fun d patch => mark p.sprite frame window patch d) dirty
  let (tiles, written) := frame.patches.foldl (fun (tiles, written) patch =>
    let (tiles, more) := store frame patch tiles
    (tiles, written + more)) (tiles, 0)
  let summary := ⟨frame.patches.length, written, moved⟩
  return (summary, { p with lastOrigin := some (frame.viewX, frame.viewY) }, tiles, dirty)

end Patcher

end TileViewer
