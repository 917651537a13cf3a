import TileViewer.DirtyGrid
import TileViewer.Painter.Palette
import TileViewer.SpriteSheet
import TileViewer.Surface
import TileViewer.Window

/-!
The ground and the tiles of a picture. A pass begins with the picture of the last pass, without
what was drawn on top, and repaints the cells in its scope; without such a picture it begins with
the bare ground and repaints every cell.
-/
namespace TileViewer

/-- Which cells a pass repaints. -/
inductive Scope
  | all
  | dirty (grid : DirtyGrid)

/-- Whether the cell with this top left pixel is repainted. -/
def Scope.includes (scope : Scope) (x y : Int32) : Except Overflow Bool :=
  match scope with
  | .all => .ok true
  | .dirty grid => grid.isDirty x y

/-- What a pass did. -/
structure PaintStats where
  cells : Nat := 0
  layers : Nat := 0
  missing : Nat := 0
  deriving DecidableEq, Repr

namespace Ground

/-- The width of the strip at the right edge. -/
def sidebarWidth : UInt32 := 200

/-- The column where the strip begins. -/
def sidebarStart (width : UInt32) : UInt32 := width - min width sidebarWidth

/-- The ground's colour at a column of a picture. -/
def colorAt (x : Int32) (width : UInt32) (sidebar : Bool) : Color :=
  if sidebar ∧ (sidebarStart width).toInt32 ≤ x then Palette.sidebar else Palette.playArea

/-- A picture of the bare ground. -/
def surface (width height : UInt32) (sidebar : Bool) : Surface :=
  let ground := (Surface.blank width height).fill Palette.playArea
  if sidebar then
    let start := sidebarStart width
    ground.fillRect start.toInt32 0 (width - start) height Palette.sidebar
  else ground

end Ground

/-- The part of the world a pass shows, and how. -/
structure Scene where
  window : Window
  tiles : TileStore
  sprite : UInt32
  sidebar : Bool

/-- The picture so far. -/
structure TilePass where
  surface : Surface
  sprites : SpriteSheet
  stats : PaintStats := {}

namespace TilePass

/-- Draws one image with its top left corner at `(x, y)`. An unknown image is skipped. -/
def drawLayer (x y : Int32) (p : TilePass) (layer : Layer) : TilePass :=
  match p.sprites.tile layer.image layer.rotation with
  | (some img, sprites) =>
    { surface := p.surface.drawImage img x y, sprites
      stats := { p.stats with layers := p.stats.layers + 1 } }
  | (none, sprites) =>
    { p with sprites, stats := { p.stats with missing := p.stats.missing + 1 } }

/-- Repaints the cell in a column and a row of the window, whose top left pixel is `(x, y)`. -/
def drawCell (scene : Scene) (column row : UInt32) (x y : Int32) (p : TilePass) :
    Except Overflow TilePass := do
  let ground := Ground.colorAt x p.surface.width scene.sidebar
  let surface := p.surface.fillRect x y scene.sprite scene.sprite ground
  let p := { p with surface, stats := { p.stats with cells := p.stats.cells + 1 } }
  let wx ← Word.plus scene.window.startX column.toInt32
  let wy ← Word.plus scene.window.startY row.toInt32
  return ((scene.tiles.get? wx wy).getD []).foldl (drawLayer x y) p

/-- Goes through `count` columns of a row, from `column` on, up to the right edge. -/
def drawRow (scene : Scene) (scope : Scope) (row : UInt32) (y : Int32) :
    Nat → UInt32 → TilePass → Except Overflow TilePass
  | 0, _, p => .ok p
  | count + 1, column, p => do
    let x := (← Word.times column scene.sprite).toInt32
    if p.surface.width.toInt32 ≤ x then return p
    let p ← if (← scope.includes x y) then drawCell scene column row x y p else pure p
    drawRow scene scope row y count (column + 1) p

/-- Goes through `count` rows, from `row` on, up to the bottom edge. -/
def drawRows (scene : Scene) (scope : Scope) :
    Nat → UInt32 → TilePass → Except Overflow TilePass
  | 0, _, p => .ok p
  | count + 1, row, p => do
    let y := (← Word.times row scene.sprite).toInt32
    if p.surface.height.toInt32 ≤ y then return p
    let p ← drawRow scene scope row y scene.window.width.toNat 0 p
    drawRows scene scope count (row + 1) p

end TilePass

/-- The ground and the tiles of a scene, on a picture of the given size. `last` is the result of
the pass before, and counts only if it has that size. -/
def Scene.paint (scene : Scene) (last : Option Surface) (width height : UInt32) (scope : Scope)
    (sprites : SpriteSheet) : Except Overflow TilePass :=
  let fresh := (Ground.surface width height scene.sidebar, Scope.all)
  let (surface, scope) := match last with
    | some s => if s.width = width ∧ s.height = height then (s, scope) else fresh
    | none => fresh
  TilePass.drawRows scene scope scene.window.height.toNat 0 { surface, sprites }

end TileViewer
