import TileViewer.Camera
import TileViewer.Painter.Overlay
import TileViewer.Painter.Tiles

/-!
Pictures of the world. The world view is painted straight onto the surface. The follow view is
painted onto a larger picture of the whole window, and camera steps show a part of that.
-/
namespace TileViewer

/-- What is kept from one pass to the next: the tiles without anything on top, and in the follow
view also the picture and the window it covers. -/
inductive Canvas
  | world (tiles : Option Surface)
  | follow (picture : Surface) (painted : Option (Window × Surface))

namespace Canvas

def ofView : View → Canvas
  | .world => .world none
  | .follow => .follow (Surface.blank 0 0) none

/-- The picture that camera steps show, follow view only. -/
def picture? : Canvas → Option Surface
  | .world _ => none
  | .follow picture _ => some picture

end Canvas

structure Painter where
  view : View
  sprite : UInt32
  surface : Surface
  canvas : Canvas
  sprites : SpriteSheet

namespace Painter

def ofView (view : View) (width height sprite : UInt32) (sprites : SpriteSheet) : Painter where
  view := view
  sprite := max sprite 1
  surface := Surface.blank width height
  canvas := Canvas.ofView view
  sprites := sprites

/-- Forgets the pictures and the scaled images. The next pass repaints everything. -/
def reset (p : Painter) : Painter :=
  { p with canvas := Canvas.ofView p.view, sprites := p.sprites.forgetScaled }

def resize (p : Painter) (width height : UInt32) : Painter :=
  { p with surface := p.surface.resize width height }.reset

/-- The scene a painter shows through a window. Only the world view has a sidebar. -/
def scene (p : Painter) (window : Window) (tiles : TileStore) : Scene where
  window := window
  tiles := tiles
  sprite := p.sprite
  sidebar := match p.canvas with
    | .world _ => true
    | .follow .. => false

/-- Paints one frame. In the world view it is on the surface then, in the follow view on the
picture, which `present` shows. A window that has moved makes the old picture useless. -/
def draw (p : Painter) (window : Window) (tiles : TileStore) (scope : Scope) (overlay : Overlay) :
    Except Overflow (PaintStats × Painter) := do
  let scene := p.scene window tiles
  match p.canvas with
  | .world last =>
    let pass ← scene.paint last p.surface.width p.surface.height scope p.sprites
    let surface ← overlay.draw p.view window p.sprite pass.surface
    return (pass.stats,
      { p with surface, canvas := .world (some pass.surface), sprites := pass.sprites })
  | .follow _ painted =>
    let (width, height) := window.sizePx p.sprite
    let last := painted.bind fun (w, s) => if w = window then some s else none
    let pass ← scene.paint last width height scope p.sprites
    let picture ← overlay.draw p.view window p.sprite pass.surface
    return (pass.stats,
      { p with canvas := .follow picture (some (window, pass.surface)), sprites := pass.sprites })

/-- Shows the picture at a camera position, and tells whether there was one to show. -/
def present (p : Painter) (step : Point) : Except Overflow (Bool × Painter) :=
  match p.canvas with
  | .follow picture (some (window, _)) => do
    let (x, y) := Camera.offsetIn step window p.sprite p.surface.width p.surface.height
    let surface ← p.surface.blitWindow picture x y
    return (true, { p with surface })
  | _ => .ok (false, p)

end Painter

end TileViewer
