import TileViewer.Frame
import TileViewer.View
import TileViewer.Word

/-! Points in pixels, and the rectangle of world tiles that one picture covers. -/
namespace TileViewer

/-- A point in pixels, of the world or of a picture. -/
structure Point where
  x : Int32
  y : Int32
  deriving DecidableEq, Repr, Inhabited

structure Window where
  startX : Int32
  startY : Int32
  width : UInt32
  height : UInt32
  deriving DecidableEq, Repr

namespace Window

/-- How far, in pixels, the camera may glide and still see only what was painted. -/
def glideReach : UInt32 := 320

/-- The fewest tiles that cover `glideReach`. -/
def glideTiles (sprite : UInt32) : UInt32 :=
  glideReach / sprite + (if glideReach % sprite = 0 then 0 else 1)

/-- The window painted for a frame. The world view shows what the server sent. The follow view is
centred on the server's view and covers the surface, a margin of one tile on each side and room
for a glide of `glideReach` in every direction. -/
def ofFrame (view : View) (frame : Frame) (surfaceWidth surfaceHeight sprite : UInt32) :
    Except Overflow Window :=
  match view with
  | .world => .ok ⟨frame.viewX, frame.viewY, frame.viewWidth, frame.viewHeight⟩
  | .follow => do
    let sprite := max sprite 1
    let reach := 2 * glideTiles sprite
    let width ← Word.plus (← Word.plus (surfaceWidth / sprite) 2) reach
    let height ← Word.plus (← Word.plus (surfaceHeight / sprite) 2) reach
    let centerX := Word.plusSat frame.viewX (frame.viewWidth / 2).toInt32
    let centerY := Word.plusSat frame.viewY (frame.viewHeight / 2).toInt32
    let startX ← Word.minus centerX (width / 2).toInt32
    let startY ← Word.minus centerY (height / 2).toInt32
    return ⟨startX, startY, width, height⟩

/-- The top left corner in world pixels. -/
def origin (w : Window) (sprite : UInt32) : Point :=
  ⟨Word.timesSat w.startX sprite.toInt32, Word.timesSat w.startY sprite.toInt32⟩

/-- Width and height in pixels. -/
def sizePx (w : Window) (sprite : UInt32) : UInt32 × UInt32 :=
  (Word.timesSat w.width sprite, Word.timesSat w.height sprite)

/-- Column and row of a world tile, if the window covers it. -/
def local? (w : Window) (x y : Int32) : Except Overflow (Option (UInt32 × UInt32)) := do
  let column ← Word.minus x w.startX
  let row ← Word.minus y w.startY
  if column < 0 ∨ row < 0 ∨ w.width ≤ column.toUInt32 ∨ w.height ≤ row.toUInt32 then
    return none
  else
    return some (column.toUInt32, row.toUInt32)

end Window

end TileViewer
