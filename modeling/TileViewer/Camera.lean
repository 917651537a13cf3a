import TileViewer.Frame
import TileViewer.Window
import TileViewer.Word

/-!
The camera's way from one frame to the next. A new target is reached in a short run of steps; the
longer the way, the fewer the steps.
-/
namespace TileViewer

/-- The last target, and the steps still to be shown, next one first. -/
structure Camera where
  target : Option Point := none
  steps : List Point := []
  deriving DecidableEq, Repr

namespace Camera

def maxSteps : Nat := 12

def minSteps : Nat := 2

/-- The vertical distance, in pixels, that saves one step. -/
def pixelsPerStep : Nat := 45

/-- How many steps cover a vertical distance. -/
def stepCount (dy : Int32) : Nat :=
  let distance := min dy.toInt.natAbs Window.glideReach.toNat
  maxSteps - min (distance / pixelsPerStep) (maxSteps - minSteps)

/-- The `i`-th of `n` equal parts of the way between two coordinates, rounded down. -/
def between (a b : Int32) (i n : Nat) : Int32 :=
  Int32.ofInt (a.toInt + ((b.toInt - a.toInt) * i) / n)

/-- The steps from one point to another, ending there. -/
def path (a b : Point) (n : Nat) : List Point :=
  (List.range n).map fun i => ⟨between a.x b.x (i + 1) n, between a.y b.y (i + 1) n⟩

/-- Queues the way to `target` in place of any steps left, and tells how many steps it has. The
first target of all, and one where the camera already is, take a single step. -/
def retarget (c : Camera) (target : Point) : Except Overflow (Nat × Camera) :=
  match c.target with
  | none => .ok (1, ⟨some target, [target]⟩)
  | some a =>
    if a = target then .ok (1, ⟨some target, [target]⟩)
    else do
      let n := stepCount (← Word.minus target.y a.y)
      return (n, ⟨some target, path a target n⟩)

/-- The next position to show. -/
def next (c : Camera) : Option Point × Camera :=
  match c.steps with
  | [] => (none, c)
  | p :: rest => (some p, { c with steps := rest })

/-- The position that puts the middle of the frame's view into the middle of the surface, in world
pixels. -/
def targetOf (frame : Frame) (surfaceWidth surfaceHeight sprite : UInt32) :
    Except Overflow Point := do
  let s := sprite.toInt32
  let cx ← Word.times (← Word.plus frame.viewX (frame.viewWidth / 2).toInt32) s
  let cy ← Word.times (← Word.plus frame.viewY (frame.viewHeight / 2).toInt32) s
  let x ← Word.minus cx (surfaceWidth / 2).toInt32
  let y ← Word.minus cy (surfaceHeight / 2).toInt32
  return ⟨x, y⟩

/-- Where a surface-sized window at camera position `p` begins inside a picture of `window`. The
window is kept inside the picture as far as its size allows. -/
def offsetIn (p : Point) (window : Window) (sprite surfaceWidth surfaceHeight : UInt32) :
    UInt32 × UInt32 :=
  let origin := window.origin sprite
  let (width, height) := window.sizePx sprite
  let inside (d : Int) (room surface : UInt32) : UInt32 :=
    UInt32.ofInt (max 0 (min d (room.toNat - surface.toNat : Nat)))
  (inside (p.x.toInt - origin.x.toInt) width surfaceWidth,
    inside (p.y.toInt - origin.y.toInt) height surfaceHeight)

end Camera

end TileViewer
