import TileViewer.DamageNumber
import TileViewer.Painter.Palette
import TileViewer.Surface
import TileViewer.View

/-!
What lies on top of the tiles: health bars and names, the frame's number, damage numbers, and in
the world view the outline of the tracked view and a line at the left edge.
-/
namespace TileViewer

structure Overlay where
  creatures : List Creature := []
  numbers : List DamageNumber := []
  seq : UInt64 := 0
  /-- The tracked view, outlined in the world view only. -/
  tracked : Option TileRect := none
  deriving DecidableEq, Repr

namespace Overlay

/-- The rough width of a line of text. -/
def textWidth (text : String) (fontPx : UInt32) : Except Overflow UInt32 := do
  let wide ← Word.times (← Word.times (UInt32.ofNat text.length) fontPx) 3
  return wide / 5

/-- How many pixels of a bar as wide as a sprite are full. -/
def barWidth (health : Float) (sprite : UInt32) : UInt32 := (sprite.toFloat * health).toUInt32

/-- The colour of the full part of a bar. -/
def barColor (health : Float) : Color := Palette.health (min (100.0 * health).toUInt32.toNat 99)

def barHeight : UInt32 := 4

/-- The distance of a bar from its creature. -/
def barGap : Int32 := 5

/-- The health bar of a creature in a column and a row of the window. -/
def drawBar (s : Surface) (creature : Creature) (column row : Int32) (sprite : UInt32) :
    Except Overflow Surface := do
  let filled := barWidth creature.health sprite
  let y ← Word.plus (← Word.times (← Word.plus row 1) sprite.toInt32) barGap
  let x ← Word.times column sprite.toInt32
  let s := s.fillRect x y filled barHeight (barColor creature.health)
  let x ← Word.plus x filled.toInt32
  let rest ← Word.minus sprite filled
  return s.fillRect x y rest barHeight Palette.lostHealth

/-- The font of names and how much lower the world view writes them. -/
def nameFont : View → UInt32 × Int32
  | .world => (9, 10)
  | .follow => (12, 0)

/-- The name of a creature, centred under it. -/
def nameLabel (view : View) (name : String) (column row : Int32) (sprite : UInt32) :
    Except Overflow Label := do
  let (fontPx, lower) := nameFont view
  let s := sprite.toInt32
  let width := (← textWidth name fontPx).toInt32
  let x ← Word.minus (← Word.plus (← Word.times column s) (s / 2)) (width / 2)
  let x ← Word.plus x 3
  let y ← Word.plus (← Word.times (← Word.plus row 2) s) 4
  let y ← Word.minus (← Word.plus y lower) fontPx.toInt32
  return { x, y, text := name, fg := Palette.white, bg := some Palette.black, fontPx }

/-- The bar and the name of a creature. The last two rows of the window have no room for them. -/
def drawCreature (view : View) (window : Window) (sprite : UInt32) (s : Surface)
    (creature : Creature) : Except Overflow Surface := do
  let column ← Word.minus creature.x window.startX
  let row ← Word.minus creature.y window.startY
  let bottom ← Word.minus window.height.toInt32 2
  if bottom ≤ row then return s
  let s ← drawBar s creature column row sprite
  match creature.name with
  | none => return s
  | some name => return s.pushLabel (← nameLabel view name column row sprite)

/-- The number of the frame, near the top left corner. -/
def seqLabel (seq : UInt64) : Label where
  x := 20
  y := 5
  text := toString seq.toNat
  fg := Palette.white
  bg := none
  fontPx := 15

def drawNumber (window : Window) (sprite : UInt32) (s : Surface) (n : DamageNumber) :
    Except Overflow Surface := do
  let some p ← n.positionIn window sprite | return s
  let fontPx := DamageNumber.fontPx sprite
  let y ← Word.minus p.y fontPx.toInt32
  return s.pushLabel
    { x := p.x, y, text := toString n.value.toInt, fg := Palette.damage, bg := none, fontPx }

/-- The thickness of the outline. -/
def outlineWidth : UInt32 := 3

def drawOutline (window : Window) (sprite : UInt32) (s : Surface) (r : TileRect) :
    Except Overflow Surface := do
  let line := outlineWidth.toInt32
  let x ← Word.minus (← Word.times (← Word.minus r.x window.startX) sprite.toInt32) line
  let y ← Word.minus (← Word.times (← Word.minus r.y window.startY) sprite.toInt32) line
  s.strokeRect x y (Word.timesSat r.width sprite) (Word.timesSat r.height sprite) outlineWidth
    Palette.outline

/-- The outline of the tracked view and the line at the left edge. -/
def drawBorders (o : Overlay) (window : Window) (sprite : UInt32) (s : Surface) :
    Except Overflow Surface := do
  let s ← match o.tracked with
    | none => pure s
    | some r => drawOutline window sprite s r
  return s.fillRect 0 0 1 2000 Palette.black

/-- Draws everything on top of the tiles. -/
def draw (o : Overlay) (view : View) (window : Window) (sprite : UInt32) (s : Surface) :
    Except Overflow Surface := do
  let s ← o.creatures.foldlM (drawCreature view window sprite) s
  let s := s.pushLabel (seqLabel o.seq)
  let s ← o.numbers.foldlM (drawNumber window sprite) s
  match view with
  | .world => drawBorders o window sprite s
  | .follow => return s

end Overlay

end TileViewer
