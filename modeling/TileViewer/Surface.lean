import TileViewer.Image
import TileViewer.Word

/-!
What is shown: pixels, and lines of text that are carried beside the pixels. Whoever shows the
surface writes the text, so a copy taken without labels takes no text along.
-/
namespace TileViewer

/-- A line of text with its top left corner. -/
structure Label where
  x : Int32
  y : Int32
  text : String
  fg : Color
  bg : Option Color
  fontPx : UInt32
  deriving DecidableEq, Repr

structure Surface where
  image : Image
  labels : Array Label := #[]

namespace Surface

def blank (width height : UInt32) : Surface := { image := Image.blank width height }

def width (s : Surface) : UInt32 := s.image.width

def height (s : Surface) : UInt32 := s.image.height

/-- A surface of another size starts untouched; the same size changes nothing. -/
def resize (s : Surface) (width height : UInt32) : Surface :=
  if s.width = width ∧ s.height = height then s else blank width height

/-- One colour everywhere, and no text. -/
def fill (s : Surface) (c : Color) : Surface := { image := Image.filled s.width s.height c }

/-- Colours the pixels of a rectangle that lie on the surface. -/
def fillRect (s : Surface) (x y : Int32) (width height : UInt32) (c : Color) : Surface :=
  { s with
    image := s.image.paint x.toInt.toNat y.toInt.toNat (x.toInt + width.toNat).toNat
      (y.toInt + height.toNat).toNat fun _ _ _ => c }

/-- Draws the border of a rectangle, `line` pixels thick, inside the rectangle. -/
def strokeRect (s : Surface) (x y : Int32) (width height line : UInt32) (c : Color) :
    Except Overflow Surface :=
  let line := min (min line width) height
  if line = 0 then .ok s
  else do
    let s := s.fillRect x y width line c
    let s := s.fillRect x (← Word.plus y (height - line).toInt32) width line c
    let s := s.fillRect x y line height c
    return s.fillRect (← Word.plus x (width - line).toInt32) y line height c

/-- Lays an image over the surface with its top left corner at `(x, y)`. -/
def drawImage (s : Surface) (img : Image) (x y : Int32) : Surface :=
  { s with
    image := s.image.paint x.toInt.toNat y.toInt.toNat (x.toInt + img.width.toNat).toNat
      (y.toInt + img.height.toNat).toNat fun px py under =>
        (img.pixelD (px - x.toInt).toNat (py - y.toInt).toNat).onto under }

/-- The labels of a window that begins at `(x, y)`, moved along with it. A label stays if it begins
above the bottom edge, left of the right edge and not above the top. -/
def labelsFrom (s : Surface) (x y width height : UInt32) : Except Overflow (Array Label) :=
  s.labels.foldlM (fun kept label => do
    let lx ← Word.minus label.x x.toInt32
    let ly ← Word.minus label.y y.toInt32
    return if lx < width.toInt32 ∧ ly < height.toInt32 ∧ 0 ≤ ly then
      kept.push { label with x := lx, y := ly }
    else kept) #[]

/-- Copies a window of `source`, as large as this surface and beginning at `(x, y)`, onto this
surface. Where `source` ends early the old pixels stay. -/
def blitWindow (s source : Surface) (x y : UInt32) : Except Overflow Surface := do
  let labels ← source.labelsFrom x y s.width s.height
  let image := s.image.paint 0 0 (source.width.toNat - x.toNat) (source.height.toNat - y.toNat)
    fun px py _ => source.image.pixelD (px + x.toNat) (py + y.toNat)
  return { image, labels }

def pushLabel (s : Surface) (label : Label) : Surface :=
  { s with labels := s.labels.push label }

end Surface

end TileViewer
