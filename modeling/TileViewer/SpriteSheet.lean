import Std.Data.HashMap
import TileViewer.Image.Transform

/-!
The images that tiles are drawn with. An image that is not turned is scaled once and kept; a turned
one is made anew each time.
-/
namespace TileViewer

structure SpriteSheet where
  sprite : UInt32
  images : Std.HashMap UInt32 Image := ∅
  scaled : Std.HashMap UInt32 Image := ∅

namespace SpriteSheet

def ofSprite (sprite : UInt32) : SpriteSheet := { sprite := max sprite 1 }

def size (s : SpriteSheet) : Nat := s.images.size

def isEmpty (s : SpriteSheet) : Bool := s.images.isEmpty

def contains (s : SpriteSheet) (id : UInt32) : Bool := s.images.contains id

/-- How many scaled images are kept. -/
def scaledSize (s : SpriteSheet) : Nat := s.scaled.size

/-- Sets the image of an id, in place of any earlier one. -/
def insert (s : SpriteSheet) (id : UInt32) (img : Image) : SpriteSheet :=
  { s with images := s.images.insert id img, scaled := s.scaled.erase id }

/-- Lets go of the scaled images. -/
def forgetScaled (s : SpriteSheet) : SpriteSheet := { s with scaled := ∅ }

/-- The image to draw for an id, if the id is known, and the sheet that remembers it. -/
def tile (s : SpriteSheet) (id : UInt32) (rotation : Rotation) : Option Image × SpriteSheet :=
  match rotation with
  | .none =>
    match s.scaled[id]? with
    | some img => (some img, s)
    | none =>
      match s.images[id]? with
      | none => (none, s)
      | some source =>
        let img := source.scale s.sprite
        (some img, { s with scaled := s.scaled.insert id img })
  | turn => (s.images[id]?.map fun source => (source.scale s.sprite).rotate turn, s)

end SpriteSheet

end TileViewer
