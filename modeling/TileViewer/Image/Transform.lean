import TileViewer.Image
import TileViewer.Tile

/-! Images made from images: other sizes by the nearest pixel, and clockwise turns. -/
namespace TileViewer

namespace Image

/-- Which of `source` pixels is shown at place `i` of `target`: the middle of the place, scaled in
single precision and rounded down. -/
def nearest (i : Nat) (source target : UInt32) : Nat :=
  let ratio := source.toFloat32 / target.toFloat32
  let place := (i.toUInt32.toFloat32 + 0.5) * ratio
  min place.toUInt32.toNat (source.toNat - 1)

/-- The image on a square of side `side`. An image without pixels becomes an untouched square. -/
def scale (img : Image) (side : UInt32) : Image :=
  if img.width = side ∧ img.height = side then img
  else if img.width = 0 ∨ img.height = 0 then blank side side
  else ofFn side side fun x y =>
    img.pixelD (nearest x img.width side) (nearest y img.height side)

/-- The image turned clockwise. -/
def rotate (img : Image) : Rotation → Image
  | .none => img
  | .quarter => ofFn img.height img.width fun x y => img.pixelD y (img.height.toNat - 1 - x)
  | .half => ofFn img.width img.height fun x y =>
    img.pixelD (img.width.toNat - 1 - x) (img.height.toNat - 1 - y)
  | .threeQuarters => ofFn img.height img.width fun x y => img.pixelD (img.width.toNat - 1 - y) x

end Image

end TileViewer
