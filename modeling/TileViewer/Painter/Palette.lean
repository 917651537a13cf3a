import TileViewer.Color

/-! The fixed colours of a picture. -/
namespace TileViewer

namespace Palette

def black : Color := .rgb 0 0 0

def white : Color := .rgb 255 255 255

/-- The ground under the tiles. -/
def playArea : Color := .rgb 174 223 101

/-- The strip at the right edge of the world view. -/
def sidebar : Color := .rgb 0x27 0x78 0x2e

/-- The missing part of a health bar. -/
def lostHealth : Color := .rgb 0x66 0x66 0x66

/-- The outline of the tracked view. -/
def outline : Color := .rgb 0 0 0x99

def damage : Color := .rgb 255 0 0

/-- The colour of a health bar at `percent` out of a hundred, from red to green. -/
def health (percent : Nat) : Color :=
  let green := percent * 255 / 100
  let red := 255 - green
  .rgb red.toUInt8 green.toUInt8 (255 - max red green).toUInt8

/-- The health colours, from 0 to 99 percent. -/
def gradient : List Color := (List.range 100).map health

end Palette

end TileViewer
