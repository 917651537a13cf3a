/-! Colours with an alpha channel, and laying one over another. -/
namespace TileViewer

structure Color where
  r : UInt8
  g : UInt8
  b : UInt8
  a : UInt8
  deriving DecidableEq, Repr, Inhabited

namespace Color

/-- A colour that covers what is below it. -/
def rgb (r g b : UInt8) : Color := ⟨r, g, b, 255⟩

/-- The colour of an untouched pixel. -/
def clear : Color := ⟨0, 0, 0, 0⟩

/-- A channel as a number between zero and one. -/
def unit (c : UInt8) : Float32 := c.toFloat32 / 255.0

/-- `top` over `under`, in single precision. A fully covering colour replaces the one below, a
fully transparent one leaves it. -/
def onto (top under : Color) : Color :=
  if top.a = 0 then under
  else if top.a = 255 then top
  else
    let ta := unit top.a
    let ua := unit under.a
    let alpha := ua + ta - ua * ta
    if alpha == 0.0 then under
    else
      let channel (t u : UInt8) : UInt8 :=
        (255.0 * ((unit t * ta + unit u * ua * (1.0 - ta)) / alpha)).toUInt8
      ⟨channel top.r under.r, channel top.g under.g, channel top.b under.b, (255.0 * alpha).toUInt8⟩

end Color

end TileViewer
