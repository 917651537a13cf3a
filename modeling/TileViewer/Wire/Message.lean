import TileViewer.Json.Reader
import TileViewer.Wire.FrameMessage
import TileViewer.Wire.SideUpdate

/-!
Lines from the server. A line is read for its type first, and then as a message of that type. A
line without a type is a frame.
-/
namespace TileViewer

inductive Message
  | frame (f : Frame)
  | side (u : SideUpdate)
  /-- A message of a type that a viewer has no use for. -/
  | unknown (type : String)

/-- Why a line is no message. -/
inductive MessageFault
  | json
  | malformed (m : MalformedFrame)
  deriving DecidableEq, Repr

namespace Message

def sideType : String := "JsonUpdateBrowserUI"

def frameType : String := "JsonFrameUpdate"

/-- The type of a message, which must be written without backslashes. -/
def type? (v : Json) : Option (Option String) := do
  let r ← Json.Record.ofJson? ["type"] v
  r.optional? "type" fun
    | .scalar (.string s) => if s.isPlain then s.text? else none
    | _ => none

/-- The message of a frame. -/
def ofFrameJson (v : Json) : Except MessageFault Message :=
  match FrameMessage.ofJson? v with
  | none => .error .json
  | some m =>
    match m.decode with
    | .error e => .error (.malformed e)
    | .ok f => .ok (frame f)

def ofJson (v : Json) : Except MessageFault Message :=
  match type? v with
  | none => .error .json
  | some none => ofFrameJson v
  | some (some type) =>
    if type = sideType then
      match SideUpdate.ofJson? v with
      | none => .error .json
      | some u => .ok (side u)
    else if type = frameType then ofFrameJson v
    else .ok (unknown type)

/-- The message of a line. -/
def parse (line : String) : Except MessageFault Message :=
  match Json.read? line with
  | none => .error .json
  | some v => ofJson v

end Message

end TileViewer
