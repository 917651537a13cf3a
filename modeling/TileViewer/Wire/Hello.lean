import TileViewer.Json.Printer
import TileViewer.Json.Record
import TileViewer.View

/-! The one message a viewer sends: who it is and what it wants to see. -/
namespace TileViewer

structure Hello where
  uuid : String
  username : Option String
  password : Option String
  viewType : String
  deriving DecidableEq, Repr

namespace Hello

def ofView (uuid : String) (username password : Option String) (view : View) : Hello :=
  { uuid, username, password, viewType := view.wireName }

/-- The name of this kind of message. -/
def typeName : String := "JsonBrowserConnect"

/-- The kind of message, by its name or as an object with that one key and no value. -/
def type? : Json → Option Unit
  | .scalar (.string s) => if s.text? = some typeName then some () else none
  | .object [(k, .scalar .null)] => if k.text? = some typeName then some () else none
  | _ => none

def ofJson? (v : Json) : Option Hello := do
  let r ← Json.Record.ofJson? ["type", "uuid", "username", "password", "viewType"] v
  let _ ← r.withDefault? "type" () type?
  let uuid ← r.required? "uuid" Json.text?
  let username ← r.optional? "username" Json.text?
  let password ← r.optional? "password" Json.text?
  let viewType ← r.required? "viewType" Json.text?
  return { uuid, username, password, viewType }

def toJson (h : Hello) : Json :=
  .ofFields [("type", .ofText typeName), ("uuid", .ofText h.uuid),
    ("username", .ofOption .ofText h.username), ("password", .ofOption .ofText h.password),
    ("viewType", .ofText h.viewType)]

/-- The message as a line, with its end. -/
def line (h : Hello) : String := h.toJson.render ++ "\n"

end Hello

end TileViewer
