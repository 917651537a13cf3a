import TileViewer.Json.Meaning

/-!
Typed values from JSON. A record is an object, whose members may come in any order and among
others, or an array of its fields in their declared order, which may end early.
-/
namespace TileViewer

namespace Json

def text? : Json → Option String
  | .scalar (.string s) => s.text?
  | _ => none

def bool? : Json → Option Bool
  | .scalar (.bool b) => some b
  | _ => none

def word? {α : Type} [Word α] : Json → Option α
  | .scalar (.number n) => n.word?
  | _ => none

def float? : Json → Option Float
  | .scalar (.number n) => n.float?
  | _ => none

def list? {α : Type} (f : Json → Option α) : Json → Option (List α)
  | .array items => items.mapM f
  | _ => none

/-- Null, or a value. -/
def nullable? {α : Type} (f : Json → Option α) : Json → Option (Option α)
  | .scalar .null => some none
  | v => (f v).map some

/-- What is known of a record's fields: whether they were listed by position, and the value of each
field that was given. -/
structure Record where
  byPosition : Bool
  fields : List (String × Json)

namespace Record

/-- The members of an object whose keys are fields. Every key has to mean something, and no field
may be given twice. -/
def ofMembers? (names : List String) (members : List (Literal × Json)) : Option Record := do
  let keyed ← members.mapM fun (k, v) => k.text?.map fun name => (name, v)
  let fields := keyed.filter fun (name, _) => names.contains name
  if (fields.map Prod.fst).Nodup then some { byPosition := false, fields } else none

/-- The fields of a record, whose names are given in their declared order. -/
def ofJson? (names : List String) : Json → Option Record
  | .object members => ofMembers? names members
  | .array items =>
    if items.length ≤ names.length then some { byPosition := true, fields := names.zip items }
    else none
  | .scalar _ => none

/-- A field that must be there. -/
def required? {α : Type} (r : Record) (name : String) (f : Json → Option α) : Option α :=
  (r.fields.lookup name).bind f

/-- A field that may be null, and may be left out where fields have names. -/
def optional? {α : Type} (r : Record) (name : String) (f : Json → Option α) :
    Option (Option α) :=
  match r.fields.lookup name with
  | some v => nullable? f v
  | none => if r.byPosition then none else some none

/-- A field that has the value `d` if it is left out. -/
def withDefault? {α : Type} (r : Record) (name : String) (d : α) (f : Json → Option α) :
    Option α :=
  match r.fields.lookup name with
  | some v => f v
  | none => some d

end Record

end Json

end TileViewer
