import TileViewer.Json.Token

/-!
Values from tokens. The reader goes through the tokens once and keeps the containers that are still
open on a stack, so that values may be nested to any depth.
-/
namespace TileViewer

namespace Json

/-- An open container: the finished items of an array, or the finished members of an object and the
key whose value is being read. Both lists have the last element first. -/
inductive Enclosing
  | array (items : List Json)
  | object (members : List (Literal × Json)) (key : Literal)

/-- What has been read, and so what may come next. The list holds the open containers, innermost
first, without the one named by the constructor. -/
inductive ReadState
  | value (open_ : List Enclosing)
  | itemOrEnd (open_ : List Enclosing)
  | afterItem (items : List Json) (open_ : List Enclosing)
  | keyOrEnd (open_ : List Enclosing)
  | nextKey (members : List (Literal × Json)) (open_ : List Enclosing)
  | colon (members : List (Literal × Json)) (key : Literal) (open_ : List Enclosing)
  | afterMember (members : List (Literal × Json)) (open_ : List Enclosing)
  | done (v : Json)

namespace ReadState

/-- A value is complete and becomes part of the innermost open container. -/
def deliver (v : Json) : List Enclosing → ReadState
  | [] => done v
  | .array items :: outer => afterItem (v :: items) outer
  | .object members key :: outer => afterMember ((key, v) :: members) outer

/-- A value begins with this token. -/
def begin? (outer : List Enclosing) : Token → Option ReadState
  | .scalar s => some (deliver (.scalar s) outer)
  | .openArray => some (itemOrEnd outer)
  | .openObject => some (keyOrEnd outer)
  | _ => none

def step? : ReadState → Token → Option ReadState
  | value outer, t => begin? outer t
  | itemOrEnd outer, .closeArray => some (deliver (.array []) outer)
  | itemOrEnd outer, t => begin? (.array [] :: outer) t
  | afterItem items outer, .comma => some (value (.array items :: outer))
  | afterItem items outer, .closeArray => some (deliver (.array items.reverse) outer)
  | keyOrEnd outer, .closeObject => some (deliver (.object []) outer)
  | keyOrEnd outer, .scalar (.string k) => some (colon [] k outer)
  | nextKey members outer, .scalar (.string k) => some (colon members k outer)
  | colon members k outer, .colon => some (value (.object members k :: outer))
  | afterMember members outer, .comma => some (nextKey members outer)
  | afterMember members outer, .closeObject => some (deliver (.object members.reverse) outer)
  | _, _ => none

end ReadState

/-- The value that a list of tokens spells. -/
def ofTokens? (ts : List Token) : Option Json :=
  match ts.foldlM ReadState.step? (.value []) with
  | some (.done v) => some v
  | _ => none

/-- The value that a text spells. -/
def read? (text : String) : Option Json := (Token.read? text.toList).bind ofTokens?

end Json

end TileViewer
