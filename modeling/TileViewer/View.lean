/-! The two ways of watching the game and their names, and a part of the world to watch. -/
namespace TileViewer

/-- A fixed camera over the whole world, or a camera that follows one agent. -/
inductive View
  | world
  | follow
  deriving DecidableEq, Repr, Inhabited

namespace View

/-- The name the server uses. -/
def wireName : View → String
  | .world => "SERVER_VIEW_WORLD"
  | .follow => "SERVER_VIEW_FOLLOW"

def ofWireName? (s : String) : Option View :=
  if s = wireName .world then some .world
  else if s = wireName .follow then some .follow
  else none

/-- A name typed by a person: `world` or `follow` in any case, or the server's exact name.
ASCII folding is enough, since no other letter has a lower case made of these letters. -/
def ofName? (s : String) : Option View :=
  let folded := s.map Char.toLower
  if folded = "world" then some .world
  else if folded = "follow" then some .follow
  else ofWireName? s

theorem ofWireName?_wireName (v : View) : ofWireName? v.wireName = some v := by
  cases v <;> rfl

end View

/-- A rectangle in world tiles. -/
structure TileRect where
  x : Int32
  y : Int32
  width : UInt32
  height : UInt32
  deriving DecidableEq, Repr

end TileViewer
