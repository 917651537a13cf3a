/-! The keys of the viewer and what they do. -/
namespace TileViewer

inductive KeyCode
  | char (c : Char)
  | escape
  | enter
  | backspace
  | tab
  | left
  | function (n : Nat)
  | null
  deriving DecidableEq, Repr

structure KeyPress where
  code : KeyCode
  control : Bool := false
  shift : Bool := false
  alt : Bool := false
  deriving DecidableEq, Repr

inductive Action
  | quit
  /-- Drop the connection and start over. -/
  | reconnect
  /-- Write the whole terminal anew. -/
  | redraw
  deriving DecidableEq, Repr

/-- What a key does, if anything. With the control key `c` and `l` have meanings of their own;
otherwise other keys held down make no difference. -/
def KeyPress.action? (k : KeyPress) : Option Action :=
  match k.code, k.control with
  | .char 'c', true => some .quit
  | .char 'l', true => some .redraw
  | .char 'q', _ | .char 'Q', _ | .escape, _ => some .quit
  | .char 'r', _ | .char 'R', _ => some .reconnect
  | _, _ => none

end TileViewer
