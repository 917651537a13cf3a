import TileViewer.Frame
import TileViewer.Json.Printer
import TileViewer.Json.Record

/-!
Frames as the server writes them, and the frames they stand for. A frame is refused if its view is
too large, a patch is larger than the view, or a layer is not an image with an optional right angle.
-/
namespace TileViewer

/-- A layer as numbers: the image, then the angle. -/
abbrev LayerMessage := List Int64

structure PatchMessage where
  x : Int32
  y : Int32
  width : UInt32
  height : UInt32
  cells : List (List LayerMessage)
  deriving DecidableEq, Repr

namespace PatchMessage

def ofJson? (v : Json) : Option PatchMessage := do
  let r ← Json.Record.ofJson? ["x", "y", "w", "h", "data"] v
  let x ← r.required? "x" Json.word?
  let y ← r.required? "y" Json.word?
  let width ← r.required? "w" Json.word?
  let height ← r.required? "h" Json.word?
  let cells ← r.withDefault? "data" [] (Json.list? (Json.list? (Json.list? Json.word?)))
  return { x, y, width, height, cells }

def toJson (p : PatchMessage) : Json :=
  .ofFields [("x", .ofInt p.x.toInt), ("y", .ofInt p.y.toInt), ("w", .ofInt p.width.toNat),
    ("h", .ofInt p.height.toNat),
    ("data", .array (p.cells.map fun stack => .array (stack.map fun layer =>
      .array (layer.map fun n => .ofInt n.toInt))))]

end PatchMessage

namespace Creature

/-- Exactly two coordinates. -/
def position? : Json → Option (Int32 × Int32)
  | .array [x, y] => do return (← x.word?, ← y.word?)
  | _ => none

def ofJson? (v : Json) : Option Creature := do
  let r ← Json.Record.ofJson? ["position", "hp", "maxHp", "username"] v
  let (x, y) ← r.required? "position" position?
  let hp ← r.required? "hp" Json.word?
  let maxHp ← r.required? "maxHp" Json.word?
  let name ← r.withDefault? "username" none (Json.nullable? Json.text?)
  return { x, y, hp, maxHp, name }

def toJson (c : Creature) : Json :=
  .ofFields [("position", .array [.ofInt c.x.toInt, .ofInt c.y.toInt]), ("hp", .ofInt c.hp.toInt),
    ("maxHp", .ofInt c.maxHp.toInt), ("username", .ofOption .ofText c.name)]

end Creature

structure FrameMessage where
  frame : UInt64
  viewX : Int32
  viewY : Int32
  viewWidth : UInt32
  viewHeight : UInt32
  full : Bool
  patches : List PatchMessage
  creatures : List Creature
  ticks : Option UInt64
  deriving DecidableEq, Repr

/-- Why a frame is refused. -/
inductive FrameFault
  | viewTooLarge (width height : UInt32)
  | patchTooLarge (width height viewWidth viewHeight : UInt32)
  | emptyLayer
  | badImage (id : Int64)
  | badRotation (degrees : Int64)
  deriving DecidableEq, Repr

def FrameFault.reason : FrameFault → String
  | .viewTooLarge w h => s!"view {w.toNat}x{h.toNat} too large"
  | .patchTooLarge w h vw vh =>
    s!"rect {w.toNat}x{h.toNat} larger than view {vw.toNat}x{vh.toNat}"
  | .emptyLayer => "empty layer"
  | .badImage id => s!"bad image id {id.toInt}"
  | .badRotation degrees => s!"bad rotation {degrees.toInt}"

/-- A frame that is refused, by its sequence number. -/
structure MalformedFrame where
  seq : UInt64
  fault : FrameFault
  deriving DecidableEq, Repr

def MalformedFrame.message (m : MalformedFrame) : String :=
  s!"malformed frame {m.seq.toNat}: {m.fault.reason}"

namespace LayerMessage

/-- The layer that numbers stand for. Numbers after the angle count for nothing. -/
def decode : LayerMessage → Except FrameFault Layer
  | [] => .error .emptyLayer
  | id :: rest =>
    match (Word.fit .add id.toInt : Except Overflow UInt32), rest with
    | .error _, _ => .error (.badImage id)
    | .ok image, [] => .ok { image }
    | .ok image, degrees :: _ =>
      match Rotation.ofDegrees? degrees.toInt with
      | none => .error (.badRotation degrees)
      | some rotation => .ok { image, rotation }

end LayerMessage

namespace PatchMessage

/-- The patch of a view of the given size. -/
def decode (viewWidth viewHeight : UInt32) (p : PatchMessage) : Except FrameFault Patch := do
  if viewWidth < p.width ∨ viewHeight < p.height then
    throw (.patchTooLarge p.width p.height viewWidth viewHeight)
  let cells ← p.cells.mapM fun stack => stack.mapM LayerMessage.decode
  return ⟨p.x, p.y, p.width, p.height, cells⟩

end PatchMessage

namespace FrameMessage

def ofJson? (v : Json) : Option FrameMessage := do
  let r ← Json.Record.ofJson? ["frame", "currWorldPosX", "currWorldPosY", "currViewWidth",
    "currViewHeight", "fullSent", "frameData", "creatures", "gameTicks"] v
  let frame ← r.required? "frame" Json.word?
  let viewX ← r.required? "currWorldPosX" Json.word?
  let viewY ← r.required? "currWorldPosY" Json.word?
  let viewWidth ← r.required? "currViewWidth" Json.word?
  let viewHeight ← r.required? "currViewHeight" Json.word?
  let full ← r.withDefault? "fullSent" false Json.bool?
  let patches ← r.withDefault? "frameData" [] (Json.list? PatchMessage.ofJson?)
  let creatures ← r.withDefault? "creatures" [] (Json.list? Creature.ofJson?)
  let ticks ← r.withDefault? "gameTicks" none (Json.nullable? Json.word?)
  return { frame, viewX, viewY, viewWidth, viewHeight, full, patches, creatures, ticks }

def toJson (m : FrameMessage) : Json :=
  .ofFields [("frame", .ofInt m.frame.toNat), ("currWorldPosX", .ofInt m.viewX.toInt),
    ("currWorldPosY", .ofInt m.viewY.toInt), ("currViewWidth", .ofInt m.viewWidth.toNat),
    ("currViewHeight", .ofInt m.viewHeight.toNat), ("fullSent", .bool m.full),
    ("frameData", .array (m.patches.map PatchMessage.toJson)),
    ("creatures", .array (m.creatures.map Creature.toJson)),
    ("gameTicks", .ofOption (fun t => .ofInt t.toNat) m.ticks)]

/-- The longest side of a view, in tiles. -/
def maxViewSide : UInt32 := 1024

/-- What is wrong with the frame is found from the outside in: the view, then one patch after the
other, each with its size before its layers. -/
def contents (m : FrameMessage) : Except FrameFault Frame := do
  if maxViewSide < m.viewWidth ∨ maxViewSide < m.viewHeight then
    throw (.viewTooLarge m.viewWidth m.viewHeight)
  let patches ← m.patches.mapM (PatchMessage.decode m.viewWidth m.viewHeight)
  return { seq := m.frame, viewX := m.viewX, viewY := m.viewY, viewWidth := m.viewWidth
           viewHeight := m.viewHeight, patches, creatures := m.creatures, full := m.full
           ticks := m.ticks }

/-- The frame that a message stands for. -/
def decode (m : FrameMessage) : Except MalformedFrame Frame :=
  m.contents.mapError fun fault => { seq := m.frame, fault }

end FrameMessage

end TileViewer
