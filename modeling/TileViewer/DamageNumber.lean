import TileViewer.Random
import TileViewer.Window
import TileViewer.Word

/-!
Numbers that rise from a hit. A hit waits until its frame is reached, then becomes a number that
drifts in a random direction and is drawn ten times.
-/
namespace TileViewer

/-- A hit that belongs to a frame. -/
structure Hit where
  x : Int32
  y : Int32
  frame : UInt64
  damage : Int64
  deriving DecidableEq, Repr

/-- A number on its way, `age` drawings old. -/
structure DamageNumber where
  worldX : Int32
  worldY : Int32
  age : UInt32
  velocityX : Int32
  velocityY : Int32
  offsetX : Int32
  offsetY : Int32
  value : Int64
  deriving DecidableEq, Repr

namespace DamageNumber

/-- How often a number is drawn. -/
def lifetime : UInt32 := 10

/-- Pixels travelled at each drawing, for each unit of velocity. -/
def stride : Int32 := 5

def fontPx (sprite : UInt32) : UInt32 := if sprite < 10 then 10 else 20

/-- The speed of the numbers for a size of sprites. -/
def speedFor (sprite : UInt32) : Except Overflow Int32 := do
  let scaled ← Word.times 7 (if 10 < sprite then sprite else 5)
  return (scaled / 22).toInt32

/-- A number that has just left its hit. The speed is below 2²⁸, so its opposite is exact too. -/
def ofHit (hit : Hit) (speed : Int32) (direction : Direction) : DamageNumber where
  worldX := hit.x
  worldY := hit.y
  age := 0
  velocityX := speed * direction.step.1
  velocityY := speed * direction.step.2
  offsetX := 0
  offsetY := 0
  value := hit.damage

/-- One drawing later. -/
def advance (n : DamageNumber) : Except Overflow DamageNumber := do
  let age ← Word.plus n.age 1
  let offsetX ← Word.plus n.offsetX (← Word.times n.velocityX stride)
  let offsetY ← Word.plus n.offsetY (← Word.times n.velocityY stride)
  return { n with age, offsetX, offsetY }

/-- Where the number is drawn, from the window's top left pixel. Nothing is drawn for a hit outside
the window, or past the right or bottom edge. -/
def positionIn (n : DamageNumber) (window : Window) (sprite : UInt32) :
    Except Overflow (Option Point) := do
  let some (column, row) ← window.local? n.worldX n.worldY | return none
  let (width, height) := window.sizePx sprite
  let x ← Word.plus (← Word.times column.toInt32 sprite.toInt32) n.offsetX
  let y ← Word.plus (← Word.times row.toInt32 sprite.toInt32) n.offsetY
  return if width.toInt32 ≤ x ∨ height.toInt32 ≤ y then none else some ⟨x, y⟩

end DamageNumber

/-- Hits that wait for their frame, and the numbers being drawn. -/
structure DamageNumbers where
  waiting : List Hit := []
  live : List DamageNumber := []
  random : Random
  speed : Int32
  deriving DecidableEq, Repr

namespace DamageNumbers

def ofSeed (sprite seed : UInt32) : Except Overflow DamageNumbers := do
  let speed ← DamageNumber.speedFor sprite
  return { random := Random.ofSeed seed, speed }

/-- No hits and no numbers, and the directions of the seed from the start. -/
def restart (d : DamageNumbers) (seed : UInt32) : DamageNumbers :=
  { random := Random.ofSeed seed, speed := d.speed }

def queue (d : DamageNumbers) (hits : List Hit) : DamageNumbers :=
  { d with waiting := d.waiting ++ hits }

/-- Brings the last element to the front. -/
def lastFirst {α : Type} (xs : List α) : List α := xs.getLast?.toList ++ xs.dropLast

theorem lastFirst_perm {α : Type} (xs : List α) : (lastFirst xs).Perm xs := by
  rcases List.eq_nil_or_concat xs with rfl | ⟨ys, y, rfl⟩
  · rfl
  · simpa [lastFirst] using (List.perm_append_singleton y ys).symm

/-- Splits the hits into those that still wait and the numbers of those that are due, drawing one
direction for each. The place of a hit that leaves is taken by the last one in line. -/
def split (speed : Int32) (seq : UInt64) (hits : List Hit) (random : Random) :
    List Hit × List DamageNumber × Random :=
  match hits with
  | [] => ([], [], random)
  | hit :: rest =>
    if hit.frame ≤ seq then
      let (direction, random) := random.direction
      let (waiting, released, random) := split speed seq (lastFirst rest) random
      (waiting, DamageNumber.ofHit hit speed direction :: released, random)
    else
      let (waiting, released, random) := split speed seq rest random
      (hit :: waiting, released, random)
termination_by hits.length
decreasing_by
  · simp [(lastFirst_perm rest).length_eq]
  · simp

/-- Releases every hit whose frame has been reached, and counts them. -/
def release (d : DamageNumbers) (seq : UInt64) : Nat × DamageNumbers :=
  let (waiting, released, random) := split d.speed seq d.waiting d.random
  (released.length, { d with waiting, live := d.live ++ released, random })

/-- Moves every live number and gives the ones to draw; those drawn for the last time are gone
afterwards. -/
def advance (d : DamageNumbers) : Except Overflow (List DamageNumber × DamageNumbers) := do
  let drawn ← d.live.mapM DamageNumber.advance
  return (drawn, { d with live := drawn.filter (·.age < DamageNumber.lifetime) })

def clear (d : DamageNumbers) : DamageNumbers := { d with waiting := [], live := [] }

end DamageNumbers

end TileViewer
