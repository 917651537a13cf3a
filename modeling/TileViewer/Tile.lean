/-! What one world cell shows: a stack of images, bottom first, each turned by right angles. -/
namespace TileViewer

/-- A clockwise turn by right angles. -/
inductive Rotation
  | none
  | quarter
  | half
  | threeQuarters
  deriving DecidableEq, Repr, Inhabited

namespace Rotation

def degrees : Rotation → Nat
  | .none => 0
  | .quarter => 90
  | .half => 180
  | .threeQuarters => 270

def ofDegrees? : Int → Option Rotation
  | 0 => some .none
  | 90 => some .quarter
  | 180 => some .half
  | 270 => some .threeQuarters
  | _ => Option.none

theorem ofDegrees?_eq_some_iff {d : Int} {r : Rotation} :
    ofDegrees? d = some r ↔ d = r.degrees := by
  constructor
  · intro h
    unfold ofDegrees? at h
    split at h <;> cases h <;> rfl
  · rintro rfl
    cases r <;> rfl

end Rotation

/-- One image of a cell. -/
structure Layer where
  image : UInt32
  rotation : Rotation := .none
  deriving DecidableEq, Repr

/-- The images of a cell, bottom first. -/
abbrev LayerStack := List Layer

end TileViewer
