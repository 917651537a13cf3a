import Mathlib.Data.List.Induction
import TileViewer.Proofs.Picture.Sheet

/-!
A sheet over a whole history of uses. Whatever was asked for and forgotten in between, it gives out
the image that an id was given last, scaled and turned.
-/
namespace TileViewer.SpriteSheet

variable {s : SpriteSheet} {sprite id : UInt32} {uses : List Use}

/-- One use of a sheet. -/
inductive Use
  | insert (id : UInt32) (img : Image)
  | ask (id : UInt32) (turn : Rotation)
  | forget

namespace Use

/-- The image that a use gives to an id. -/
def image? (id : UInt32) : Use → Option Image
  | .insert other img => if other = id then some img else none
  | _ => none

def isInsert : Use → Bool
  | .insert _ _ => true
  | _ => false

theorem image?_eq_none_iff {u : Use} : u.image? id = none ↔ ∀ img, u ≠ .insert id img := by
  cases u with
  | insert other img =>
    by_cases h : other = id
    · simp [image?, h]
    · simp [image?, h]
  | ask other turn => simp [image?]
  | forget => simp [image?]

end Use

def use (s : SpriteSheet) : Use → SpriteSheet
  | .insert id img => s.insert id img
  | .ask id turn => (s.tile id turn).2
  | .forget => s.forgetScaled

/-- A sheet that begins empty, after some uses. -/
def used (sprite : UInt32) (uses : List Use) : SpriteSheet := uses.foldl use { sprite }

/-- The image that an id was given last. -/
def latest (uses : List Use) (id : UInt32) : Option Image :=
  (uses.filterMap (Use.image? id)).getLast?

theorem latest_concat (uses : List Use) (u : Use) (id : UInt32) :
    latest (uses ++ [u]) id = (u.image? id).or (latest uses id) := by
  rw [latest, List.filterMap_append]
  cases h : u.image? id with
  | none => simp [h, latest]
  | some img => simp [h]

theorem latest_filter (uses : List Use) (id : UInt32) :
    latest (uses.filter Use.isInsert) id = latest uses id := by
  rw [latest, List.filterMap_filter, latest]
  congr 2
  funext u
  cases u <;> rfl

theorem latest_eq_none_iff : latest uses id = none ↔ ∀ img, .insert id img ∉ uses := by
  rw [latest, List.getLast?_eq_none_iff, List.filterMap_eq_nil_iff]
  simp only [Use.image?_eq_none_iff]
  exact ⟨fun h img hmem => h _ hmem img rfl, fun h u hmem img hu => h img (hu ▸ hmem)⟩

/-- A sheet keeps the image given last for each id, and scales none but these. -/
structure Holds (sprite : UInt32) (uses : List Use) (s : SpriteSheet) : Prop where
  builtFor : BuiltFor sprite s
  images : ∀ id : UInt32, s.images[id]? = latest uses id

theorem images_tile (s : SpriteSheet) (id : UInt32) (turn : Rotation) :
    (s.tile id turn).2.images = s.images := by
  have := congrArg images (s.forgetScaled_tile id turn)
  exact this

theorem holds_nil (sprite : UInt32) : Holds sprite [] { sprite } where
  builtFor := ⟨rfl, fun id img h => by simp at h⟩
  images id := by simp [latest]

theorem Holds.use (h : Holds sprite uses s) (u : Use) : Holds sprite (uses ++ [u]) (s.use u) where
  builtFor := by
    cases u with
    | insert id img => exact h.builtFor.insert id img
    | ask id turn => exact h.builtFor.tile id turn
    | forget => exact h.builtFor.forgetScaled
  images id := by
    rw [latest_concat, ← h.images]
    cases u with
    | insert other img =>
      simp only [SpriteSheet.use, SpriteSheet.insert, Std.HashMap.getElem?_insert, Use.image?,
        beq_iff_eq]
      split <;> rfl
    | ask other turn =>
      rw [SpriteSheet.use, images_tile]
      rfl
    | forget => rfl

theorem holds_used (sprite : UInt32) (uses : List Use) : Holds sprite uses (used sprite uses) := by
  induction uses using List.reverseRecOn with
  | nil => exact holds_nil sprite
  | append_singleton uses u ih =>
    rw [used, List.foldl_append]
    exact ih.use u

theorem BuiltFor.scaledSize_le (h : BuiltFor sprite s) : s.scaledSize ≤ s.size := by
  have hnodup : s.scaled.keys.Nodup :=
    s.scaled.distinct_keys.imp fun hne heq => ne_of_beq_false hne heq
  have hsub : s.scaled.keys ⊆ s.images.keys := by
    intro id hid
    rw [Std.HashMap.mem_keys, Std.HashMap.mem_iff_isSome_getElem?] at hid ⊢
    obtain ⟨img, himg⟩ := Option.isSome_iff_exists.1 hid
    obtain ⟨source, hsource, -⟩ := h.scaled id img himg
    exact Option.isSome_iff_exists.2 ⟨source, hsource⟩
  calc s.scaledSize = s.scaled.keys.length := Std.HashMap.length_keys.symm
    _ ≤ s.images.keys.length := hnodup.length_le_of_subset hsub
    _ = s.size := Std.HashMap.length_keys

theorem tile_used_eq_latest (sprite : UInt32) (uses : List Use) (id : UInt32) (turn : Rotation) :
    ((used sprite uses).tile id turn).1 =
      (latest uses id).map fun source => (source.scale sprite).rotate turn := by
  have h := holds_used sprite uses
  rw [tile_eq_imageOf h.builtFor, imageOf, h.images, h.builtFor.sprite_eq]

/-- Each image that is given out has the size of the sprites. -/
theorem size_tile_used (sprite : UInt32) (uses : List Use) (id : UInt32) (turn : Rotation) :
    (((used sprite uses).tile id turn).1.map fun img => (img.width, img.height)) =
      (latest uses id).map fun _ => (sprite, sprite) := by
  rw [tile_used_eq_latest, Option.map_map]
  refine congrArg (Option.map · _) (funext fun source => ?_)
  obtain ⟨hwidth, hheight⟩ := Image.size_rotate (source.size_scale sprite) turn
  exact Prod.ext hwidth hheight

/-- However a sheet was used, it gives out the image that an id was given last, scaled to the size
of its sprites and turned, and none exactly if the id was never given one. What was asked for and
when scaled images were forgotten makes no difference, and no more of them are kept than there are
images. -/
theorem used_gives_latest (sprite : UInt32) (uses : List Use) (id : UInt32) (turn : Rotation) :
    ((used sprite uses).tile id turn).1 =
        (latest uses id).map (fun source => (source.scale sprite).rotate turn) ∧
      (((used sprite uses).tile id turn).1.map fun img => (img.width, img.height)) =
        (latest uses id).map (fun _ => (sprite, sprite)) ∧
      (((used sprite uses).tile id turn).1 = none ↔ ∀ img, .insert id img ∉ uses) ∧
      ((used sprite uses).tile id turn).1 =
        ((used sprite (uses.filter Use.isInsert)).tile id turn).1 ∧
      (used sprite uses).scaledSize ≤ (used sprite uses).size := by
  refine ⟨tile_used_eq_latest sprite uses id turn, size_tile_used sprite uses id turn, ?_, ?_, ?_⟩
  · rw [tile_used_eq_latest, Option.map_eq_none_iff, latest_eq_none_iff]
  · rw [tile_used_eq_latest, tile_used_eq_latest, latest_filter]
  · exact (holds_used sprite uses).builtFor.scaledSize_le

end TileViewer.SpriteSheet
