import TileViewer.SpriteSheet
import TileViewer.Proofs.Picture.Pixels

/-!
The images a sheet gives out. Whatever it remembers, they depend only on the images it was given
and on its sprite size.
-/
namespace TileViewer

namespace Image

@[simp] theorem width_ofFn (w h : UInt32) (f : Nat → Nat → Color) : (ofFn w h f).width = w := rfl

@[simp] theorem height_ofFn (w h : UInt32) (f : Nat → Nat → Color) : (ofFn w h f).height = h := rfl

theorem size_scale (img : Image) (side : UInt32) :
    (img.scale side).width = side ∧ (img.scale side).height = side := by
  unfold scale
  split
  · assumption
  · split <;> exact ⟨rfl, rfl⟩

theorem size_rotate {img : Image} {side : UInt32} (h : img.width = side ∧ img.height = side)
    (turn : Rotation) : (img.rotate turn).width = side ∧ (img.rotate turn).height = side := by
  cases turn <;> simp [rotate, h]

end Image

namespace SpriteSheet

variable {s t : SpriteSheet} {sprite id : UInt32} {turn : Rotation} {img : Image}

/-- A sheet for sprites of one size, each scaled image of which was made from the image of its id.
So is every sheet that began empty. -/
structure BuiltFor (sprite : UInt32) (s : SpriteSheet) : Prop where
  sprite_eq : s.sprite = sprite
  scaled : ∀ (id : UInt32) (img : Image), s.scaled[id]? = some img →
    ∃ source : Image, s.images[id]? = some source ∧ img = source.scale s.sprite

theorem builtFor_ofSprite (sprite : UInt32) : BuiltFor (max sprite 1) (ofSprite sprite) where
  sprite_eq := rfl
  scaled _ _ h := by simp [ofSprite] at h

theorem BuiltFor.insert (h : BuiltFor sprite s) (id : UInt32) (img : Image) :
    BuiltFor sprite (s.insert id img) where
  sprite_eq := h.sprite_eq
  scaled id' img' h' := by
    simp only [SpriteSheet.insert, Std.HashMap.getElem?_erase, Std.HashMap.getElem?_insert] at h' ⊢
    split at h'
    · cases h'
    · next hne =>
      rw [if_neg hne]
      exact h.scaled id' img' h'

theorem BuiltFor.forgetScaled (h : BuiltFor sprite s) : BuiltFor sprite s.forgetScaled where
  sprite_eq := h.sprite_eq
  scaled _ _ h' := by simp [SpriteSheet.forgetScaled] at h'

/-- The image for an id, made anew. -/
def imageOf (s : SpriteSheet) (id : UInt32) (turn : Rotation) : Option Image :=
  s.images[id]?.map fun source => (source.scale s.sprite).rotate turn

theorem tile_eq_imageOf (h : BuiltFor sprite s) (id : UInt32) (turn : Rotation) :
    (s.tile id turn).1 = s.imageOf id turn := by
  unfold tile imageOf
  cases turn with
  | none =>
    cases hs : s.scaled[id]? with
    | some img =>
      obtain ⟨source, hsource, rfl⟩ := h.scaled id img hs
      simp [hsource, Image.rotate]
    | none =>
      cases hi : s.images[id]? <;> simp [Image.rotate]
  | quarter | half | threeQuarters => rfl

theorem BuiltFor.tile (h : BuiltFor sprite s) (id : UInt32) (turn : Rotation) :
    BuiltFor sprite (s.tile id turn).2 := by
  unfold SpriteSheet.tile
  cases turn with
  | none =>
    cases hs : s.scaled[id]? with
    | some img => exact h
    | none =>
      cases hi : s.images[id]? with
      | none => exact h
      | some source =>
        refine ⟨h.sprite_eq, ?_⟩
        intro id' img' h'
        simp only [Std.HashMap.getElem?_insert] at h'
        split at h'
        · next heq =>
          cases h'
          exact ⟨source, (eq_of_beq heq) ▸ hi, rfl⟩
        · exact h.scaled id' img' h'
  | quarter | half | threeQuarters => exact h

theorem forgetScaled_tile (s : SpriteSheet) (id : UInt32) (turn : Rotation) :
    (s.tile id turn).2.forgetScaled = s.forgetScaled := by
  unfold SpriteSheet.tile
  split
  · split
    · rfl
    · split <;> rfl
  · rfl

theorem sprite_congr (h : s.forgetScaled = t.forgetScaled) : s.sprite = t.sprite := by
  have := congrArg sprite h
  exact this

theorem size_imageOf (h : s.imageOf id turn = some img) :
    img.width = s.sprite ∧ img.height = s.sprite := by
  obtain ⟨source, -, rfl⟩ := Option.map_eq_some_iff.1 h
  exact Image.size_rotate (source.size_scale s.sprite) turn

/-- The colour of a pixel of a cell: the images of its stack, bottom first, over `ground`. -/
def stackColor (s : SpriteSheet) (stack : LayerStack) (ground : Color) (dx dy : Nat) : Color :=
  stack.foldl (fun under layer =>
    match s.imageOf layer.image layer.rotation with
    | some img => (img.pixelD dx dy).onto under
    | none => under) ground

/-- Without images only the ground is seen. -/
theorem stackColor_of_no_images (h : ∀ id turn, s.imageOf id turn = none) (stack : LayerStack)
    (ground : Color) (dx dy : Nat) : s.stackColor stack ground dx dy = ground := by
  induction stack with
  | nil => rfl
  | cons layer stack ih =>
    rw [stackColor, List.foldl_cons, h]
    exact ih

/-- A covering image of one colour. -/
theorem stackColor_of_filled {w h : UInt32} {c : Color} {dx dy : Nat}
    (himage : s.imageOf id turn = some (.filled w h c)) (hcover : c.a = 255) (hx : dx < w.toNat)
    (hy : dy < h.toNat) (ground : Color) : s.stackColor [⟨id, turn⟩] ground dx dy = c := by
  simp only [stackColor, List.foldl_cons, List.foldl_nil, himage, Image.pixelD,
    Image.pixel?_filled, hx, hy, and_self, if_true, Option.getD_some, Color.onto, hcover]
  rfl

theorem imageOf_ofSprite (sprite id : UInt32) (turn : Rotation) :
    (ofSprite sprite).imageOf id turn = none := by
  simp [imageOf, ofSprite]

theorem imageOf_insert (s : SpriteSheet) (id other : UInt32) (img : Image) (turn : Rotation) :
    (s.insert id img).imageOf other turn =
      if id = other then some ((img.scale s.sprite).rotate turn) else s.imageOf other turn := by
  simp only [imageOf, insert, Std.HashMap.getElem?_insert, beq_iff_eq]
  split <;> rfl

theorem stackColor_congr (h : s.forgetScaled = t.forgetScaled) : s.stackColor = t.stackColor := by
  have := congrArg stackColor h
  exact this

end SpriteSheet

end TileViewer
