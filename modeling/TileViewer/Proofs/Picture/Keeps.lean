import TileViewer.Proofs.Picture.Board
import TileViewer.Proofs.Picture.Overlay

/-!
What painting leaves alone, whatever the sheet gives out: tiles keep the size and the text of a
picture, and what lies on top keeps its size.
-/
namespace TileViewer

variable {scene : Scene} {scope : Scope} {width height : UInt32}

namespace TilePass

variable {p q t : TilePass} {column row : UInt32} {x y : Int32}

/-- `q` is a picture of the size of `p`, with the text of `p`. -/
structure Keeps (p q : TilePass) : Prop where
  width : q.surface.width = p.surface.width
  height : q.surface.height = p.surface.height
  labels : q.surface.labels = p.surface.labels

theorem Keeps.refl (p : TilePass) : p.Keeps p := ⟨rfl, rfl, rfl⟩

theorem Keeps.trans (h : p.Keeps q) (h' : q.Keeps t) : p.Keeps t :=
  ⟨h'.width.trans h.width, h'.height.trans h.height, h'.labels.trans h.labels⟩

theorem keeps_drawLayer (x y : Int32) (p : TilePass) (layer : Layer) :
    p.Keeps (drawLayer x y p layer) := by
  unfold drawLayer
  split
  · exact ⟨rfl, rfl, rfl⟩
  · exact ⟨rfl, rfl, rfl⟩

theorem keeps_foldl_drawLayer (stack : LayerStack) (p : TilePass) :
    p.Keeps (stack.foldl (drawLayer x y) p) := by
  induction stack generalizing p with
  | nil => exact .refl p
  | cons layer stack ih => exact (keeps_drawLayer x y p layer).trans (ih _)

theorem keeps_drawCell (h : drawCell scene column row x y p = .ok q) : p.Keeps q := by
  obtain ⟨wx, -, h⟩ := bind_eq_ok h
  obtain ⟨wy, -, h⟩ := bind_eq_ok h
  cases h
  refine Keeps.trans ?_ (keeps_foldl_drawLayer _ _)
  exact ⟨rfl, rfl, rfl⟩

section

variable {R : TilePass → TilePass → Prop}

/-- What holds of every cell that is repainted holds of a row of them. -/
theorem rel_drawRow {count : Nat} (hrefl : ∀ p, R p p)
    (htrans : ∀ p q t, R p q → R q t → R p t)
    (hcell : ∀ column x p q, drawCell scene column row x y p = .ok q → R p q)
    (h : drawRow scene scope row y count column p = .ok q) : R p q := by
  induction count generalizing column p with
  | zero =>
    cases h
    exact hrefl _
  | succ count ih =>
    obtain ⟨x, -, h⟩ := bind_eq_ok h
    dsimp only at h
    split at h
    · cases h
      exact hrefl _
    · obtain ⟨included, -, h⟩ := bind_eq_ok h
      cases included with
      | false => exact ih h
      | true =>
        obtain ⟨t, ht, h⟩ := bind_eq_ok h
        exact htrans _ _ _ (hcell _ _ _ _ ht) (ih h)

/-- What holds of every cell that is repainted holds of the whole pass. -/
theorem rel_drawRows {count : Nat} (hrefl : ∀ p, R p p)
    (htrans : ∀ p q t, R p q → R q t → R p t)
    (hcell : ∀ column row x y p q, drawCell scene column row x y p = .ok q → R p q)
    (h : drawRows scene scope count row p = .ok q) : R p q := by
  induction count generalizing row p with
  | zero =>
    cases h
    exact hrefl _
  | succ count ih =>
    obtain ⟨y, -, h⟩ := bind_eq_ok h
    dsimp only at h
    split at h
    · cases h
      exact hrefl _
    · obtain ⟨t, ht, h⟩ := bind_eq_ok h
      exact htrans _ _ _ (rel_drawRow hrefl htrans (fun _ _ => hcell _ _ _ _) ht) (ih h)

end

theorem keeps_drawRows {count : Nat} (h : drawRows scene scope count row p = .ok q) :
    p.Keeps q :=
  rel_drawRows Keeps.refl (fun _ _ _ => .trans) (fun _ _ _ _ _ _ => keeps_drawCell) h

/-- The sheet of `q` gives out the images of the sheet of `p`. -/
structure Serves (side : UInt32) (p q : TilePass) : Prop where
  built : p.sprites.BuiltFor side → q.sprites.BuiltFor side
  images : q.sprites.forgetScaled = p.sprites.forgetScaled

variable {side : UInt32}

theorem Serves.refl (p : TilePass) : p.Serves side p := ⟨id, rfl⟩

theorem Serves.trans (h : p.Serves side q) (h' : q.Serves side t) : p.Serves side t :=
  ⟨h'.built ∘ h.built, h'.images.trans h.images⟩

theorem serves_drawLayer (x y : Int32) (p : TilePass) (layer : Layer) :
    p.Serves side (drawLayer x y p layer) := by
  have hbuilt (h : p.sprites.BuiltFor side) := h.tile layer.image layer.rotation
  have himages := SpriteSheet.forgetScaled_tile p.sprites layer.image layer.rotation
  unfold drawLayer
  generalize p.sprites.tile layer.image layer.rotation = out at hbuilt himages
  obtain ⟨image, sheet⟩ := out
  cases image <;> exact ⟨hbuilt, himages⟩

theorem serves_foldl_drawLayer (stack : LayerStack) (p : TilePass) :
    p.Serves side (stack.foldl (drawLayer x y) p) := by
  induction stack generalizing p with
  | nil => exact .refl p
  | cons layer stack ih => exact (serves_drawLayer x y p layer).trans (ih _)

theorem serves_drawCell (h : drawCell scene column row x y p = .ok q) : p.Serves side q := by
  obtain ⟨wx, -, h⟩ := bind_eq_ok h
  obtain ⟨wy, -, h⟩ := bind_eq_ok h
  cases h
  refine Serves.trans ?_ (serves_foldl_drawLayer _ _)
  exact ⟨id, rfl⟩

theorem serves_drawRows {count : Nat} (h : drawRows scene scope count row p = .ok q) :
    p.Serves side q :=
  rel_drawRows Serves.refl (fun _ _ _ => .trans) (fun _ _ _ _ _ _ => serves_drawCell) h

end TilePass

/-- A pass gives a picture of the size asked for. It has no text unless the last one had some. -/
theorem Scene.paint_keeps {last : Option Surface} {sprites : SpriteSheet} {pass : TilePass}
    (h : scene.paint last width height scope sprites = .ok pass) :
    pass.surface.width = width ∧ pass.surface.height = height ∧
      ((∀ s, last = some s → s.labels = #[]) → pass.surface.labels = #[]) := by
  let ground := Ground.surface width height scene.sidebar
  obtain ⟨hw, hh, hl⟩ : ground.width = width ∧ ground.height = height ∧ ground.labels = #[] :=
    Ground.size_surface
  unfold paint at h
  dsimp only at h
  split at h
  · next s =>
    by_cases hsize : s.width = width ∧ s.height = height
    · simp only [if_pos hsize] at h
      have hkeeps := TilePass.keeps_drawRows h
      exact ⟨hkeeps.width.trans hsize.1, hkeeps.height.trans hsize.2,
        fun hlast => hkeeps.labels.trans (hlast s rfl)⟩
    · simp only [if_neg hsize] at h
      have hkeeps := TilePass.keeps_drawRows h
      exact ⟨hkeeps.width.trans hw, hkeeps.height.trans hh, fun _ => hkeeps.labels.trans hl⟩
  · have hkeeps := TilePass.keeps_drawRows h
    exact ⟨hkeeps.width.trans hw, hkeeps.height.trans hh, fun _ => hkeeps.labels.trans hl⟩

end TileViewer
