import TileViewer.Painter.Tiles
import TileViewer.Proofs.Exact
import TileViewer.Proofs.Picture.Sheet

/-! What a pass over the cells of a picture does to each of its pixels. -/
namespace TileViewer

/-- Whether a picture of this size shows the cell in column `c` and row `r` of a window. -/
def Window.Shows (w : Window) (sprite width height : UInt32) (c r : Nat) : Prop :=
  (c < w.width.toNat ∧ (c * sprite.toNat : Nat) < width.toInt32.toInt) ∧
    r < w.height.toNat ∧ (r * sprite.toNat : Nat) < height.toInt32.toInt

instance (w : Window) (sprite width height : UInt32) (c r : Nat) :
    Decidable (w.Shows sprite width height c r) :=
  inferInstanceAs (Decidable ((_ ∧ _) ∧ _ ∧ _))

/-- A window whose pixels, and the world coordinates of the cells a picture shows, are exact. The
pixels are those of the squares it touches and of one more in each direction. -/
structure Window.Fits (w : Window) (sprite width height : UInt32) : Prop where
  sprite_pos : 0 < sprite.toNat
  columns : (w.width.toNat / 5 + 1) * (5 * sprite.toNat) < 2 ^ 31
  rows : (w.height.toNat / 5 + 1) * (5 * sprite.toNat) < 2 ^ 31
  startX : ∀ c r, w.Shows sprite width height c r → w.startX.toInt + c < 2 ^ 31
  startY : ∀ c r, w.Shows sprite width height c r → w.startY.toInt + r < 2 ^ 31

/-- The colour of a pixel of a cell that shows `stack`. -/
def SpriteSheet.cellColor (s : SpriteSheet) (width : UInt32) (sidebar : Bool) (stack : LayerStack)
    (px py : Nat) : Color :=
  s.stackColor stack
    (Ground.colorAt (Int32.ofNat (px / s.sprite.toNat * s.sprite.toNat)) width sidebar)
    (px % s.sprite.toNat) (py % s.sprite.toNat)

theorem SpriteSheet.cellColor_congr {s t : SpriteSheet} (h : s.forgetScaled = t.forgetScaled) :
    s.cellColor = t.cellColor := by
  have := congrArg cellColor h
  exact this

/-- The world coordinate of a cell of a window. -/
def Window.coordAt (w : Window) (c r : Nat) : Int32 × Int32 :=
  (Int32.ofInt (w.startX.toInt + c), Int32.ofInt (w.startY.toInt + r))

/-- The stack in the world at a cell of the window. -/
def Scene.stackAt (scene : Scene) (c r : Nat) : LayerStack :=
  (scene.tiles.get? (scene.window.coordAt c r).1 (scene.window.coordAt c r).2).getD []

namespace Scope

/-- Whether a cell of the window is repainted. -/
def Covers (scope : Scope) (sprite : UInt32) (c r : Nat) : Prop :=
  scope.includes (Int32.ofNat (c * sprite.toNat)) (Int32.ofNat (r * sprite.toNat)) = .ok true

instance (scope : Scope) (sprite : UInt32) (c r : Nat) : Decidable (scope.Covers sprite c r) :=
  match h : scope.includes (Int32.ofNat (c * sprite.toNat)) (Int32.ofNat (r * sprite.toNat)) with
  | .ok true => .isTrue h
  | .ok false => .isFalse fun h' => nomatch h.symm.trans h'
  | .error _ => .isFalse fun h' => nomatch h.symm.trans h'

/-- A scope that tells of each pixel whether it is repainted. -/
def Decides (scope : Scope) : Prop := ∀ x y, ∃ b, scope.includes x y = .ok b

end Scope

namespace Window

variable {w : Window} {sprite width height : UInt32}

/-- A pixel of a cell, counted from the corner of the window. -/
theorem pixel_of_cell {side c d cells : Nat} (hd : d < side) (hc : c < cells) :
    (c * side + d) / side = c ∧ (c * side + d) % side = d ∧ c * side + d < cells * side := by
  have hpos : 0 < side := Nat.lt_of_le_of_lt (Nat.zero_le d) hd
  refine ⟨?_, ?_, ?_⟩
  · rw [Nat.mul_comm, Nat.mul_add_div hpos, Nat.div_eq_of_lt hd, Nat.add_zero]
  · rw [Nat.mul_comm, Nat.mul_add_mod, Nat.mod_eq_of_lt hd]
  · calc
      c * side + d < (c + 1) * side := by rw [Nat.add_one_mul]; omega
      _ ≤ cells * side := Nat.mul_le_mul_right side hc

theorem Fits.square_lt (h : w.Fits sprite width height) : 5 * sprite.toNat < 2 ^ 31 :=
  Nat.lt_of_le_of_lt (Nat.le_mul_of_pos_left _ (Nat.succ_pos _)) h.columns

theorem Fits.columns_le (h : w.Fits sprite width height) {c : Nat} (hc : c ≤ w.width.toNat) :
    (c / 5 + 1) * (5 * sprite.toNat) ≤ 2 ^ 31 :=
  Nat.le_of_lt (Nat.lt_of_le_of_lt (Nat.mul_le_mul_right _ (by omega)) h.columns)

theorem Fits.rows_le (h : w.Fits sprite width height) {r : Nat} (hr : r ≤ w.height.toNat) :
    (r / 5 + 1) * (5 * sprite.toNat) ≤ 2 ^ 31 :=
  Nat.le_of_lt (Nat.lt_of_le_of_lt (Nat.mul_le_mul_right _ (by omega)) h.rows)

theorem Fits.column_lt (h : w.Fits sprite width height) {c : Nat} (hc : c ≤ w.width.toNat) :
    c * sprite.toNat < 2 ^ 31 := by
  refine Nat.lt_of_le_of_lt ?_ h.columns
  rw [← Nat.mul_assoc]
  exact Nat.mul_le_mul_right _ (by omega)

theorem Fits.row_lt (h : w.Fits sprite width height) {r : Nat} (hr : r ≤ w.height.toNat) :
    r * sprite.toNat < 2 ^ 31 := by
  refine Nat.lt_of_le_of_lt ?_ h.rows
  rw [← Nat.mul_assoc]
  exact Nat.mul_le_mul_right _ (by omega)

theorem Fits.width_lt (h : w.Fits sprite width height) : w.width.toNat < 2 ^ 31 :=
  Nat.lt_of_le_of_lt (Nat.le_mul_of_pos_right _ h.sprite_pos) (h.column_lt (Nat.le_refl _))

theorem Fits.height_lt (h : w.Fits sprite width height) : w.height.toNat < 2 ^ 31 :=
  Nat.lt_of_le_of_lt (Nat.le_mul_of_pos_right _ h.sprite_pos) (h.row_lt (Nat.le_refl _))

/-- A picture of the whole window has the exact size and shows every cell. -/
theorem Fits.size (h : w.Fits sprite width height) :
    (w.sizePx sprite).1.toNat = w.width.toNat * sprite.toNat ∧
      (w.sizePx sprite).2.toNat = w.height.toNat * sprite.toNat :=
  ⟨toNat_timesSat (Nat.lt_trans (h.column_lt (Nat.le_refl _)) (by decide)),
    toNat_timesSat (Nat.lt_trans (h.row_lt (Nat.le_refl _)) (by decide))⟩

theorem Fits.shows_iff (h : w.Fits sprite width height) {c r : Nat} :
    w.Shows sprite (w.sizePx sprite).1 (w.sizePx sprite).2 c r ↔
      c < w.width.toNat ∧ r < w.height.toNat := by
  obtain ⟨hw, hh⟩ := h.size
  have hcolumns := h.column_lt (Nat.le_refl _)
  have hrows := h.row_lt (Nat.le_refl _)
  rw [Shows, toInt_toInt32 (by omega), toInt_toInt32 (by omega), hw, hh]
  constructor
  · exact fun hs => ⟨hs.1.1, hs.2.1⟩
  · rintro ⟨hc, hr⟩
    exact ⟨⟨hc, Int.ofNat_lt.2 (Nat.mul_lt_mul_of_pos_right hc h.sprite_pos)⟩, hr,
      Int.ofNat_lt.2 (Nat.mul_lt_mul_of_pos_right hr h.sprite_pos)⟩

end Window

namespace TilePass

variable {p q t : TilePass} {scene : Scene} {A B : Nat → Nat → Prop}

/-- `q` is `p` after the cells of `A` have been painted anew. -/
structure Repaints (scene : Scene) (A : Nat → Nat → Prop) (p q : TilePass) : Prop where
  width : q.surface.width = p.surface.width
  height : q.surface.height = p.surface.height
  labels : q.surface.labels = p.surface.labels
  built : q.sprites.BuiltFor scene.sprite
  images : q.sprites.forgetScaled = p.sprites.forgetScaled
  painted : ∀ px py, A (px / scene.sprite.toNat) (py / scene.sprite.toNat) →
    q.surface.image.pixel? px py = (p.surface.image.pixel? px py).map fun _ =>
      p.sprites.cellColor p.surface.width scene.sidebar
        (scene.stackAt (px / scene.sprite.toNat) (py / scene.sprite.toNat)) px py
  untouched : ∀ px py, ¬ A (px / scene.sprite.toNat) (py / scene.sprite.toNat) →
    q.surface.image.pixel? px py = p.surface.image.pixel? px py

theorem Repaints.refl (h : p.sprites.BuiltFor scene.sprite) :
    Repaints scene (fun _ _ => False) p p :=
  ⟨rfl, rfl, rfl, h, rfl, fun _ _ h => h.elim, fun _ _ _ => rfl⟩

theorem Repaints.trans (h : Repaints scene A p q) (h' : Repaints scene B q t) :
    Repaints scene (fun c r => A c r ∨ B c r) p t where
  width := h'.width.trans h.width
  height := h'.height.trans h.height
  labels := h'.labels.trans h.labels
  built := h'.built
  images := h'.images.trans h.images
  painted px py hin := by
    by_cases hB : B (px / scene.sprite.toNat) (py / scene.sprite.toNat)
    · have hq : (q.surface.image.pixel? px py).isSome = (p.surface.image.pixel? px py).isSome := by
        by_cases hA : A (px / scene.sprite.toNat) (py / scene.sprite.toNat)
        · rw [h.painted px py hA, Option.isSome_map]
        · rw [h.untouched px py hA]
      rw [h'.painted px py hB, h.width, SpriteSheet.cellColor_congr h.images]
      cases hp : p.surface.image.pixel? px py <;> cases hq' : q.surface.image.pixel? px py <;>
        simp_all
    · rw [h'.untouched px py hB, h.painted px py (hin.resolve_right hB)]
  untouched px py hout := by
    rw [not_or] at hout
    rw [h'.untouched px py hout.2, h.untouched px py hout.1]

theorem Repaints.congr (h : Repaints scene A p q) (hAB : ∀ c r, A c r ↔ B c r) :
    Repaints scene B p q := by
  have : A = B := funext fun c => funext fun r => propext (hAB c r)
  exact this ▸ h

/-- The pixels of a cell are those in its column and row. -/
theorem inside_cell_iff {sprite : UInt32} {x y : Int32} {c r px py : Nat}
    (hs : 0 < sprite.toNat) (hx : x.toInt = (c * sprite.toNat : Nat))
    (hy : y.toInt = (r * sprite.toNat : Nat)) :
    Surface.Inside x y sprite sprite px py ↔
      px / sprite.toNat = c ∧ py / sprite.toNat = r := by
  rw [Surface.Inside, hx, hy, Nat.div_eq_iff hs, Nat.div_eq_iff hs]
  omega

theorem drawLayer_spec {x y : Int32} {c r : Nat} (hs : 0 < scene.sprite.toNat)
    (hx : x.toInt = (c * scene.sprite.toNat : Nat)) (hy : y.toInt = (r * scene.sprite.toNat : Nat))
    (hb : p.sprites.BuiltFor scene.sprite) (layer : Layer) (px py : Nat) :
    (drawLayer x y p layer).surface.image.pixel? px py =
      if px / scene.sprite.toNat = c ∧ py / scene.sprite.toNat = r then
        (p.surface.image.pixel? px py).map fun under =>
          p.sprites.stackColor [layer] under (px % scene.sprite.toNat) (py % scene.sprite.toNat)
      else p.surface.image.pixel? px py := by
  have htile := SpriteSheet.tile_eq_imageOf hb layer.image layer.rotation
  unfold drawLayer
  generalize p.sprites.tile layer.image layer.rotation = out at htile
  obtain ⟨image, sheet⟩ := out
  simp only [SpriteSheet.stackColor, List.foldl_cons, List.foldl_nil, ← htile]
  cases image with
  | none => simp
  | some img =>
    obtain ⟨hw, hh⟩ := SpriteSheet.size_imageOf htile.symm
    rw [hb.sprite_eq] at hw hh
    simp only [Surface.pixel?_drawImage, hw, hh, inside_cell_iff hs hx hy]
    refine ite_congr rfl ?_ fun _ => rfl
    intro h
    -- Inside the cell, the distance from its corner is what remains after whole sprites.
    have hdx : (px - x.toInt).toNat = px % scene.sprite.toNat := by
      rw [hx, ← h.1, Nat.mod_def, Nat.mul_comm]
      omega
    have hdy : (py - y.toInt).toNat = py % scene.sprite.toNat := by
      rw [hy, ← h.2, Nat.mod_def, Nat.mul_comm]
      omega
    rw [hdx, hdy]

theorem drawLayer_keeps {x y : Int32} (hb : p.sprites.BuiltFor scene.sprite) (layer : Layer) :
    (drawLayer x y p layer).surface.width = p.surface.width ∧
      (drawLayer x y p layer).surface.height = p.surface.height ∧
      (drawLayer x y p layer).surface.labels = p.surface.labels ∧
      (drawLayer x y p layer).sprites.BuiltFor scene.sprite ∧
      (drawLayer x y p layer).sprites.forgetScaled = p.sprites.forgetScaled := by
  have hbuilt := hb.tile layer.image layer.rotation
  have himages := SpriteSheet.forgetScaled_tile p.sprites layer.image layer.rotation
  unfold drawLayer
  generalize p.sprites.tile layer.image layer.rotation = out at hbuilt himages
  obtain ⟨image, sheet⟩ := out
  cases image <;> exact ⟨rfl, rfl, rfl, hbuilt, himages⟩

/-- Drawing a stack over a cell that shows `under` everywhere repaints the cell. -/
theorem foldl_drawLayer_spec {x y : Int32} {c r : Nat} (hs : 0 < scene.sprite.toNat)
    (hx : x.toInt = (c * scene.sprite.toNat : Nat)) (hy : y.toInt = (r * scene.sprite.toNat : Nat))
    (hb : p.sprites.BuiltFor scene.sprite) (stack : LayerStack) :
    (stack.foldl (drawLayer x y) p).surface.width = p.surface.width ∧
      (stack.foldl (drawLayer x y) p).surface.height = p.surface.height ∧
      (stack.foldl (drawLayer x y) p).surface.labels = p.surface.labels ∧
      (stack.foldl (drawLayer x y) p).sprites.BuiltFor scene.sprite ∧
      (stack.foldl (drawLayer x y) p).sprites.forgetScaled = p.sprites.forgetScaled ∧
      ∀ px py, (stack.foldl (drawLayer x y) p).surface.image.pixel? px py =
        if px / scene.sprite.toNat = c ∧ py / scene.sprite.toNat = r then
          (p.surface.image.pixel? px py).map fun under =>
            p.sprites.stackColor stack under (px % scene.sprite.toNat) (py % scene.sprite.toNat)
        else p.surface.image.pixel? px py := by
  induction stack generalizing p with
  | nil => exact ⟨rfl, rfl, rfl, hb, rfl, fun px py => by simp [SpriteSheet.stackColor]⟩
  | cons layer stack ih =>
    obtain ⟨hw, hh, hl, hb', hi⟩ := drawLayer_keeps (x := x) (y := y) hb layer
    have hstep := drawLayer_spec hs hx hy hb layer
    obtain ⟨iw, ih', il, ib, ii, ipx⟩ := ih hb'
    rw [List.foldl_cons]
    refine ⟨iw.trans hw, ih'.trans hh, il.trans hl, ib, ii.trans hi, ?_⟩
    intro px py
    rw [ipx, hstep, SpriteSheet.stackColor_congr hi]
    split
    · rw [Option.map_map]
      rfl
    · rfl

theorem drawCell_repaints {column row : UInt32} {x y : Int32} (hs : 0 < scene.sprite.toNat)
    (hb : p.sprites.BuiltFor scene.sprite)
    (hx : x.toInt = (column.toNat * scene.sprite.toNat : Nat))
    (hy : y.toInt = (row.toNat * scene.sprite.toNat : Nat))
    (hcolumn : scene.window.startX.toInt + column.toNat < 2 ^ 31) (hc : column.toNat < 2 ^ 31)
    (hrow : scene.window.startY.toInt + row.toNat < 2 ^ 31) (hr : row.toNat < 2 ^ 31) :
    ∃ q, drawCell scene column row x y p = .ok q ∧
      Repaints scene (fun c r => c = column.toNat ∧ r = row.toNat) p q := by
  have hwx := plus_toInt32 hc hcolumn
  have hwy := plus_toInt32 hr hrow
  let ground := Ground.colorAt x p.surface.width scene.sidebar
  obtain ⟨hw, hh, hl, hb', hi, hpx⟩ := foldl_drawLayer_spec
    (p := { p with
      surface := p.surface.fillRect x y scene.sprite scene.sprite ground
      stats := { p.stats with cells := p.stats.cells + 1 } })
    hs hx hy hb (scene.stackAt column.toNat row.toNat)
  refine ⟨_, by simp only [drawCell, hwx, hwy, bind, Except.bind]; rfl,
    hw, hh, hl, hb', hi, ?_, ?_⟩
  · intro px py hin
    rw [hpx, if_pos hin, Surface.pixel?_fillRect, if_pos ((inside_cell_iff hs hx hy).2 hin),
      Option.map_map, hin.1, hin.2]
    have hx' : x = Int32.ofNat (column.toNat * scene.sprite.toNat) := by
      rw [← Int32.ofInt_toInt x, hx]
      rfl
    simp only [SpriteSheet.cellColor, hb.sprite_eq, hin.1, ← hx']
    rfl
  · intro px py hout
    rw [hpx, if_neg hout, Surface.pixel?_fillRect, if_neg (mt (inside_cell_iff hs hx hy).1 hout)]

/-- One column of a row: its cell is repainted if the scope covers it. -/
theorem drawColumn_repaints {scope : Scope} {column row : UInt32} {x y : Int32}
    (hfit : scene.window.Fits scene.sprite p.surface.width p.surface.height)
    (hscope : scope.Decides) (hb : p.sprites.BuiltFor scene.sprite)
    (hx : x = Int32.ofNat (column.toNat * scene.sprite.toNat))
    (hy : y = Int32.ofNat (row.toNat * scene.sprite.toNat))
    (hshow : scene.window.Shows scene.sprite p.surface.width p.surface.height column.toNat
      row.toNat) :
    ∃ b q, scope.includes x y = .ok b ∧
      (if b then drawCell scene column row x y p else .ok p) = .ok q ∧
      Repaints scene (fun c r => c = column.toNat ∧ r = row.toNat ∧
        scope.Covers scene.sprite c r) p q := by
  obtain ⟨b, hcover⟩ := hscope x y
  have hcovers : scope.Covers scene.sprite column.toNat row.toNat ↔ b = true := by
    rw [Scope.Covers, ← hx, ← hy, hcover, Except.ok.injEq]
  cases b with
  | false =>
    refine ⟨false, p, hcover, rfl, (Repaints.refl hb).congr ?_⟩
    intro c r
    rw [false_iff]
    rintro ⟨rfl, rfl, hcov⟩
    exact absurd (hcovers.1 hcov) (by simp)
  | true =>
    have hxInt := hx ▸ Int32.toInt_ofNat_of_lt (hfit.column_lt (Nat.le_of_lt hshow.1.1))
    have hyInt := hy ▸ Int32.toInt_ofNat_of_lt (hfit.row_lt (Nat.le_of_lt hshow.2.1))
    obtain ⟨q, hq, hpq⟩ := drawCell_repaints hfit.sprite_pos hb hxInt hyInt
      (hfit.startX _ _ hshow) (Nat.lt_trans hshow.1.1 hfit.width_lt)
      (hfit.startY _ _ hshow) (Nat.lt_trans hshow.2.1 hfit.height_lt)
    refine ⟨true, q, hcover, hq, hpq.congr ?_⟩
    intro c r
    constructor
    · rintro ⟨rfl, rfl⟩
      exact ⟨rfl, rfl, hcovers.2 rfl⟩
    · rintro ⟨hc, hr, -⟩
      exact ⟨hc, hr⟩

theorem drawRow_repaints {scope : Scope} {row : UInt32} {y : Int32} {count : Nat}
    (column : UInt32) (p : TilePass)
    (hfit : scene.window.Fits scene.sprite p.surface.width p.surface.height)
    (hscope : scope.Decides) (hb : p.sprites.BuiltFor scene.sprite)
    (hy : y = Int32.ofNat (row.toNat * scene.sprite.toNat))
    (hrow : row.toNat < scene.window.height.toNat)
    (hshown : (row.toNat * scene.sprite.toNat : Nat) < p.surface.height.toInt32.toInt)
    (hcount : column.toNat + count = scene.window.width.toNat) :
    ∃ q, drawRow scene scope row y count column p = .ok q ∧
      Repaints scene (fun c r => r = row.toNat ∧ column.toNat ≤ c ∧
        scene.window.Shows scene.sprite p.surface.width p.surface.height c r ∧
        scope.Covers scene.sprite c r) p q := by
  induction count generalizing column p with
  | zero =>
    refine ⟨p, rfl, (Repaints.refl hb).congr ?_⟩
    intro c r
    simp only [false_iff, Window.Shows]
    rintro ⟨-, hc, ⟨⟨hlt, -⟩, -⟩, -⟩
    omega
  | succ count ih =>
    obtain ⟨x, hx, hxEq, hxInt⟩ := toInt32_times (hfit.column_lt (c := column.toNat) (by omega))
    simp only [drawRow, hx, bind, Except.bind]
    by_cases hedge : p.surface.width.toInt32 ≤ x.toInt32
    · -- This column begins past the right edge, and so does every later one.
      refine ⟨p, if_pos hedge, (Repaints.refl hb).congr ?_⟩
      intro c r
      rw [Int32.le_iff_toInt_le, hxInt] at hedge
      simp only [false_iff, Window.Shows]
      rintro ⟨-, hc, ⟨⟨-, hlt⟩, -⟩, -⟩
      have := Nat.mul_le_mul_right scene.sprite.toNat hc
      omega
    · rw [if_neg hedge]
      rw [Int32.le_iff_toInt_le, hxInt] at hedge
      have hshow : scene.window.Shows scene.sprite p.surface.width p.surface.height column.toNat
          row.toNat := ⟨⟨by omega, by omega⟩, hrow, hshown⟩
      have hnext := toNat_succ (n := column) (m := scene.window.width) (by omega)
      obtain ⟨b, q, hcover, hq, hpq⟩ := drawColumn_repaints hfit hscope hb hxEq hy hshow
      obtain ⟨t, ht, hqt⟩ := ih (column + 1) q
        (by rw [hpq.width, hpq.height]; exact hfit) hpq.built (by rw [hpq.height]; exact hshown)
        (by omega)
      refine ⟨t, ?_, (hpq.trans hqt).congr ?_⟩
      · simp only [hcover]
        cases b <;> simp_all [pure, Except.pure]
      · intro c r
        rw [hpq.width, hpq.height, hnext]
        constructor
        · rintro (⟨rfl, rfl, hcov⟩ | ⟨rfl, hc, hrest⟩)
          · exact ⟨rfl, Nat.le_refl _, hshow, hcov⟩
          · exact ⟨rfl, by omega, hrest⟩
        · rintro ⟨rfl, hc, hsh, hcov⟩
          rcases Nat.eq_or_lt_of_le hc with rfl | hlt
          · exact .inl ⟨rfl, rfl, hcov⟩
          · exact .inr ⟨rfl, hlt, hsh, hcov⟩

theorem drawRows_repaints {scope : Scope} {count : Nat} (row : UInt32) (p : TilePass)
    (hfit : scene.window.Fits scene.sprite p.surface.width p.surface.height)
    (hscope : scope.Decides) (hb : p.sprites.BuiltFor scene.sprite)
    (hcount : row.toNat + count = scene.window.height.toNat) :
    ∃ q, drawRows scene scope count row p = .ok q ∧
      Repaints scene (fun c r => row.toNat ≤ r ∧
        scene.window.Shows scene.sprite p.surface.width p.surface.height c r ∧
        scope.Covers scene.sprite c r) p q := by
  induction count generalizing row p with
  | zero =>
    refine ⟨p, rfl, (Repaints.refl hb).congr ?_⟩
    intro c r
    simp only [false_iff, Window.Shows]
    rintro ⟨hr, ⟨-, hlt, -⟩, -⟩
    omega
  | succ count ih =>
    obtain ⟨y, hy, hyEq, hyInt⟩ := toInt32_times (hfit.row_lt (r := row.toNat) (by omega))
    simp only [drawRows, hy, bind, Except.bind]
    by_cases hedge : p.surface.height.toInt32 ≤ y.toInt32
    · -- This row begins past the bottom edge, and so does every later one.
      refine ⟨p, if_pos hedge, (Repaints.refl hb).congr ?_⟩
      intro c r
      rw [Int32.le_iff_toInt_le, hyInt] at hedge
      simp only [false_iff, Window.Shows]
      rintro ⟨hr, ⟨-, -, hlt⟩, -⟩
      have := Nat.mul_le_mul_right scene.sprite.toNat hr
      omega
    · rw [if_neg hedge]
      rw [Int32.le_iff_toInt_le, hyInt] at hedge
      have hnext := toNat_succ (n := row) (m := scene.window.height) (by omega)
      obtain ⟨q, hq, hpq⟩ := drawRow_repaints 0 p hfit hscope hb hyEq (by omega)
        (by omega) (Nat.zero_add _)
      obtain ⟨t, ht, hqt⟩ := ih (row + 1) q
        (by rw [hpq.width, hpq.height]; exact hfit) hpq.built (by omega)
      refine ⟨t, by simp only [hq, ht], (hpq.trans hqt).congr ?_⟩
      intro c r
      rw [hpq.width, hpq.height, hnext]
      constructor
      · rintro (⟨rfl, -, hrest⟩ | ⟨hr, hrest⟩)
        · exact ⟨Nat.le_refl _, hrest⟩
        · exact ⟨by omega, hrest⟩
      · rintro ⟨hr, hrest⟩
        rcases Nat.eq_or_lt_of_le hr with rfl | hlt
        · exact .inl ⟨rfl, Nat.zero_le _, hrest⟩
        · exact .inr ⟨hlt, hrest⟩

end TilePass

end TileViewer
