import TileViewer.Proofs.Picture.Keeps

/-!
Where the ground of a picture is seen after a pass, whatever the size of the images. In a cell that
is painted over it is seen where no image of the cell's own stack reaches, since the cells before it
are below its ground and those after it begin further right or further down. Elsewhere it is seen
where no image reaches at all.
-/
namespace TileViewer

/-- An image of the stack of a cell lies over a pixel. -/
def Scene.Reaches (scene : Scene) (sheet : SpriteSheet) (c r px py : Nat) : Prop :=
  ∃ layer ∈ scene.stackAt c r, ∃ img, sheet.imageOf layer.image layer.rotation = some img ∧
    (c * scene.sprite.toNat ≤ px ∧ px < c * scene.sprite.toNat + img.width.toNat) ∧
    r * scene.sprite.toNat ≤ py ∧ py < r * scene.sprite.toNat + img.height.toNat

/-- The cells that a pass paints over. -/
def Scene.Redraws (scene : Scene) (scope : Scope) (width height : UInt32) (c r : Nat) : Prop :=
  scene.window.Shows scene.sprite width height c r ∧ scope.Covers scene.sprite c r

/-- The colour of the ground at a column of a picture. -/
def Ground.stripColor (width : UInt32) (column : Nat) : Color :=
  if (sidebarStart width).toNat ≤ column then Palette.sidebar else Palette.playArea

theorem SpriteSheet.imageOf_congr {sheet sheet' : SpriteSheet}
    (h : sheet.forgetScaled = sheet'.forgetScaled) : sheet.imageOf = sheet'.imageOf := by
  have := congrArg imageOf h
  exact this

namespace TilePass

/-- What a pass that has painted the cells of `A` leaves of the ground. -/
structure Lays (scene : Scene) (side : UInt32) (A : Nat → Nat → Prop) (p q : TilePass) : Prop
    extends p.Keeps q, p.Serves side q where
  ground : ∀ px py, A (px / scene.sprite.toNat) (py / scene.sprite.toNat) →
    ¬ scene.Reaches p.sprites (px / scene.sprite.toNat) (py / scene.sprite.toNat) px py →
    q.surface.image.pixel? px py = (p.surface.image.pixel? px py).map fun _ =>
      Ground.colorAt (Int32.ofNat (px / scene.sprite.toNat * scene.sprite.toNat)) p.surface.width
        scene.sidebar
  kept : ∀ px py, ¬ A (px / scene.sprite.toNat) (py / scene.sprite.toNat) →
    (∀ c r, A c r → ¬ scene.Reaches p.sprites c r px py) →
    q.surface.image.pixel? px py = p.surface.image.pixel? px py

variable {p q t : TilePass} {scene : Scene} {scope : Scope} {side : UInt32}
  {A B : Nat → Nat → Prop}

theorem reaches_congr {sheet sheet' : SpriteSheet} (h : sheet.forgetScaled = sheet'.forgetScaled) :
    scene.Reaches sheet = scene.Reaches sheet' := by
  have := congrArg (Scene.Reaches scene) h
  exact this

/-- An image begins at the corner of its cell. -/
theorem le_of_reaches {sheet : SpriteSheet} {c r px py : Nat} (hs : 0 < scene.sprite.toNat)
    (h : scene.Reaches sheet c r px py) :
    c ≤ px / scene.sprite.toNat ∧ r ≤ py / scene.sprite.toNat := by
  obtain ⟨-, -, -, -, ⟨hx, -⟩, hy, -⟩ := h
  exact ⟨(Nat.le_div_iff_mul_le hs).2 hx, (Nat.le_div_iff_mul_le hs).2 hy⟩

theorem Lays.none (hnone : ∀ c r, ¬ A c r) : Lays scene side A p p :=
  ⟨.refl p, .refl p, fun _ _ h => absurd h (hnone _ _), fun _ _ _ _ => rfl⟩

theorem Lays.congr (h : Lays scene side A p q) (hAB : ∀ c r, A c r ↔ B c r) :
    Lays scene side B p q := by
  have : A = B := funext fun c => funext fun r => propext (hAB c r)
  exact this ▸ h

/-- Cells further right or further down leave the ground that was seen before them. -/
theorem Lays.trans (hs : 0 < scene.sprite.toNat) (h : Lays scene side A p q)
    (h' : Lays scene side B q t)
    (hlater : ∀ c r c' r', A c r → B c' r' → c < c' ∨ r < r') :
    Lays scene side (fun c r => A c r ∨ B c r) p t where
  toKeeps := h.toKeeps.trans h'.toKeeps
  toServes := h.toServes.trans h'.toServes
  ground px py hin hown := by
    by_cases hB : B (px / scene.sprite.toNat) (py / scene.sprite.toNat)
    · have hdim := Image.map_pixel?_const (x := px) (y := py) h.width h.height
        (Ground.colorAt (Int32.ofNat (px / scene.sprite.toNat * scene.sprite.toNat))
          p.surface.width scene.sidebar)
      rw [h'.ground px py hB (by rwa [reaches_congr h.images]), h.width, hdim]
    · have hA := hin.resolve_right hB
      rw [h'.kept px py hB, h.ground px py hA hown]
      intro c r hcr hreach
      have hle := le_of_reaches hs hreach
      have := hlater _ _ _ _ hA hcr
      omega
  kept px py hout hnone := by
    rw [not_or] at hout
    rw [h'.kept px py hout.2, h.kept px py hout.1 fun c r hcr => hnone c r (.inl hcr)]
    intro c r hcr
    rw [reaches_congr h.images]
    exact hnone c r (.inr hcr)

theorem drawLayer_kept {x y : Int32} (hb : p.sprites.BuiltFor side) (layer : Layer) (px py : Nat)
    (hnone : ∀ img, p.sprites.imageOf layer.image layer.rotation = some img →
      ¬ Surface.Inside x y img.width img.height px py) :
    (drawLayer x y p layer).surface.image.pixel? px py = p.surface.image.pixel? px py := by
  rw [← SpriteSheet.tile_eq_imageOf hb] at hnone
  unfold drawLayer
  generalize p.sprites.tile layer.image layer.rotation = out at hnone
  obtain ⟨image, sheet⟩ := out
  cases image with
  | none => rfl
  | some img => exact (Surface.pixel?_drawImage img x y px py).trans (if_neg (hnone img rfl))

theorem foldl_drawLayer_kept {x y : Int32} {px py : Nat} (hb : p.sprites.BuiltFor side)
    (stack : LayerStack) (hnone : ∀ layer ∈ stack, ∀ img,
      p.sprites.imageOf layer.image layer.rotation = some img →
        ¬ Surface.Inside x y img.width img.height px py) :
    (stack.foldl (drawLayer x y) p).surface.image.pixel? px py =
      p.surface.image.pixel? px py := by
  induction stack generalizing p with
  | nil => rfl
  | cons layer stack ih =>
    have hserves : p.Serves side (drawLayer x y p layer) := serves_drawLayer x y p layer
    rw [List.foldl_cons, ih (hserves.built hb),
      drawLayer_kept hb layer px py (hnone layer List.mem_cons_self)]
    rw [SpriteSheet.imageOf_congr hserves.images]
    exact fun l hl => hnone l (List.mem_cons_of_mem _ hl)

/-- A sum that has been computed is exact. -/
theorem eq_ofInt_of_plus {z c : Int32} {n : UInt32} (hn : n.toNat < 2 ^ 31)
    (h : Word.plus z n.toInt32 = .ok c) : c = Int32.ofInt (z.toInt + n.toNat) := by
  have hexact := Word.fit_eq_ok_iff.1 h
  simp only [Word.toInt, toInt_toInt32 hn] at hexact
  rw [← hexact, Int32.ofInt_toInt]

theorem drawCell_lays {column row : UInt32} {x y : Int32} (hs : 0 < scene.sprite.toNat)
    (hb : p.sprites.BuiltFor side)
    (hx : x.toInt = (column.toNat * scene.sprite.toNat : Nat))
    (hy : y.toInt = (row.toNat * scene.sprite.toNat : Nat))
    (hc : column.toNat < 2 ^ 31) (hr : row.toNat < 2 ^ 31)
    (h : drawCell scene column row x y p = .ok q) :
    Lays scene side (fun c r => c = column.toNat ∧ r = row.toNat) p q := by
  have hkeeps := keeps_drawCell h
  have hserves : p.Serves side q := serves_drawCell h
  obtain ⟨wx, hwx, h⟩ := bind_eq_ok h
  obtain ⟨wy, hwy, h⟩ := bind_eq_ok h
  obtain rfl := eq_ofInt_of_plus hc hwx
  obtain rfl := eq_ofInt_of_plus hr hwy
  let filled : TilePass :=
    { p with
      surface := p.surface.fillRect x y scene.sprite scene.sprite
        (Ground.colorAt x p.surface.width scene.sidebar)
      stats := { p.stats with cells := p.stats.cells + 1 } }
  -- Where no image reaches from this cell, the pixel is that of the ground it is filled with.
  have hpixel : ∀ px py, ¬ scene.Reaches p.sprites column.toNat row.toNat px py →
      q.surface.image.pixel? px py = filled.surface.image.pixel? px py := by
    intro px py hnot
    rw [← Except.ok.inj h]
    refine foldl_drawLayer_kept (p := filled) hb _ fun layer hlayer img himg hinside => ?_
    rw [Surface.Inside, hx, hy] at hinside
    exact hnot ⟨layer, hlayer, img, himg, by omega, by omega⟩
  refine ⟨hkeeps, hserves, ?_, ?_⟩
  · rintro px py ⟨hcolumn, hrow⟩ hnot
    rw [hcolumn, hrow] at hnot
    have hedge : x = Int32.ofNat (column.toNat * scene.sprite.toNat) := by
      rw [← Int32.ofInt_toInt x, hx]
      rfl
    rw [hpixel px py hnot, hcolumn, ← hedge, Surface.pixel?_fillRect,
      if_pos ((inside_cell_iff hs hx hy).2 ⟨hcolumn, hrow⟩)]
  · intro px py hout hnone
    rw [hpixel px py (hnone _ _ ⟨rfl, rfl⟩), Surface.pixel?_fillRect,
      if_neg (mt (inside_cell_iff hs hx hy).1 hout)]

theorem drawColumn_lays {column row : UInt32} {x y : Int32} {b : Bool}
    (hs : 0 < scene.sprite.toNat) (hb : p.sprites.BuiltFor side)
    (hx : x = Int32.ofNat (column.toNat * scene.sprite.toNat))
    (hcolumn : column.toNat * scene.sprite.toNat < 2 ^ 31)
    (hy : y = Int32.ofNat (row.toNat * scene.sprite.toNat))
    (hrow : row.toNat * scene.sprite.toNat < 2 ^ 31) (hcover : scope.includes x y = .ok b)
    (h : (if b then drawCell scene column row x y p else .ok p) = .ok q) :
    Lays scene side (fun c r => c = column.toNat ∧ r = row.toNat ∧
      scope.Covers scene.sprite c r) p q := by
  have hcovers : scope.Covers scene.sprite column.toNat row.toNat ↔ b = true := by
    rw [Scope.Covers, ← hx, ← hy, hcover, Except.ok.injEq]
  cases b with
  | false =>
    cases h
    refine .none fun c r => ?_
    rintro ⟨rfl, rfl, hcov⟩
    exact Bool.false_ne_true (hcovers.1 hcov)
  | true =>
    have hxInt := hx ▸ Int32.toInt_ofNat_of_lt hcolumn
    have hyInt := hy ▸ Int32.toInt_ofNat_of_lt hrow
    have hc : column.toNat < 2 ^ 31 :=
      Nat.lt_of_le_of_lt (Nat.le_mul_of_pos_right _ hs) hcolumn
    have hr : row.toNat < 2 ^ 31 := Nat.lt_of_le_of_lt (Nat.le_mul_of_pos_right _ hs) hrow
    refine (drawCell_lays hs hb hxInt hyInt hc hr h).congr fun c r => ?_
    constructor
    · rintro ⟨rfl, rfl⟩
      exact ⟨rfl, rfl, hcovers.2 rfl⟩
    · rintro ⟨hc, hr, -⟩
      exact ⟨hc, hr⟩

theorem drawRow_succ {row : UInt32} {y : Int32} {count : Nat} (column : UInt32) (p : TilePass) :
    drawRow scene scope row y (count + 1) column p =
      Word.times column scene.sprite >>= fun x =>
        if p.surface.width.toInt32 ≤ x.toInt32 then .ok p
        else scope.includes x.toInt32 y >>= fun b =>
          (if b then drawCell scene column row x.toInt32 y p else .ok p) >>=
            drawRow scene scope row y count (column + 1) := by
  rw [drawRow]
  refine congrArg _ (funext fun x => ite_congr rfl (fun _ => rfl) fun _ => ?_)
  refine congrArg _ (funext fun b => ?_)
  cases b <;> rfl

theorem drawRow_lays {row : UInt32} {y : Int32} {count : Nat} (column : UInt32) (p : TilePass)
    (hs : 0 < scene.sprite.toNat) (hb : p.sprites.BuiltFor side)
    (hfit : p.surface.width.toNat + scene.sprite.toNat ≤ 2 ^ 31)
    (hcolumn : column.toNat * scene.sprite.toNat < 2 ^ 31)
    (hrow : row.toNat * scene.sprite.toNat < 2 ^ 31)
    (hy : y = Int32.ofNat (row.toNat * scene.sprite.toNat))
    (hlast : row.toNat < scene.window.height.toNat)
    (hshown : (row.toNat * scene.sprite.toNat : Nat) < p.surface.height.toInt32.toInt)
    (hcount : column.toNat + count = scene.window.width.toNat)
    (h : drawRow scene scope row y count column p = .ok q) :
    Lays scene side (fun c r => r = row.toNat ∧ column.toNat ≤ c ∧
      scene.Redraws scope p.surface.width p.surface.height c r) p q := by
  induction count generalizing column p with
  | zero =>
    cases h
    refine .none fun c r => ?_
    rintro ⟨-, hc, ⟨⟨hlt, -⟩, -⟩, -⟩
    omega
  | succ count ih =>
    obtain ⟨x, hx, hxEq, hxInt⟩ := toInt32_times hcolumn
    have hwidth : p.surface.width.toInt32.toInt = p.surface.width.toNat := toInt_toInt32 (by omega)
    rw [drawRow_succ] at h
    obtain ⟨x', hx', h⟩ := bind_eq_ok h
    cases hx.symm.trans hx'
    split at h
    · next hedge =>
      -- This column begins past the right edge, and so does every later one.
      cases h
      rw [Int32.le_iff_toInt_le, hxInt] at hedge
      refine .none fun c r => ?_
      rintro ⟨-, hc, ⟨⟨-, hlt⟩, -⟩, -⟩
      have := Nat.mul_le_mul_right scene.sprite.toNat hc
      omega
    · next hedge =>
      rw [Int32.le_iff_toInt_le, hxInt] at hedge
      have hshow : scene.window.Shows scene.sprite p.surface.width p.surface.height column.toNat
          row.toNat := ⟨⟨by omega, by omega⟩, hlast, hshown⟩
      have hnext := toNat_succ (n := column) (m := scene.window.width) (by omega)
      obtain ⟨b, hcover, h⟩ := bind_eq_ok h
      obtain ⟨u, hu, h⟩ := bind_eq_ok h
      have hpu := drawColumn_lays hs hb hxEq hcolumn hy hrow hcover hu
      have huq := ih (column + 1) u (hpu.built hb) (by rw [hpu.width]; exact hfit)
        (by rw [hnext, Nat.add_one_mul]; omega) (by rw [hpu.height]; exact hshown) (by omega) h
      rw [hpu.width, hpu.height, hnext] at huq
      refine (hpu.trans hs huq ?_).congr fun c r => ?_
      · rintro c r c' r' ⟨rfl, -⟩ ⟨-, hlt, -⟩
        exact .inl hlt
      · constructor
        · rintro (⟨rfl, rfl, hcov⟩ | ⟨rfl, hc, hrest⟩)
          · exact ⟨rfl, Nat.le_refl _, hshow, hcov⟩
          · exact ⟨rfl, by omega, hrest⟩
        · rintro ⟨rfl, hc, hsh, hcov⟩
          rcases Nat.eq_or_lt_of_le hc with rfl | hlt
          · exact .inl ⟨rfl, rfl, hcov⟩
          · exact .inr ⟨rfl, hlt, hsh, hcov⟩

theorem drawRows_succ {count : Nat} (row : UInt32) (p : TilePass) :
    drawRows scene scope (count + 1) row p =
      Word.times row scene.sprite >>= fun y =>
        if p.surface.height.toInt32 ≤ y.toInt32 then .ok p
        else drawRow scene scope row y.toInt32 scene.window.width.toNat 0 p >>=
          drawRows scene scope count (row + 1) := rfl

theorem drawRows_lays {count : Nat} (row : UInt32) (p : TilePass)
    (hs : 0 < scene.sprite.toNat) (hb : p.sprites.BuiltFor side)
    (hwidth : p.surface.width.toNat + scene.sprite.toNat ≤ 2 ^ 31)
    (hheight : p.surface.height.toNat + scene.sprite.toNat ≤ 2 ^ 31)
    (hrow : row.toNat * scene.sprite.toNat < 2 ^ 31)
    (hcount : row.toNat + count = scene.window.height.toNat)
    (h : drawRows scene scope count row p = .ok q) :
    Lays scene side (fun c r => row.toNat ≤ r ∧
      scene.Redraws scope p.surface.width p.surface.height c r) p q := by
  induction count generalizing row p with
  | zero =>
    cases h
    refine .none fun c r => ?_
    rintro ⟨hr, ⟨-, hlt, -⟩, -⟩
    omega
  | succ count ih =>
    obtain ⟨y, hy, hyEq, hyInt⟩ := toInt32_times hrow
    have hheight' : p.surface.height.toInt32.toInt = p.surface.height.toNat :=
      toInt_toInt32 (by omega)
    rw [drawRows_succ] at h
    obtain ⟨y', hy', h⟩ := bind_eq_ok h
    cases hy.symm.trans hy'
    split at h
    · next hedge =>
      -- This row begins past the bottom edge, and so does every later one.
      cases h
      rw [Int32.le_iff_toInt_le, hyInt] at hedge
      refine .none fun c r => ?_
      rintro ⟨hr, ⟨-, -, hlt⟩, -⟩
      have := Nat.mul_le_mul_right scene.sprite.toNat hr
      omega
    · next hedge =>
      rw [Int32.le_iff_toInt_le, hyInt] at hedge
      have hnext := toNat_succ (n := row) (m := scene.window.height) (by omega)
      obtain ⟨u, hu, h⟩ := bind_eq_ok h
      have hpu := drawRow_lays 0 p hs hb hwidth (by simp) hrow hyEq (by omega) (by omega)
        (Nat.zero_add _) hu
      have huq := ih (row + 1) u (hpu.built hb) (by rw [hpu.width]; exact hwidth)
        (by rw [hpu.height]; exact hheight) (by rw [hnext, Nat.add_one_mul]; omega) (by omega) h
      rw [hpu.width, hpu.height, hnext] at huq
      refine (hpu.trans hs huq ?_).congr fun c r => ?_
      · rintro c r c' r' ⟨rfl, -⟩ ⟨hlt, -⟩
        exact .inr hlt
      · constructor
        · rintro (⟨rfl, -, hrest⟩ | ⟨hr, hrest⟩)
          · exact ⟨Nat.le_refl _, hrest⟩
          · exact ⟨by omega, hrest⟩
        · rintro ⟨hr, hrest⟩
          rcases Nat.eq_or_lt_of_le hr with rfl | hlt
          · exact .inl ⟨rfl, Nat.zero_le _, hrest⟩
          · exact .inr ⟨hlt, hrest⟩

end TilePass

variable {scene : Scene} {scope : Scope} {sheet : SpriteSheet} {width height : UInt32}
  {s : Surface} {pass : TilePass} {side : UInt32}

/-- The ground of a picture since it was laid out: the cells that have been painted over, and the
pixels that no image lies on. -/
structure Plot where
  painted : Nat → Nat → Prop
  bare : Nat → Nat → Prop

namespace Plot

/-- Ground that no cell has been painted on. -/
def fresh : Plot where
  painted _ _ := False
  bare _ _ := True

/-- The ground after the cells of `A` have been painted over. -/
def after (plot : Plot) (scene : Scene) (sheet : SpriteSheet) (A : Nat → Nat → Prop) : Plot where
  painted c r := A c r ∨ plot.painted c r
  bare px py :=
    (A (px / scene.sprite.toNat) (py / scene.sprite.toNat) ∧
      ¬ scene.Reaches sheet (px / scene.sprite.toNat) (py / scene.sprite.toNat) px py) ∨
    (¬ A (px / scene.sprite.toNat) (py / scene.sprite.toNat) ∧ plot.bare px py ∧
      ∀ c r, A c r → ¬ scene.Reaches sheet c r px py)

/-- The ground after a pass, which lays it out itself if nothing is kept of an earlier one. -/
def next (scene : Scene) (sheet : SpriteSheet) (width height : UInt32) (scope : Scope) :
    Option Plot → Plot
  | none => fresh.after scene sheet (scene.Redraws .all width height)
  | some plot => plot.after scene sheet (scene.Redraws scope width height)

end Plot

/-- A picture with a sidebar shows this ground. A cell that has been painted over has one colour,
which is that of its left edge. -/
structure Surface.Grounded (s : Surface) (plot : Plot) (sprite width height : UInt32) : Prop where
  width_eq : s.width = width
  height_eq : s.height = height
  painted : ∀ px py, px < width.toNat → py < height.toNat → plot.bare px py →
    plot.painted (px / sprite.toNat) (py / sprite.toNat) → s.image.pixel? px py =
      some (Ground.stripColor width (px / sprite.toNat * sprite.toNat))
  laid : ∀ px py, px < width.toNat → py < height.toNat → plot.bare px py →
    ¬ plot.painted (px / sprite.toNat) (py / sprite.toNat) → s.image.pixel? px py =
      some (Ground.stripColor width px)

namespace Ground

theorem toNat_sidebarStart (width : UInt32) :
    (sidebarStart width).toNat = width.toNat - 200 := by
  have hle : (min width sidebarWidth).toNat = min width.toNat 200 := toNat_min width sidebarWidth
  rw [sidebarStart, UInt32.toNat_sub_of_le _ _ (UInt32.le_iff_toNat_le.2 (by omega)), hle]
  omega

theorem colorAt_eq_stripColor {column : Nat} (hwidth : width.toNat < 2 ^ 31)
    (hcolumn : column < 2 ^ 31) :
    colorAt (Int32.ofNat column) width true = stripColor width column := by
  have hstart := toNat_sidebarStart width
  have hexact : (sidebarStart width).toInt32.toInt = (sidebarStart width).toNat :=
    toInt_toInt32 (by omega)
  simp only [colorAt, stripColor, true_and, Int32.le_iff_toInt_le, hexact,
    Int32.toInt_ofNat_of_lt hcolumn, Int.ofNat_le]

theorem pixel?_surface {px py : Nat} (hwidth : width.toNat < 2 ^ 31) (hx : px < width.toNat)
    (hy : py < height.toNat) :
    (surface width height true).image.pixel? px py = some (stripColor width px) := by
  have hstart := toNat_sidebarStart width
  have hexact : (sidebarStart width).toInt32.toInt = (sidebarStart width).toNat :=
    toInt_toInt32 (by omega)
  have hrest : (width - sidebarStart width).toNat = width.toNat - (sidebarStart width).toNat :=
    UInt32.toNat_sub_of_le _ _ (UInt32.le_iff_toNat_le.2 (by omega))
  have hinside : Surface.Inside (sidebarStart width).toInt32 0 (width - sidebarStart width) height
      px py ↔ (sidebarStart width).toNat ≤ px := by
    rw [Surface.Inside, hexact, hrest, Int32.toInt_zero]
    omega
  rw [Image.pixel?_eq_some hx hy, pixelD_surface hx hy, stripColor]
  simp only [hinside]

theorem surface_grounded (hwidth : width.toNat < 2 ^ 31) :
    (surface width height true).Grounded .fresh side width height where
  width_eq := size_surface.1
  height_eq := size_surface.2.1
  painted _ _ _ _ _ h := h.elim
  laid _ _ hx hy _ _ := pixel?_surface hwidth hx hy

end Ground

theorem Surface.Grounded.lays {plot : Plot} {A : Nat → Nat → Prop} {p q : TilePass}
    (hp : p.surface.Grounded plot scene.sprite width height) (hwidth : width.toNat < 2 ^ 31)
    (hside : scene.sidebar = true) (h : TilePass.Lays scene side A p q) :
    q.surface.Grounded (plot.after scene p.sprites A) scene.sprite width height := by
  have hpixel : ∀ px py, px < width.toNat → py < height.toNat →
      ∃ c, p.surface.image.pixel? px py = some c := by
    rw [← hp.width_eq, ← hp.height_eq]
    exact fun px py hx hy => ⟨_, Image.pixel?_eq_some hx hy⟩
  refine ⟨h.width.trans hp.width_eq, h.height.trans hp.height_eq, ?_, ?_⟩
  · rintro px py hx hy (⟨hA, hown⟩ | ⟨hA, hbare, hnone⟩) hpainted
    · obtain ⟨c, hc⟩ := hpixel px py hx hy
      have hedge : px / scene.sprite.toNat * scene.sprite.toNat < 2 ^ 31 :=
        Nat.lt_of_le_of_lt (Nat.div_mul_le_self _ _) (by omega)
      rw [h.ground px py hA hown, hc, hp.width_eq, hside, Option.map_some,
        Ground.colorAt_eq_stripColor hwidth hedge]
    · rw [h.kept px py hA hnone]
      exact hp.painted px py hx hy hbare (hpainted.resolve_left hA)
  · rintro px py hx hy (⟨hA, -⟩ | ⟨hA, hbare, hnone⟩) hnot
    · exact absurd (.inl hA) hnot
    · rw [h.kept px py hA hnone]
      exact hp.laid px py hx hy hbare fun hpainted => hnot (.inr hpainted)

namespace Scene

theorem drawRows_grounded {plot : Plot} {p q : TilePass}
    (hs : 0 < scene.sprite.toNat) (hb : p.sprites.BuiltFor side) (hside : scene.sidebar = true)
    (hwidth : width.toNat + scene.sprite.toNat ≤ 2 ^ 31)
    (hheight : height.toNat + scene.sprite.toNat ≤ 2 ^ 31)
    (hp : p.surface.Grounded plot scene.sprite width height)
    (h : TilePass.drawRows scene scope scene.window.height.toNat 0 p = .ok q) :
    q.surface.Grounded (plot.after scene p.sprites (scene.Redraws scope width height))
      scene.sprite width height := by
  have hw := hp.width_eq
  have hh := hp.height_eq
  have hlays := TilePass.drawRows_lays 0 p hs hb (by rw [hw]; exact hwidth)
    (by rw [hh]; exact hheight) (by simp) (Nat.zero_add _) h
  rw [hw, hh] at hlays
  exact hp.lays (by omega) hside (hlays.congr fun c r => and_iff_right (Nat.zero_le r))

/-- A pass shows the ground that it leaves. -/
theorem paint_grounded {last : Option Surface} {plot : Option Plot} (hs : 0 < scene.sprite.toNat)
    (hb : sheet.BuiltFor side) (hside : scene.sidebar = true)
    (hwidth : width.toNat + scene.sprite.toNat ≤ 2 ^ 31)
    (hheight : height.toNat + scene.sprite.toNat ≤ 2 ^ 31)
    (hlast : last.Rel (·.Grounded · scene.sprite width height) plot)
    (h : scene.paint last width height scope sheet = .ok pass) :
    pass.surface.Grounded (.next scene sheet width height scope plot) scene.sprite width
      height := by
  cases hlast with
  | none =>
    simp only [paint, hside] at h
    exact drawRows_grounded hs hb hside hwidth hheight (Ground.surface_grounded (by omega)) h
  | some hlast =>
    simp only [paint, hlast.width_eq, hlast.height_eq, and_self, if_true] at h
    exact drawRows_grounded hs hb hside hwidth hheight hlast h

end Scene

end TileViewer
