import TileViewer.Proofs.Picture.Bare
import TileViewer.Proofs.Picture.Beneath

/-!
The ground of the world view, whatever is asked of its painter. It is laid out column by column and
painted over cell by cell. The two colours meet within a cell if the sidebar does not begin at the
left edge of one, and there they differ.
-/
namespace TileViewer

/-- The size of a world picture, and its ground unless it is to be laid out anew. -/
structure Land where
  width : UInt32
  height : UInt32
  plot : Option Plot

namespace Land

/-- The ground after a pass. -/
def drawn (land : Land) (sprite : UInt32) (sheet : SpriteSheet) (window : Window)
    (tiles : TileStore) (scope : Scope) : Plot :=
  .next ⟨window, tiles, sprite, true⟩ sheet land.width land.height scope land.plot

def call (sprite : UInt32) (sheet : SpriteSheet) (land : Land) : Painter.Call → Land
  | .draw window tiles scope _ =>
    { land with plot := some (land.drawn sprite sheet window tiles scope) }
  | .present _ => land
  | .reset => { land with plot := none }
  | .resize width height => ⟨width, height, none⟩

/-- The land after some calls. -/
def calls (sprite : UInt32) (sheet : SpriteSheet) (land : Land) (cs : List Painter.Call) : Land :=
  cs.foldl (call sprite sheet) land

/-- Every cell that a picture of this size shows, and the next one, has an exact place. -/
structure Fits (land : Land) (sprite : UInt32) : Prop where
  width : land.width.toNat + sprite.toNat ≤ 2 ^ 31
  height : land.height.toNat + sprite.toNat ≤ 2 ^ 31

/-- The invariant of a painter of the world view between calls. -/
structure Bears (land : Land) (sprite side : UInt32) (sheet : SpriteSheet) (p : Painter) :
    Prop where
  view : p.view = .world
  sprite_eq : p.sprite = sprite
  width_eq : p.surface.width = land.width
  height_eq : p.surface.height = land.height
  built : p.sprites.BuiltFor side
  images : p.sprites.forgetScaled = sheet.forgetScaled
  kept : ∃ last, p.canvas = .world last ∧
    (land.Fits sprite → last.Rel (·.Grounded · sprite land.width land.height) land.plot)

end Land

theorem Plot.next_congr {sheet sheet' : SpriteSheet} (h : sheet.forgetScaled = sheet'.forgetScaled)
    (scene : Scene) : next scene sheet = next scene sheet' := by
  funext width height scope plot
  cases plot <;> simp only [next, after, TilePass.reaches_congr h]

/-- A pass serves the images that it was given, whatever it begins with. -/
theorem Scene.paint_serves {scene : Scene} {last : Option Surface} {width height : UInt32}
    {scope : Scope} {sprites : SpriteSheet} {pass : TilePass} (side : UInt32)
    (h : scene.paint last width height scope sprites = .ok pass) :
    (sprites.BuiltFor side → pass.sprites.BuiltFor side) ∧
      pass.sprites.forgetScaled = sprites.forgetScaled := by
  unfold paint at h
  have hserves : TilePass.Serves side _ pass := TilePass.serves_drawRows h
  exact ⟨hserves.built, hserves.images⟩

namespace Land

variable {land : Land} {sprite side width height : UInt32} {sheet : SpriteSheet}
  {p q : Painter} {c : Painter.Call} {cs : List Painter.Call} {r : Painter.Return}
  {rs : List Painter.Return} {window : Window} {tiles : TileStore} {scope : Scope}
  {overlay : Overlay} {stats : PaintStats}

theorem bears_ofView (hbuilt : sheet.BuiltFor side) :
    Bears ⟨width, height, none⟩ (max sprite 1) side sheet
      (.ofView .world width height sprite sheet) where
  view := rfl
  sprite_eq := rfl
  width_eq := rfl
  height_eq := rfl
  built := hbuilt
  images := rfl
  kept := ⟨none, rfl, fun _ => .none⟩

theorem Bears.reset (h : land.Bears sprite side sheet p) :
    Bears { land with plot := none } sprite side sheet p.reset where
  view := h.view
  sprite_eq := h.sprite_eq
  width_eq := h.width_eq
  height_eq := h.height_eq
  built := h.built.forgetScaled
  images := h.images
  kept := ⟨none, by rw [Painter.reset, h.view]; rfl, fun _ => .none⟩

theorem Bears.resize (h : land.Bears sprite side sheet p) (width height : UInt32) :
    Bears ⟨width, height, none⟩ sprite side sheet (p.resize width height) := by
  obtain ⟨hwidth, hheight⟩ := Painter.size_resize p.surface width height
  have hresized : Bears ⟨width, height, none⟩ sprite side sheet
      { p with surface := p.surface.resize width height, canvas := .world none } :=
    ⟨h.view, h.sprite_eq, hwidth, hheight, h.built, h.images, none, rfl, fun _ => .none⟩
  exact hresized.reset

/-- What a pass shows beneath its overlay, and what is kept of it. -/
theorem Bears.draw (h : land.Bears sprite side sheet p) (hs : 0 < sprite.toNat)
    (hdraw : p.draw window tiles scope overlay = .ok (stats, q)) :
    Bears { land with plot := some (land.drawn sprite sheet window tiles scope) } sprite side sheet
      q ∧
    ∃ clean, overlay.draw .world window sprite clean = .ok q.surface ∧ (land.Fits sprite →
      clean.Grounded (land.drawn sprite sheet window tiles scope) sprite land.width
        land.height) := by
  obtain ⟨last, hcanvas, hlast⟩ := h.kept
  simp only [Painter.draw, Painter.scene, hcanvas, h.view, h.sprite_eq, h.width_eq, h.height_eq]
    at hdraw
  obtain ⟨pass, hpass, hdraw⟩ := bind_eq_ok hdraw
  obtain ⟨surface, hsurface, hdraw⟩ := bind_eq_ok hdraw
  cases hdraw
  obtain ⟨hw, hh, -⟩ := Scene.paint_keeps hpass
  obtain ⟨hbuilt, himages⟩ := Scene.paint_serves side hpass
  obtain ⟨hwidth, hheight⟩ := (Overlay.stamps_draw overlay _ _ _).size hsurface
  have hground : land.Fits sprite → pass.surface.Grounded
      (land.drawn sprite sheet window tiles scope) sprite land.width land.height := by
    intro hfits
    rw [drawn, ← Plot.next_congr h.images]
    let scene : Scene := ⟨window, tiles, sprite, true⟩
    have hpaint : scene.paint last land.width land.height scope p.sprites = .ok pass := hpass
    exact Scene.paint_grounded hs h.built rfl hfits.width hfits.height (hlast hfits) hpaint
  refine ⟨?_, pass.surface, hsurface, hground⟩
  exact ⟨rfl, rfl, hwidth.trans hw, hheight.trans hh, hbuilt h.built,
    himages.trans h.images, _, rfl, fun hfits => .some (hground ⟨hfits.width, hfits.height⟩)⟩

/-- The step lemma. -/
theorem Bears.call (h : land.Bears sprite side sheet p) (hs : 0 < sprite.toNat)
    (hcall : p.call c = .ok (r, q)) : (land.call sprite sheet c).Bears sprite side sheet q := by
  cases c with
  | draw window tiles scope overlay =>
    obtain ⟨⟨stats, u⟩, hdraw, hcall⟩ := bind_eq_ok hcall
    cases hcall
    exact (h.draw hs hdraw).1
  | present step =>
    obtain ⟨⟨yes, u⟩, hpresent, hcall⟩ := bind_eq_ok hcall
    cases hcall
    obtain ⟨last, hcanvas, -⟩ := h.kept
    simp only [Painter.present, hcanvas] at hpresent
    cases hpresent
    exact h
  | reset =>
    cases hcall
    exact h.reset
  | resize width height =>
    cases hcall
    exact h.resize width height

/-- The run lemma. -/
theorem Bears.calls (h : land.Bears sprite side sheet p) (hs : 0 < sprite.toNat)
    (hcalls : p.calls cs = .ok (rs, q)) :
    (land.calls sprite sheet cs).Bears sprite side sheet q := by
  induction cs generalizing land p rs with
  | nil =>
    cases hcalls
    exact h
  | cons c cs ih =>
    obtain ⟨⟨r, u⟩, hcall, hcalls⟩ := bind_eq_ok hcalls
    obtain ⟨⟨rest, v⟩, hrest, hcalls⟩ := bind_eq_ok hcalls
    cases hcalls
    exact ih (h.call hs hcall) hrest

/-- Where neither an image nor the overlay lies over the ground, a pass shows it. -/
theorem Bears.pixel?_draw {px py : Nat} (h : land.Bears sprite side sheet p)
    (hs : 0 < sprite.toNat) (hfits : land.Fits sprite)
    (hdraw : p.draw window tiles scope overlay = .ok (stats, q)) (hx : px < land.width.toNat)
    (hy : py < land.height.toNat) (hbare : (land.drawn sprite sheet window tiles scope).bare px py)
    (hfree : ¬ overlay.Hides .world window sprite px py) :
    ((land.drawn sprite sheet window tiles scope).painted (px / sprite.toNat) (py / sprite.toNat) →
      q.surface.image.pixel? px py =
        some (Ground.stripColor land.width (px / sprite.toNat * sprite.toNat))) ∧
    (¬ (land.drawn sprite sheet window tiles scope).painted (px / sprite.toNat)
        (py / sprite.toNat) →
      q.surface.image.pixel? px py = some (Ground.stripColor land.width px)) := by
  obtain ⟨-, clean, hclean, hground⟩ := h.draw hs hdraw
  rw [Overlay.pixel?_of_not_hides hfree hclean]
  exact ⟨(hground hfits).painted px py hx hy hbare, (hground hfits).laid px py hx hy hbare⟩

end Land

namespace Ground

/-- Two columns of the ground have one colour unless the sidebar begins between them. -/
theorem stripColor_eq_iff {width : UInt32} {left column : Nat} (hle : left ≤ column) :
    stripColor width left = stripColor width column ↔
      ¬ (left < (sidebarStart width).toNat ∧ (sidebarStart width).toNat ≤ column) := by
  have hne : Palette.playArea ≠ Palette.sidebar := by decide
  unfold stripColor
  split
  · next hstart => simp [Nat.le_trans hstart hle, Nat.not_lt.2 hstart]
  · next hstart =>
    split
    · next hcolumn => simpa [hcolumn, Nat.lt_of_not_le hstart] using hne
    · next hcolumn => simp [hcolumn]

end Ground

/-- A world without tiles has no images. -/
theorem Scene.not_reaches_empty {window : Window} {sprite : UInt32} {sidebar : Bool}
    {sheet : SpriteSheet} {c r px py : Nat} :
    ¬ Scene.Reaches ⟨window, {}, sprite, sidebar⟩ sheet c r px py := by
  rintro ⟨layer, hlayer, -⟩
  simp [Scene.stackAt, TileStore.get?] at hlayer

namespace Painter

variable {width height sprite side : UInt32} {sheet : SpriteSheet} {p q : Painter}
  {cs : List Call} {rs : List Return} {window : Window} {tiles : TileStore} {scope : Scope}
  {overlay : Overlay} {stats : PaintStats}

/-- After any calls, a pass of the world view shows the ground as it would be laid out wherever
neither an image nor the overlay lies over it, but in one place: a cell that has been painted over
has the colour of its left edge, and so it lacks the sidebar if that begins within the cell. -/
theorem ground_as_laid_out_iff (hbuilt : sheet.BuiltFor side)
    (hcalls : (ofView .world width height sprite sheet).calls cs = .ok (rs, p))
    (hdraw : p.draw window tiles scope overlay = .ok (stats, q))
    (hwidth : p.surface.width.toNat + p.sprite.toNat ≤ 2 ^ 31)
    (hheight : p.surface.height.toNat + p.sprite.toNat ≤ 2 ^ 31) :
    let laid := Ground.surface p.surface.width p.surface.height true
    let start := p.surface.width.toNat - 200
    let plot := (Land.calls p.sprite sheet ⟨width, height, none⟩ cs).drawn p.sprite sheet window
      tiles scope
    ∀ px py, px < p.surface.width.toNat → py < p.surface.height.toNat → plot.bare px py →
      ¬ overlay.Hides .world window p.sprite px py →
      laid.image.pixel? px py = some (if start ≤ px then Palette.sidebar else Palette.playArea) ∧
      (q.surface.image.pixel? px py = laid.image.pixel? px py ↔
        ¬ (plot.painted (px / p.sprite.toNat) (py / p.sprite.toNat) ∧
          px / p.sprite.toNat * p.sprite.toNat < start ∧ start ≤ px)) := by
  intro laid start plot px py hx hy hbare hfree
  have hstart : (Ground.sidebarStart p.surface.width).toNat = start :=
    Ground.toNat_sidebarStart p.surface.width
  have hbears := (Land.bears_ofView hbuilt).calls (max_one_pos sprite) hcalls
  have hs : 0 < p.sprite.toNat := by
    rw [hbears.sprite_eq]
    exact max_one_pos sprite
  rw [← hbears.sprite_eq] at hbears
  have hfits : (Land.calls p.sprite sheet ⟨width, height, none⟩ cs).Fits p.sprite :=
    ⟨by rw [← hbears.width_eq]; exact hwidth, by rw [← hbears.height_eq]; exact hheight⟩
  obtain ⟨hpainted, hother⟩ := hbears.pixel?_draw hs hfits hdraw (by rwa [← hbears.width_eq])
    (by rwa [← hbears.height_eq]) hbare hfree
  rw [← hbears.width_eq] at hpainted hother
  have hlaid : laid.image.pixel? px py = some (Ground.stripColor p.surface.width px) :=
    Ground.pixel?_surface (by omega) hx hy
  refine ⟨by rw [hlaid, Ground.stripColor, hstart], ?_⟩
  by_cases hcell : plot.painted (px / p.sprite.toNat) (py / p.sprite.toNat)
  · rw [hpainted hcell, hlaid, Option.some_inj,
      Ground.stripColor_eq_iff (Nat.div_mul_le_self _ _), hstart, and_iff_right hcell]
  · rw [hother hcell, hlaid]
    exact iff_of_true rfl fun h => hcell h.1

/-- A painter of the usual size. -/
theorem usual_inReach : (ofView .world 1024 768 32 (.ofSprite 32)).InReach .usual :=
  ⟨rfl, Canvas.inReach_ofView _ .world⟩

/-- A window that fills its surface. -/
theorem usual_draw_inReach : Call.InReach .usual (.draw ⟨0, 0, 32, 24⟩ {} .all {}) :=
  ⟨⟨by decide, by decide, by decide, by decide⟩, Scene.decides_all, nofun, nofun, nofun⟩

/-- The usual size, and a world without tiles. The sidebar begins in the middle of a cell, whose
left half is as it would be laid out and whose right half is not. -/
theorem ground_as_laid_out_iff_usual :
    ∃ (rs : List Return) (p : Painter) (stats : PaintStats) (q : Painter),
      (ofView .world 1024 768 32 (.ofSprite 32)).calls [.draw ⟨0, 0, 32, 24⟩ {} .all {}] =
        .ok (rs, p) ∧
      p.draw ⟨0, 0, 32, 24⟩ {} .all {} = .ok (stats, q) ∧
      q.surface.image.pixel? 815 100 = (Ground.surface 1024 768 true).image.pixel? 815 100 ∧
      q.surface.image.pixel? 826 100 ≠ (Ground.surface 1024 768 true).image.pixel? 826 100 := by
  let window : Window := ⟨0, 0, 32, 24⟩
  have hbuilt : (SpriteSheet.ofSprite 32).BuiltFor 32 := SpriteSheet.builtFor_ofSprite 32
  have hcall := usual_draw_inReach
  obtain ⟨⟨rs, p⟩, hcalls, hp⟩ := usual_inReach.gives_calls (List.forall_mem_singleton.2 hcall)
  obtain ⟨⟨stats, q⟩, hdraw, -⟩ := hp.gives_draw hcall.1 {} hcall.2.1 hcall.2.2
  have hbears := (Land.bears_ofView hbuilt).calls (by decide) hcalls
  have hwidth : p.surface.width = 1024 := hbears.width_eq
  have hheight : p.surface.height = 768 := hbears.height_eq
  have hsprite : p.sprite = 32 := hbears.sprite_eq
  have hground := ground_as_laid_out_iff hbuilt hcalls hdraw (by rw [hwidth, hsprite]; decide)
    (by rw [hheight, hsprite]; decide)
  rw [hwidth, hheight, hsprite] at hground
  -- Both pixels lie in the cell in column 25 and row 3, which the pass paints over.
  have hcell : ∀ px, px / (32 : UInt32).toNat = 25 → Scene.Redraws ⟨window, {}, 32, true⟩ .all 1024
      768 (px / (32 : UInt32).toNat) (100 / (32 : UInt32).toNat) := by
    intro px hcolumn
    rw [hcolumn]
    exact ⟨by decide, rfl⟩
  have hfree : ∀ px, 0 < px → px < 1024 → ¬ ({} : Overlay).Hides .world window 32 px 100 :=
    fun px hleft hx => Overlay.not_hides_empty 0 (w := 1024) (h := 768) hleft hx (by decide)
  refine ⟨rs, p, stats, q, hcalls, hdraw, ?_, ?_⟩
  · obtain ⟨-, hsame⟩ := hground 815 100 (by decide) (by decide)
      (.inl ⟨hcell 815 (by decide), Scene.not_reaches_empty⟩) (hfree 815 (by decide) (by decide))
    exact hsame.2 fun h => absurd h.2.2 (by decide)
  · obtain ⟨-, hsame⟩ := hground 826 100 (by decide) (by decide)
      (.inl ⟨hcell 826 (by decide), Scene.not_reaches_empty⟩) (hfree 826 (by decide) (by decide))
    exact fun h => hsame.1 h ⟨.inl (hcell 826 (by decide)), by decide, by decide⟩

/-- At the usual size, eight columns of the sidebar have the colour of the play area. -/
theorem sidebar_lost_at_usual_size :
    ∃ (stats : PaintStats) (q : Painter),
      (ofView .world 1024 768 32 (.ofSprite 32)).draw ⟨0, 0, 32, 24⟩ {} .all {} = .ok (stats, q) ∧
      ∀ px py, 824 ≤ px → px < 832 → py < 768 →
        (∀ c r, ¬ Scene.Reaches ⟨⟨0, 0, 32, 24⟩, {}, 32, true⟩ (.ofSprite 32) c r px py) ∧
        ¬ ({} : Overlay).Hides .world ⟨0, 0, 32, 24⟩ 32 px py ∧
        q.surface.image.pixel? px py = some Palette.playArea ∧
        (Ground.surface 1024 768 true).image.pixel? px py = some Palette.sidebar := by
  have hcall := usual_draw_inReach
  obtain ⟨⟨stats, q⟩, hdraw, -⟩ := usual_inReach.gives_draw hcall.1 {} hcall.2.1 hcall.2.2
  refine ⟨stats, q, hdraw, fun px py hleft hright hy => ?_⟩
  have hfree : ¬ ({} : Overlay).Hides .world ⟨0, 0, 32, 24⟩ 32 px py :=
    Overlay.not_hides_empty 0 (w := 1024) (h := 768) (by omega) (show px < 1024 by omega) hy
  have hcolumn : px / (32 : UInt32).toNat = 25 := by
    change px / 32 = 25
    omega
  have hrow : py / (32 : UInt32).toNat < 24 := by
    change py / 32 < 24
    omega
  have hcell : Scene.Redraws ⟨⟨0, 0, 32, 24⟩, {}, 32, true⟩ .all 1024 768
      (px / (32 : UInt32).toNat) (py / (32 : UInt32).toNat) := by
    rw [hcolumn]
    refine ⟨⟨by decide, hrow, ?_⟩, rfl⟩
    change ((py / 32 * 32 : Nat) : Int) < 768
    omega
  have hbuilt : (SpriteSheet.ofSprite 32).BuiltFor 32 := SpriteSheet.builtFor_ofSprite 32
  have hbears : Land.Bears ⟨1024, 768, none⟩ (max 32 1) 32 (.ofSprite 32)
      (ofView .world 1024 768 32 (.ofSprite 32)) := Land.bears_ofView hbuilt
  have hshown : q.surface.image.pixel? px py =
      some (Ground.stripColor 1024 (px / (32 : UInt32).toNat * (32 : UInt32).toNat)) :=
    (hbears.pixel?_draw (by decide) ⟨by decide, by decide⟩ hdraw (show px < 1024 by omega) hy
      (.inl ⟨hcell, Scene.not_reaches_empty⟩) hfree).1 (.inl hcell)
  have hstart : (Ground.sidebarStart 1024).toNat ≤ px := by
    rw [Ground.toNat_sidebarStart]
    exact hleft
  refine ⟨fun c r => Scene.not_reaches_empty, hfree, ?_, ?_⟩
  · rw [hshown, hcolumn]
    decide
  · rw [Ground.pixel?_surface (by decide) (show px < 1024 by omega) hy, Ground.stripColor,
      if_pos hstart]

end Painter

end TileViewer
