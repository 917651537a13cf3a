import TileViewer.Painter
import TileViewer.Proofs.Picture.Pass

/-!
What a picture shows, cell by cell, without its pixels. A pass repaints the cells in its scope with
the stacks of the world and leaves the others as they were.
-/
namespace TileViewer

/-- The stacks that the cells of a picture show. A cell without one is bare ground. -/
abbrev Board := Nat → Nat → Option LayerStack

/-- The picture of a board. -/
structure Surface.Pictures (s : Surface) (board : Board) (sheet : SpriteSheet)
    (width height : UInt32) (sidebar : Bool) : Prop where
  width_eq : s.width = width
  height_eq : s.height = height
  labels : s.labels = #[]
  pixel : ∀ px py, s.image.pixel? px py =
    ((Ground.surface width height sidebar).image.pixel? px py).map fun ground =>
      match board (px / sheet.sprite.toNat) (py / sheet.sprite.toNat) with
      | none => ground
      | some stack => sheet.cellColor width sidebar stack px py

namespace Board

def bare : Board := fun _ _ => none

end Board

variable {s t : Surface} {board : Board} {sheet sheet' : SpriteSheet} {width height : UInt32}
  {sidebar : Bool} {scene : Scene} {scope : Scope}

theorem Surface.Pictures.congr (hs : s.Pictures board sheet width height sidebar)
    (h : sheet'.forgetScaled = sheet.forgetScaled) :
    s.Pictures board sheet' width height sidebar := by
  refine ⟨hs.width_eq, hs.height_eq, hs.labels, ?_⟩
  intro px py
  rw [hs.pixel, SpriteSheet.sprite_congr h, SpriteSheet.cellColor_congr h]

/-- Without a sidebar, two pictures agree on a pixel of a cell when its two stacks do. -/
theorem Surface.Pictures.pixel?_eq_iff {board' : Board} {old new : LayerStack} {px py : Nat}
    {side : UInt32} (hs : s.Pictures board sheet width height false)
    (ht : t.Pictures board' sheet width height false) (hside : sheet.sprite = side)
    (hx : px < width.toNat) (hy : py < height.toNat)
    (hold : board (px / side.toNat) (py / side.toNat) = some old)
    (hnew : board' (px / side.toNat) (py / side.toNat) = some new) :
    s.image.pixel? px py = t.image.pixel? px py ↔
      sheet.stackColor old Palette.playArea (px % side.toNat) (py % side.toNat) =
        sheet.stackColor new Palette.playArea (px % side.toNat) (py % side.toNat) := by
  subst hside
  have hground : (Ground.surface width height false).image.pixel? px py =
      some ((Ground.surface width height false).image.pixelD px py) := Image.pixel?_eq_some hx hy
  rw [hs.pixel, ht.pixel, hground, hold, hnew, Option.map_some, Option.map_some, Option.some_inj]
  simp only [SpriteSheet.cellColor, Ground.colorAt, Bool.false_eq_true, false_and, if_false]

theorem Ground.size_surface : (Ground.surface width height sidebar).width = width ∧
    (Ground.surface width height sidebar).height = height ∧
    (Ground.surface width height sidebar).labels = #[] := by
  unfold Ground.surface
  cases sidebar <;> exact ⟨rfl, rfl, rfl⟩

theorem Ground.surface_pictures :
    (Ground.surface width height sidebar).Pictures .bare sheet width height sidebar :=
  ⟨size_surface.1, size_surface.2.1, size_surface.2.2, fun px py => by simp [Board.bare]⟩

/-- The strip at the right edge of the bare ground. -/
theorem Ground.pixelD_surface {px py : Nat} (hx : px < width.toNat) (hy : py < height.toNat) :
    (Ground.surface width height true).image.pixelD px py =
      if Surface.Inside (sidebarStart width).toInt32 0 (width - sidebarStart width) height px py then
        Palette.sidebar
      else Palette.playArea := by
  have hfilled : (Image.filled width height Palette.playArea).pixel? px py =
      some Palette.playArea := by
    rw [Image.pixel?_filled, if_pos ⟨hx, hy⟩]
  unfold Image.pixelD Ground.surface
  simp only [if_true]
  rw [Surface.pixel?_fillRect]
  change (ite _ ((Image.filled width height Palette.playArea).pixel? px py |>.map _)
    ((Image.filled width height Palette.playArea).pixel? px py)).getD _ = _
  rw [hfilled]
  split <;> rfl

/-- The colour of a pixel in a cell of a picture. A cell without a stack is bare ground. -/
def SpriteSheet.boardColor (s : SpriteSheet) (width height : UInt32) (sidebar : Bool)
    (cell : Option LayerStack) (px py : Nat) : Color :=
  match cell with
  | none => (Ground.surface width height sidebar).image.pixelD px py
  | some stack => s.cellColor width sidebar stack px py

theorem SpriteSheet.boardColor_congr (h : sheet.forgetScaled = sheet'.forgetScaled) :
    sheet.boardColor = sheet'.boardColor := by
  have := congrArg boardColor h
  exact this

theorem Surface.Pictures.pixel?_eq_some {px py : Nat}
    (hs : s.Pictures board sheet width height sidebar) (hx : px < width.toNat)
    (hy : py < height.toNat) :
    s.image.pixel? px py = some (sheet.boardColor width height sidebar
      (board (px / sheet.sprite.toNat) (py / sheet.sprite.toNat)) px py) := by
  have hground : (Ground.surface width height sidebar).image.pixel? px py =
      some ((Ground.surface width height sidebar).image.pixelD px py) := by
    cases sidebar <;> exact Image.pixel?_eq_some hx hy
  rw [hs.pixel, hground, Option.map_some]
  cases board (px / sheet.sprite.toNat) (py / sheet.sprite.toNat) <;> rfl

namespace Scene

/-- A board after a pass. -/
def repaint (scene : Scene) (width height : UInt32) (scope : Scope) (board : Board) : Board :=
  fun c r =>
    if scene.window.Shows scene.sprite width height c r ∧ scope.Covers scene.sprite c r then
      some (scene.stackAt c r)
    else board c r

/-- The board after a pass that begins with the board of the last one, if there was one. -/
def nextBoard (scene : Scene) (width height : UInt32) (scope : Scope) : Option Board → Board
  | none => scene.repaint width height .all .bare
  | some board => scene.repaint width height scope board

/-- Every cell shown has the stack of the world, and the rest is bare. -/
def worldBoard (scene : Scene) (width height : UInt32) : Board :=
  scene.repaint width height .all .bare

theorem decides_all : Scope.all.Decides := fun _ _ => ⟨true, rfl⟩

theorem drawRows_pictures {stats : PaintStats}
    (hfit : scene.window.Fits scene.sprite width height)
    (hscope : scope.Decides) (hb : sheet.BuiltFor scene.sprite)
    (hs : s.Pictures board sheet width height scene.sidebar) :
    ∃ pass, TilePass.drawRows scene scope scene.window.height.toNat 0 ⟨s, sheet, stats⟩ = .ok pass ∧
      pass.surface.Pictures (scene.repaint width height scope board) sheet width height
        scene.sidebar ∧
      pass.sprites.BuiltFor scene.sprite ∧ pass.sprites.forgetScaled = sheet.forgetScaled := by
  obtain ⟨rfl, rfl, hl, hpx⟩ := hs
  obtain ⟨pass, hpass, hr⟩ := TilePass.drawRows_repaints 0 ⟨s, sheet, stats⟩ hfit
    hscope hb (Nat.zero_add _)
  refine ⟨pass, hpass, ⟨hr.width, hr.height, hr.labels.trans hl, ?_⟩, hr.built,
    hr.images⟩
  intro px py
  simp only [hb.sprite_eq, repaint] at hpx ⊢
  by_cases hin : scene.window.Shows scene.sprite s.width s.height (px / scene.sprite.toNat)
      (py / scene.sprite.toNat) ∧
    scope.Covers scene.sprite (px / scene.sprite.toNat) (py / scene.sprite.toNat)
  · rw [hr.painted px py ⟨Nat.zero_le _, hin⟩, hpx, Option.map_map]
    simp only [if_pos hin]
    rfl
  · rw [hr.untouched px py fun h => hin h.2, hpx]
    simp only [if_neg hin]

theorem paint_pictures (scene : Scene) {last : Option Surface} {board : Option Board}
    (hfit : scene.window.Fits scene.sprite width height)
    (hscope : scope.Decides) (hb : sheet.BuiltFor scene.sprite)
    (hlast : last.Rel (·.Pictures · sheet width height scene.sidebar) board) :
    ∃ pass, scene.paint last width height scope sheet = .ok pass ∧
      pass.surface.Pictures (scene.nextBoard width height scope board) sheet width height
        scene.sidebar ∧
      pass.sprites.BuiltFor scene.sprite ∧ pass.sprites.forgetScaled = sheet.forgetScaled := by
  cases hlast with
  | none => exact drawRows_pictures hfit decides_all hb Ground.surface_pictures
  | some hs =>
    simp only [paint, hs.width_eq, hs.height_eq, and_self, if_true]
    exact drawRows_pictures hfit hscope hb hs

end Scene

namespace Painter

variable {p : Painter} {sprite : UInt32} {window : Window} {tiles : TileStore} {overlay : Overlay}
  {board : Option Board}

theorem draw_world {last : Option Surface} (tiles : TileStore) (overlay : Overlay)
    (hc : p.canvas = .world last) (hs : p.sprite = sprite)
    (hw : p.surface.width = width) (hh : p.surface.height = height)
    (hfit : window.Fits sprite width height) (hscope : scope.Decides)
    (hb : p.sprites.BuiltFor sprite)
    (hlast : last.Rel (·.Pictures · p.sprites width height true) board) :
    ∃ stats clean sheet,
      clean.Pictures (Scene.nextBoard ⟨window, tiles, sprite, true⟩ width height scope board)
        p.sprites width height true ∧
      sheet.BuiltFor sprite ∧ sheet.forgetScaled = p.sprites.forgetScaled ∧
      p.draw window tiles scope overlay =
        (overlay.draw p.view window sprite clean).map fun surface =>
          (stats, { p with surface, canvas := .world (some clean), sprites := sheet }) := by
  subst hs hw hh
  obtain ⟨pass, hpass, hpic, hbuilt, himages⟩ := Scene.paint_pictures
    ⟨window, tiles, p.sprite, true⟩ hfit hscope hb hlast
  refine ⟨pass.stats, pass.surface, pass.sprites, hpic, hbuilt, himages, ?_⟩
  simp only [draw, scene, hc, hpass, bind, Except.bind]
  cases overlay.draw p.view window p.sprite pass.surface <;> rfl

theorem draw_follow {picture : Surface} {painted : Option (Window × Surface)}
    (tiles : TileStore) (overlay : Overlay) (hc : p.canvas = .follow picture painted)
    (hs : p.sprite = sprite) (hsize : window.sizePx sprite = (width, height))
    (hfit : window.Fits sprite width height) (hscope : scope.Decides)
    (hb : p.sprites.BuiltFor sprite)
    (hlast : (painted.bind fun (w, s) => if w = window then some s else none).Rel
      (·.Pictures · p.sprites width height false) board) :
    ∃ stats clean sheet,
      clean.Pictures (Scene.nextBoard ⟨window, tiles, sprite, false⟩ width height scope board)
        p.sprites width height false ∧
      sheet.BuiltFor sprite ∧ sheet.forgetScaled = p.sprites.forgetScaled ∧
      p.draw window tiles scope overlay =
        (overlay.draw p.view window sprite clean).map fun picture =>
          (stats,
            { p with canvas := .follow picture (some (window, clean)), sprites := sheet }) := by
  subst hs
  obtain ⟨pass, hpass, hpic, hbuilt, himages⟩ := Scene.paint_pictures
    ⟨window, tiles, p.sprite, false⟩ hfit hscope hb hlast
  refine ⟨pass.stats, pass.surface, pass.sprites, hpic, hbuilt, himages, ?_⟩
  simp only [draw, scene, hc, hsize, hpass, bind, Except.bind]
  cases overlay.draw p.view window p.sprite pass.surface <;> rfl

end Painter

end TileViewer
