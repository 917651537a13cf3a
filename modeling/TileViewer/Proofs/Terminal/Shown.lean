import TileViewer.Proofs.Terminal.Spans
import TileViewer.Terminal.Display

/-!
A display and its terminal over any number of surfaces. After each of them the terminal shows the
surface, whatever it held at those moments when the display knows nothing about it.
-/
namespace TileViewer

namespace CellGrid

variable {g : CellGrid}

theorem size_set (x y : UInt16) (c : Cell) :
    (g.set x y c).width = g.width ∧ (g.set x y c).height = g.height := by
  unfold set
  split <;> exact ⟨rfl, rfl⟩

theorem size_putChars (x y : UInt16) (fg : Rgb) (bg : Option Rgb) (i : Nat) (cs : List Char)
    (g : CellGrid) : (putChars x y fg bg i cs g).width = g.width ∧
      (putChars x y fg bg i cs g).height = g.height := by
  fun_induction putChars x y fg bg i cs g with
  | case1 | case2 | case3 | case4 => exact ⟨rfl, rfl⟩
  | case5 i c cs g column hcolumn hin under hunder ih =>
    obtain ⟨hw, hh⟩ := g.size_set column y ⟨c, fg, bg.getD under.bg⟩
    exact ⟨ih.1.trans hw, ih.2.trans hh⟩

theorem size_putLabel (s : Surface) (g : CellGrid) (label : Label) :
    (putLabel s g label).width = g.width ∧ (putLabel s g label).height = g.height := by
  unfold putLabel
  split
  · exact ⟨rfl, rfl⟩
  · dsimp only
    split
    · exact ⟨rfl, rfl⟩
    · exact size_putChars _ _ _ _ _ _ _

theorem size_foldl_putLabel (s : Surface) (labels : List Label) (g : CellGrid) :
    (labels.foldl (putLabel s) g).width = g.width ∧
      (labels.foldl (putLabel s) g).height = g.height := by
  induction labels generalizing g with
  | nil => exact ⟨rfl, rfl⟩
  | cons label labels ih =>
    obtain ⟨hw, hh⟩ := size_putLabel s g label
    exact ⟨(ih _).1.trans hw, (ih _).2.trans hh⟩

theorem size_showSurface (g : CellGrid) (s : Surface) :
    (g.showSurface s).width = g.width ∧ (g.showSurface s).height = g.height := by
  unfold showSurface
  dsimp only
  split
  · exact ⟨rfl, rfl⟩
  · rw [← Array.foldl_toList]
    exact size_foldl_putLabel s _ _

/-- What a grid showed before has no part in the surface it shows. -/
theorem showSurface_resize (g : CellGrid) (columns rows : UInt16) (s : Surface) :
    (g.resize columns rows).showSurface s = (blank columns rows).showSurface s := rfl

end CellGrid

/-- What happens to a display. `found` is what the terminal holds when a surface comes of which the
display does not know what it replaces. -/
inductive Showing
  | present (s : Surface) (columns rows : UInt16) (found : Screen)
  | invalidate

/-- A display and the terminal it writes to. -/
structure Terminal where
  display : Display := {}
  screen : Screen
  /-- The size at which the last surface was shown, unless the display was invalidated since. -/
  size : Option (UInt16 × UInt16) := none

namespace Terminal

/-- What the terminal holds when the next surface comes. Before the first surface, at another size
than the last and after an invalidation that can be anything. -/
def held (t : Terminal) (columns rows : UInt16) (found : Screen) : Screen :=
  if t.size = some (columns, rows) then t.screen else found

def step (t : Terminal) : Showing → Terminal
  | .present s columns rows found =>
    let (commands, display) := t.display.present s columns rows
    { display, screen := (t.held columns rows found).execAll commands
      size := some (columns, rows) }
  | .invalidate => { t with display := t.display.invalidate, size := none }

def run (t : Terminal) (showings : List Showing) : Terminal := showings.foldl step t

variable {t : Terminal}

/-- What the display believes to be shown is shown. -/
def Faithful (t : Terminal) : Prop :=
  ∀ g, t.display.shown = some g → t.size = some (g.width, g.height) ∧ t.screen.Shows g

theorem shows_present (h : t.Faithful) (s : Surface) (columns rows : UInt16) (found : Screen) :
    (t.step (.present s columns rows found)).display.shown =
        some ((CellGrid.blank columns rows).showSurface s) ∧
      (t.step (.present s columns rows found)).screen.Shows
        ((CellGrid.blank columns rows).showSurface s) := by
  obtain ⟨hw, hh⟩ := (CellGrid.blank columns rows).size_showSurface s
  simp only [step, Display.present, CellGrid.showSurface_resize]
  generalize (CellGrid.blank columns rows).showSurface s = next at hw hh
  cases hshown : t.display.shown with
  | none => exact ⟨rfl, next.shows_fullCommands _⟩
  | some old =>
    obtain ⟨hsize, hold⟩ := h old hshown
    dsimp only
    split
    · next heq =>
      refine ⟨rfl, ?_⟩
      rw [held, if_pos (by rw [hsize, heq.1, heq.2])]
      exact CellGrid.shows_diffCommands (heq.1.trans hw.symm) (heq.2.trans hh.symm) hold
    · exact ⟨rfl, next.shows_fullCommands _⟩

theorem Faithful.step (h : t.Faithful) (e : Showing) : (t.step e).Faithful := by
  cases e with
  | present s columns rows found =>
    obtain ⟨hshown, hscreen⟩ := shows_present h s columns rows found
    obtain ⟨hw, hh⟩ := (CellGrid.blank columns rows).size_showSurface s
    intro g hg
    cases hshown.symm.trans hg
    exact ⟨by rw [hw, hh]; rfl, hscreen⟩
  | invalidate => exact fun g hg => nomatch hg

theorem Faithful.run (h : t.Faithful) (showings : List Showing) : (t.run showings).Faithful := by
  induction showings generalizing t with
  | nil => exact h
  | cons e showings ih => exact ih (h.step e)

/-- After every surface that a new display shows, among any others of any sizes and any
invalidations, each place of the terminal shows the cell that a new grid of its size has there for
the surface. -/
theorem shows_every_surface (screen : Screen) (showings : List Showing) (s : Surface)
    (columns rows : UInt16) (found : Screen) :
    ∀ x < columns, ∀ y < rows,
      (((CellGrid.blank columns rows).showSurface s).get? x y).map Cell.glyph =
        some (((Terminal.run { screen } showings).step
          (.present s columns rows found)).screen.glyph x.toNat y.toNat) := by
  have hnew : ({ screen } : Terminal).Faithful := fun g hg => nomatch hg
  have hshows := (shows_present (hnew.run showings) s columns rows found).2
  obtain ⟨hw, hh⟩ := (CellGrid.blank columns rows).size_showSurface s
  intro x hx y hy
  exact hshows x y (hw.symm ▸ hx) (hh.symm ▸ hy)

/-- A red cell written over a blue one, on a terminal that held crosses at first. -/
theorem shows_every_surface_second :
    let crosses : Screen := ⟨fun _ _ => ⟨'x', none, none⟩, 3, 4, none, none⟩
    let blue := (Surface.blank 1 2).fill ⟨0, 0, 255, 255⟩
    let red := (Surface.blank 1 2).fill ⟨255, 0, 0, 255⟩
    (0 : UInt16) < 1 ∧
      ((Terminal.run { screen := crosses } [.present blue 1 1 crosses]).step
        (.present red 1 1 crosses)).screen.glyph 0 0 =
          ⟨'▀', some ⟨255, 0, 0⟩, some ⟨255, 0, 0⟩⟩ := by
  intro crosses blue red
  have hshown := shows_every_surface crosses [.present blue 1 1 crosses] red 1 1 crosses 0
    (by decide) 0 (by decide)
  refine ⟨by decide, Option.some.inj (hshown.symm.trans ?_)⟩
  decide

end Terminal

end TileViewer
