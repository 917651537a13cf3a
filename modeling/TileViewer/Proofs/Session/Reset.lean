import TileViewer.Proofs.Picture.Alike
import TileViewer.Proofs.Session.World

/-!
A reset takes a viewer back to its beginning. From there on it cannot be told from a new viewer of
the same settings and images: it answers every event alike, and the pictures it shows are the same.
Only the side data and the counts stay.
-/
namespace TileViewer

theorem DirtyGrid.cleared_absorb (g other : DirtyGrid) : (g.absorb other).cleared = g.cleared := by
  unfold absorb
  split <;> rfl

theorem DamageNumbers.restart_advance {d d' : DamageNumbers} {drawn : List DamageNumber}
    (h : d.advance = .ok (drawn, d')) (seed : UInt32) : d'.restart seed = d.restart seed := by
  obtain ⟨numbers, -, h⟩ := bind_eq_ok h
  cases h
  rfl

theorem DirtyGrid.cleared_of_ofSprite {sprite : UInt32} {g : DirtyGrid}
    (h : ofSprite sprite = .ok g) : g.cleared = g := by
  obtain ⟨side, -, h⟩ := bind_eq_ok h
  cases h
  rfl

theorem DamageNumbers.restart_of_ofSeed {sprite seed : UInt32} {d : DamageNumbers}
    (h : ofSeed sprite seed = .ok d) : d.restart seed = d := by
  obtain ⟨speed, -, h⟩ := bind_eq_ok h
  cases h
  rfl

namespace Viewer

/-- What the caller is told about an event. -/
inductive Reply
  | taken (i : Intake)
  | ticked (o : Outcome)
  | reset
  deriving DecidableEq, Repr

def respond (v : Viewer) : Event → Except Overflow (Reply × Viewer)
  | .message m => .ok (.taken (v.ingest m).1, (v.ingest m).2)
  | .tick now => (v.tick now).map fun (o, w) => (.ticked o, w)
  | .reset => .ok (.reset, v.reset)

/-- What can be seen of a viewer besides its surface, its side data and its counts. -/
structure Sight where
  tiles : TileStore
  frames : Nat
  steps : Nat
  lastSeq : Option UInt64
  lastWindow : Option Window
  numbers : DamageNumbers

def sight (v : Viewer) : Sight where
  tiles := v.tiles
  frames := v.queue.size
  steps := v.camera.steps.length
  lastSeq := v.lastSeq
  lastWindow := v.lastWindow
  numbers := v.numbers

/-- Whether the event has put a picture on the surface. -/
def Reply.shows (view : View) : Reply → Bool
  | .ticked (.drawn _ _) => view = .world
  | .ticked (.stepped _) => view = .follow
  | _ => false

/-- What is seen after each event, up to the first overflow. The surface counts from the first
picture on. -/
def trace (v : Viewer) (shown : Bool) :
    List Event → List (Except Overflow (Reply × Sight × Option Surface))
  | [] => []
  | e :: events =>
    match v.respond e with
    | .error x => [.error x]
    | .ok (reply, w) =>
      let shown := shown || reply.shows v.view
      .ok (reply, w.sight, if shown then some w.surface else none) :: w.trace shown events

variable {s : ViewerSettings} {sheet old : SpriteSheet} {u v w : Viewer} {shown : Bool}

/-- A viewer whose painter has the same settings and has painted nothing yet. -/
structure Fresh (u : Viewer) : Prop where
  sprite_pos : 0 < u.sprite.toNat
  view : u.painter.view = u.view
  sprite : u.painter.sprite = u.sprite
  width : u.painter.surface.width = u.surfaceWidth
  height : u.painter.surface.height = u.surfaceHeight
  canvas : u.painter.canvas = .ofView u.view

/-- Camera steps wait only for a picture that covers the surface. -/
inductive Staged (u : Viewer) : List Point → Canvas → Prop
  | world {steps : List Point} {last : Option Surface} (hview : u.view = .world) :
    Staged u steps (.world last)
  | bare {picture : Surface} (hview : u.view = .follow) : Staged u [] (.follow picture none)
  | pictured {steps : List Point} {picture clean : Surface} {window : Window}
    (hview : u.view = .follow)
    (hsize : window.sizePx u.painter.sprite = (picture.width, picture.height))
    (hw : u.painter.surface.width ≤ picture.width)
    (hh : u.painter.surface.height ≤ picture.height) :
    Staged u steps (.follow picture (some (window, clean)))

/-- The viewer with the pictures, the side data and the counts of another one. -/
def dressedAs (v w : Viewer) : Viewer :=
  { v with painter := w.painter, side := w.side, stats := w.stats }

theorem Staged.canvas_eq {steps : List Point} {canvas : Canvas} (h : Staged u steps canvas) :
    (u.view = .world ∧ ∃ last, canvas = .world last) ∨
      u.view = .follow ∧ ∃ picture painted, canvas = .follow picture painted := by
  cases h with
  | world hview => exact .inl ⟨hview, _, rfl⟩
  | bare hview => exact .inr ⟨hview, _, _, rfl⟩
  | pictured hview => exact .inr ⟨hview, _, _, rfl⟩

/-- Two viewers in one state, apart from what may differ between sessions. A reset takes both back
to `u`. -/
structure Together (u : Viewer) (shown : Bool) (v w : Viewer) : Prop where
  same : v = w.dressedAs v
  painters : u.painter.Twins v.painter w.painter
  surfaces : shown = true → v.surface = w.surface
  restarts : w.reset.dressedAs u = u
  stage : Staged u w.camera.steps w.painter.canvas

theorem Together.ingest (h : Together u shown v w) (m : Message) :
    (v.ingest m).1 = (w.ingest m).1 ∧ Together u shown (v.ingest m).2 (w.ingest m).2 := by
  obtain ⟨hsame, hpainters, hsurfaces, hrestarts, hstage⟩ := h
  rw [hsame]
  cases m with
  | frame f =>
    simp only [Viewer.ingest, dressedAs]
    split <;> exact ⟨rfl, rfl, hpainters, hsurfaces, hrestarts, hstage⟩
  | side update => exact ⟨rfl, rfl, hpainters, hsurfaces, hrestarts, hstage⟩
  | unknown type => exact ⟨rfl, rfl, hpainters, hsurfaces, hrestarts, hstage⟩

/-- Before the first picture nothing is staged. -/
theorem staged_ofView (u : Viewer) : Staged u [] (.ofView u.view) := by
  cases hview : u.view with
  | world => exact .world hview
  | follow => exact .bare hview

theorem Together.reset (h : Together u shown v w) (hu : u.Fresh) :
    Together u shown v.reset w.reset := by
  obtain ⟨hsame, ⟨hp, hq, hcanvas⟩, hsurfaces, hrestarts, hstage⟩ := h
  have hleft : v.painter.reset.canvas = .ofView u.view :=
    congrArg Canvas.ofView (hp.view.trans hu.view)
  have hright : w.painter.reset.canvas = .ofView u.view :=
    congrArg Canvas.ofView (hq.view.trans hu.view)
  refine ⟨?_, ⟨{ hp with sprites := hp.sprites.forgetScaled },
    { hq with sprites := hq.sprites.forgetScaled }, hleft.trans hright.symm⟩, hsurfaces, hrestarts,
    ?_⟩
  · rw [hsame]
    rfl
  · change Staged u [] w.painter.reset.canvas
    rw [hright]
    exact staged_ofView u

/-- The answers are the same, and so is what comes of them. -/
abbrev Answer (u : Viewer) (shown : Bool) (a b : Outcome × Viewer) : Prop :=
  a.1 = b.1 ∧ Together u (shown || (Reply.ticked b.1).shows u.view) a.2 b.2

/-- An event that shows nothing. -/
theorem Together.answered (h : Together u shown v w) {reply : Reply}
    (hreply : reply.shows u.view = false) : Together u (shown || reply.shows u.view) v w := by
  rwa [hreply, Bool.or_false]

theorem Together.idle (h : Together u shown v w) : Answer u shown (.idle, v) (.idle, w) :=
  ⟨rfl, h.answered rfl⟩

theorem Together.cameraStep (h : Together u shown v w) (hview : u.view = .follow) (now : UInt64)
    (backlog : Nat) :
    Agree (Answer u shown) (v.cameraStep now backlog) (w.cameraStep now backlog) := by
  have hidle := h.idle
  obtain ⟨hsame, hpainters, hsurfaces, hrestarts, hstage⟩ := h
  rw [hsame] at hidle ⊢
  simp only [Viewer.cameraStep, dressedAs]
  by_cases hdue : w.stepPacer.isDue now (Pacing.stepInterval backlog) = true
  · simp only [hdue, if_true]
    cases hsteps : w.camera.steps with
    | nil =>
      simp only [Camera.next, hsteps]
      exact .ok hidle
    | cons step steps =>
      simp only [Camera.next, hsteps]
      rw [hsteps] at hstage
      generalize hcanvas : w.painter.canvas = canvas at hstage
      cases hstage with
      | world hview' => exact absurd (hview'.symm.trans hview) (by decide)
      | pictured _ hsize hw hh =>
        refine .bind (hpainters.present hcanvas hsize hw hh step) ?_
        rintro ⟨_, p⟩ ⟨_, q⟩ ⟨rfl, htwins, hsurface, hcanvas'⟩
        refine .ok ⟨rfl, rfl, htwins, fun _ => hsurface, hrestarts, ?_⟩
        change Staged u steps q.canvas
        rw [hcanvas', hcanvas]
        exact .pictured hview hsize hw hh
  · simp only [hdue]
    exact .ok hidle

theorem Together.settings (h : Together u shown v w) : w.view = u.view ∧ w.sprite = u.sprite ∧
    w.surfaceWidth = u.surfaceWidth ∧ w.surfaceHeight = u.surfaceHeight := by
  rw [← h.restarts]
  exact ⟨rfl, rfl, rfl, rfl⟩

theorem Together.applyFrame (h : Together u shown v w) (frame : Frame) (window : Window)
    (now : UInt64) :
    Agree (fun a b => a.1 = b.1 ∧ Together u shown a.2 b.2) (v.applyFrame frame window now)
      (w.applyFrame frame window now) := by
  obtain ⟨hsame, hpainters, hsurfaces, hrestarts, hstage⟩ := h
  rw [hsame]
  simp only [Viewer.applyFrame, dressedAs]
  refine .of_value ?_
  rintro ⟨summary, patcher, tiles, marks⟩ happly
  cases (Patcher.apply_eq_ok happly).2.2.1
  exact .ok ⟨rfl, rfl, hpainters, hsurfaces, hrestarts, hstage⟩

theorem Together.skipped (h : Together u shown v w) (marks : DirtyGrid) (a b : ViewerStats) :
    Together u shown { v with dirty := v.dirty.absorb marks, stats := a }
      { w with dirty := w.dirty.absorb marks, stats := b } := by
  obtain ⟨hsame, hpainters, hsurfaces, hrestarts, hstage⟩ := h
  refine ⟨?_, hpainters, hsurfaces, ?_, hstage⟩
  · rw [hsame]
    rfl
  · rw [← hrestarts]
    simp only [dressedAs, Viewer.reset, DirtyGrid.cleared_absorb]

theorem Together.paintFrame (h : Together u shown v w) (hu : u.Fresh) {frame : Frame}
    {window : Window} (hwindow : Window.ofFrame u.view frame u.surfaceWidth u.surfaceHeight u.sprite
      = .ok window) (marks : DirtyGrid) :
    Agree (Answer u shown) (v.paintFrame frame window marks)
      (w.paintFrame frame window marks) := by
  have hview := h.settings.1
  obtain ⟨hsame, hpainters, hsurfaces, hrestarts, hstage⟩ := h
  rw [hsame]
  simp only [Viewer.paintFrame, dressedAs]
  refine .of_value ?_
  rintro ⟨drawn, numbers⟩ hadvance
  have hrestart := DamageNumbers.restart_advance hadvance w.seed
  rcases hstage.canvas_eq with ⟨hworld, last, hcanvas⟩ | ⟨hfollow, picture, painted, hcanvas⟩
  · refine .bind (hpainters.draw_world hcanvas) ?_
    rintro ⟨_, p⟩ ⟨stats, q⟩ ⟨rfl, htwins, hsurface, last', hcanvas'⟩
    rw [hview, hworld]
    refine .ok ⟨rfl, rfl, htwins, fun _ => hsurface, ?_, ?_⟩
    · rw [← hrestarts]
      simp only [dressedAs, Viewer.reset, hrestart, hview, hworld]
    · change Staged u _ q.canvas
      rw [hcanvas']
      exact .world hworld
  · refine .bind (hpainters.draw_follow hcanvas) ?_
    rintro ⟨_, p⟩ ⟨stats, q⟩ ⟨rfl, htwins, hleft, hright, picture', clean, hcanvas', hsize⟩
    rw [hview, hfollow]
    refine .of_value fun target _ => .of_value ?_
    rintro ⟨n, camera⟩ -
    refine .ok ⟨rfl, rfl, htwins, ?_, ?_, ?_⟩
    · intro hshown
      have hbefore := hsurfaces (by simpa [hfollow, Reply.shows] using hshown)
      exact hleft.trans (hbefore.trans hright.symm)
    · rw [← hrestarts]
      simp only [dressedAs, Viewer.reset, hrestart, hview, hfollow]
    · change Staged u _ q.canvas
      rw [hcanvas']
      rw [hfollow] at hwindow
      obtain ⟨hw, hh⟩ := Window.surface_le_sizePx hu.sprite_pos hwindow
      rw [← hu.sprite, hsize, ← hu.width] at hw
      rw [← hu.sprite, hsize, ← hu.height] at hh
      exact .pictured hfollow hsize hw hh

theorem Together.nextFrame (h : Together u shown v w) (hu : u.Fresh) (now : UInt64)
    (backlog : Nat) :
    Agree (Answer u shown) (v.nextFrame now backlog) (w.nextFrame now backlog) := by
  obtain ⟨hview, hsprite, hwidth, hheight⟩ := h.settings
  have hpopped (queue : FrameQueue) : Together u shown { v with queue } { w with queue } := by
    obtain ⟨hsame, hpainters, hsurfaces, hrestarts, hstage⟩ := h
    exact ⟨by rw [hsame]; rfl, hpainters, hsurfaces, hrestarts, hstage⟩
  have hsettings : v.queue = w.queue ∧ v.view = u.view ∧ v.surfaceWidth = u.surfaceWidth ∧
      v.surfaceHeight = u.surfaceHeight ∧ v.sprite = u.sprite := by
    rw [h.same]
    exact ⟨rfl, hview, hwidth, hheight, hsprite⟩
  obtain ⟨hqueue', hview', hwidth', hheight', hsprite'⟩ := hsettings
  simp only [Viewer.nextFrame, hqueue']
  refine .of_value ?_
  rintro ⟨next, queue⟩ -
  cases next with
  | none => exact .ok (hpopped queue).idle
  | some frame =>
    have hsame : Window.ofFrame v.view frame v.surfaceWidth v.surfaceHeight v.sprite =
        Window.ofFrame u.view frame u.surfaceWidth u.surfaceHeight u.sprite := by
      rw [hview', hwidth', hheight', hsprite']
    have hsame' : Window.ofFrame w.view frame w.surfaceWidth w.surfaceHeight w.sprite =
        Window.ofFrame u.view frame u.surfaceWidth u.surfaceHeight u.sprite := by
      rw [hview, hwidth, hheight, hsprite]
    simp only [hsame, hsame']
    refine .of_value fun window hwindow => .bind ((hpopped queue).applyFrame frame window now) ?_
    rintro ⟨marks, v₁⟩ ⟨_, w₁⟩ ⟨rfl, h₁⟩
    dsimp only
    split
    · exact .ok ⟨rfl, (h₁.skipped marks _ _).answered rfl⟩
    · exact h₁.paintFrame hu hwindow marks

theorem Together.tick (h : Together u shown v w) (hu : u.Fresh) (now : UInt64) :
    Agree (Answer u shown) (v.tick now) (w.tick now) := by
  have hview := h.settings.1
  have hsame : v.queue = w.queue ∧ v.view = w.view ∧ v.camera = w.camera ∧
      v.framePacer = w.framePacer := by
    rw [h.same]
    exact ⟨rfl, rfl, rfl, rfl⟩
  obtain ⟨hqueue, hview', hcamera, hpacer⟩ := hsame
  simp only [Viewer.tick, hqueue, hview', hcamera, hpacer, hview]
  cases hkind : u.view with
  | world =>
    dsimp only
    split
    · exact h.nextFrame hu now _
    · exact .ok h.idle
  | follow =>
    dsimp only
    split
    · exact h.nextFrame hu now _
    · exact h.cameraStep hkind now _

theorem Together.respond (h : Together u shown v w) (hu : u.Fresh) (e : Event) :
    Agree (fun a b => a.1 = b.1 ∧ Together u (shown || b.1.shows u.view) a.2 b.2) (v.respond e)
      (w.respond e) := by
  cases e with
  | message m =>
    obtain ⟨htaken, hnext⟩ := h.ingest m
    exact .ok ⟨congrArg Reply.taken htaken, hnext.answered rfl⟩
  | tick now =>
    have htick := h.tick hu now
    simp only [Viewer.respond]
    generalize v.tick now = x at htick ⊢
    generalize w.tick now = y at htick ⊢
    cases htick with
    | error e => exact .error e
    | ok h' => exact .ok ⟨congrArg Reply.ticked h'.1, h'.2⟩
  | reset => exact .ok ⟨rfl, (h.reset hu).answered rfl⟩

theorem Together.sight_eq (h : Together u shown v w) : v.sight = w.sight := by
  rw [h.same]
  rfl

theorem Together.trace_eq (h : Together u shown v w) (hu : u.Fresh) (events : List Event) :
    v.trace shown events = w.trace shown events := by
  induction events generalizing v w shown with
  | nil => rfl
  | cons e events ih =>
    have hview : v.view = w.view := by
      rw [h.same]
      rfl
    simp only [trace]
    have hresponse := h.respond hu e
    generalize v.respond e = x at hresponse
    generalize w.respond e = y at hresponse
    cases hresponse with
    | error x => rfl
    | @ok a b hnext =>
      obtain ⟨reply, v'⟩ := a
      obtain ⟨_, w'⟩ := b
      obtain ⟨rfl, hnext⟩ := hnext
      simp only [hview, h.settings.1, hnext.sight_eq, ih hnext]
      cases hshown : shown || reply.shows u.view with
      | false => rfl
      | true => simp only [hnext.surfaces hshown]

/-- The sheet has no part in anything but the painter. -/
theorem ofSettings_of_sheet (h : ofSettings s sheet = .ok v) (sheet' : SpriteSheet) :
    ofSettings s sheet' = .ok { v with painter := { v.painter with sprites := sheet' } } := by
  obtain ⟨dirty, hdirty, h⟩ := bind_eq_ok h
  obtain ⟨numbers, hnumbers, h⟩ := bind_eq_ok h
  cases h
  rw [ofSettings, hdirty, hnumbers]
  rfl

theorem fresh_ofSettings (h : ofSettings s sheet = .ok u) : u.Fresh := by
  obtain ⟨dirty, numbers, -, -, rfl⟩ := ofSettings_eq_ok h
  exact ⟨s.side_pos, rfl, max_side s, rfl, rfl, rfl⟩

/-- A viewer that has just been set up is where a reset takes it back to. -/
theorem together_ofSettings (h : ofSettings s sheet = .ok u) (hold : sheet.Shares old) :
    Together u true { u with painter := { u.painter with sprites := old } }
      { u with painter := { u.painter with sprites := old } } := by
  obtain ⟨dirty, numbers, hdirty, hnumbers, rfl⟩ := ofSettings_eq_ok h
  have halike : (Painter.ofView s.view s.surfaceWidth s.surfaceHeight s.side sheet).Alike
      { Painter.ofView s.view s.surfaceWidth s.surfaceHeight s.side sheet with sprites := old } :=
    ⟨rfl, rfl, rfl, rfl, hold⟩
  refine ⟨rfl, ⟨halike, halike, rfl⟩, fun _ => rfl, ?_, staged_ofView _⟩
  simp only [dressedAs, Viewer.reset, DirtyGrid.cleared_of_ofSprite hdirty,
    DamageNumbers.restart_of_ofSeed hnumbers]
  rfl

theorem respond_of_step {e : Event} (h : v.step e = .ok w) :
    ∃ reply, v.respond e = .ok (reply, w) := by
  cases e with
  | message m =>
    cases h
    exact ⟨_, rfl⟩
  | tick now =>
    obtain ⟨out, htick⟩ := step_tick_eq_ok h
    exact ⟨.ticked out, by rw [respond, htick]; rfl⟩
  | reset =>
    cases h
    exact ⟨_, rfl⟩

/-- Along a run nothing changes but what a reset forgets. -/
theorem Together.run {events : List Event} (h : Together u true v v) (hu : u.Fresh)
    (hrun : v.run events = .ok w) : Together u true w w := by
  induction events generalizing v with
  | nil =>
    cases hrun
    exact h
  | cons e events ih =>
    obtain ⟨v', hstep, hrun⟩ := run_cons_eq_ok hrun
    obtain ⟨reply, hrespond⟩ := respond_of_step hstep
    have hnext := h.respond hu e
    rw [hrespond] at hnext
    cases hnext with
    | ok hnext => exact ih hnext.2 hrun

/-- A viewer that began as `u` is with `u` again after a reset, but for what the surface shows. -/
theorem Together.resumed (hu' : Together u true u u) (h : Together u true v v) (hu : u.Fresh) :
    Together u false v.reset u := by
  have hreset := h.reset hu
  have hcanvas : v.reset.painter.canvas = u.painter.canvas :=
    (congrArg Canvas.ofView (h.painters.left.view.trans hu.view)).trans hu.canvas.symm
  refine ⟨?_, ⟨hreset.painters.left, hu'.painters.left, hcanvas⟩, nofun, hu'.restarts, hu'.stage⟩
  calc
    v.reset = (v.reset.dressedAs u).dressedAs v.reset := rfl
    _ = u.dressedAs v.reset := by rw [h.restarts]

/-- After a reset, whatever has happened before, a viewer is seen to answer every event as a new
viewer of the same settings and images, in the same state, and from the first picture that either
of them puts on its surface the surfaces are the same. -/
theorem reset_trace_eq_new {sheet' : SpriteSheet} {v₀ : Viewer} {history : List Event}
    (hold : sheet.BuiltFor sheet.sprite) (hnew : sheet'.BuiltFor sheet.sprite)
    (himages : ∀ id : UInt32, sheet'.images[id]? = sheet.images[id]?)
    (hstart : ofSettings s sheet = .ok v₀) (hrun : v₀.run history = .ok v) :
    ∃ u, ofSettings s sheet' = .ok u ∧ v.reset.sight = u.sight ∧
      ∀ events, v.reset.trace false events = u.trace false events := by
  have hstart' := ofSettings_of_sheet hstart sheet'
  have hu := fresh_ofSettings hstart'
  have hshares : sheet'.Shares sheet := ⟨hnew.sprite_eq ▸ hold, fun id => (himages id).symm⟩
  have hself : sheet'.Shares sheet' := ⟨hnew.sprite_eq.symm ▸ hnew, fun _ => rfl⟩
  have hbegin := together_ofSettings hstart' hshares
  have hnext := (together_ofSettings hstart' hself).resumed (v := v) ?_ hu
  · exact ⟨_, hstart', hnext.sight_eq, hnext.trace_eq hu⟩
  · refine Together.run ?_ hu hrun
    obtain ⟨dirty, numbers, -, -, rfl⟩ := ofSettings_eq_ok hstart
    exact hbegin

/-- The first session paints a frame, with a sheet that remembers an image. -/
theorem reset_trace_eq_new_after_frame :
    ∃ (s : ViewerSettings) (sheet sheet' : SpriteSheet) (f : Frame) (v₀ v₁ v u : Viewer)
      (cells : Nat),
      f.patches ≠ [] ∧ sheet.BuiltFor sheet.sprite ∧ sheet'.BuiltFor sheet.sprite ∧
      (∀ id : UInt32, sheet'.images[id]? = sheet.images[id]?) ∧ ofSettings s sheet = .ok v₀ ∧
      v₀.run [.message (.frame f)] = .ok v₁ ∧ v₁.tick 0 = .ok (.drawn f.seq cells, v) ∧
      v₀.run [.message (.frame f), .tick 0] = .ok v ∧
      ofSettings s sheet' = .ok u ∧ v.reset.sight = u.sight ∧
      ∀ events, v.reset.trace false events = u.trace false events := by
  let s : ViewerSettings := { view := .world, sprite := 1, surfaceWidth := 2, surfaceHeight := 2 }
  let f : Frame :=
    { seq := 1, viewX := 5, viewY := 7, viewWidth := 2, viewHeight := 2
      patches := [⟨1, 0, 1, 1, [[⟨1, .quarter⟩]]⟩] }
  let sheet' := (SpriteSheet.ofSprite 1).insert 1 (Image.filled 3 3 Palette.white)
  let sheet := (sheet'.tile 1 .none).2
  have hnew : sheet'.BuiltFor s.side := (SpriteSheet.builtFor_ofSprite 1).insert 1 _
  have hold : sheet.BuiltFor s.side := hnew.tile 1 .none
  have hforget : sheet.forgetScaled = sheet'.forgetScaled := sheet'.forgetScaled_tile 1 .none
  have himages : ∀ id : UInt32, sheet'.images[id]? = sheet.images[id]? := by
    intro id
    have := congrArg SpriteSheet.images hforget
    exact congrArg (·[id]?) this.symm
  have hsafe : f.WorldSafe s 2 2 :=
    ⟨rfl, rfl, .of_inside ⟨by decide, by decide, by decide⟩ (by decide) (by decide) (by decide)
      (by decide) (by decide) (by decide)⟩
  have hframes : ∀ g, Event.message (.frame g) ∈ [Event.message (.frame f)] →
      g.WorldSafe s 2 2 := by
    intro g hg
    cases List.mem_singleton.1 hg
    exact hsafe
  obtain ⟨v₀, hstart⟩ := exists_ofSettings s (by decide) sheet
  obtain ⟨v₁, hrun₁, hsize, hpop, hpacer, -, hquiet⟩ := run_first hstart f (by decide)
  have h₁ := (worldHolds_ofSettings rfl hold hstart).run hold rfl hframes hrun₁
  obtain ⟨cells, v, htick⟩ := h₁.tick_draws 0 rfl hpop (by rw [hpacer]; rfl) (by rw [hsize]; rfl)
    (hquiet.overlayOf f) fun t => ⟨_, rfl⟩
  have hrun : v₀.run [.message (.frame f), .tick 0] = .ok v := by
    obtain ⟨w, hstep, hw⟩ := run_cons_eq_ok hrun₁
    cases hw
    rw [run_cons_of_step hstep, run_cons_of_step (step_tick_of_tick htick)]
    rfl
  have hbuilt : sheet.BuiltFor sheet.sprite := hold.sprite_eq.symm ▸ hold
  have hbuilt' : sheet'.BuiltFor sheet.sprite := hold.sprite_eq.symm ▸ hnew
  obtain ⟨u, hstart', hsight, htrace⟩ := reset_trace_eq_new hbuilt hbuilt' himages hstart hrun
  exact ⟨s, sheet, sheet', f, v₀, v₁, v, u, cells, by decide, hbuilt, hbuilt', himages, hstart,
    hrun₁, htick, hrun, hstart', hsight, htrace⟩

end Viewer

end TileViewer
