import TileViewer.Proofs.Marks.Patch
import TileViewer.Proofs.Picture.Glide
import TileViewer.Proofs.Reach.Drawing

/-!
What lies on top of one picture is gone in the next. Two painters that are called alike but for the
overlays keep the same things beneath their pictures, and so one overlay more makes the pictures
the same.
-/
namespace TileViewer

namespace Canvas

/-- What is kept for the next pass, without what lies on top. -/
def beneath : Canvas → Canvas
  | .world tiles => .world tiles
  | .follow _ painted => .follow (Surface.blank 0 0) painted

/-- The view it is kept for. -/
def view : Canvas → View
  | .world _ => .world
  | .follow .. => .follow

theorem view_ofView (view : View) : (ofView view).view = view := by
  cases view <;> rfl

theorem view_beneath (c : Canvas) : c.beneath.view = c.view := by
  cases c <;> rfl

theorem cases_of_beneath {c d : Canvas} (h : d.beneath = c.beneath) :
    (∃ tiles, c = .world tiles ∧ d = .world tiles) ∨
      ∃ picture picture' painted, c = .follow picture painted ∧ d = .follow picture' painted := by
  cases c with
  | world tiles =>
    cases d with
    | world tiles' =>
      cases h
      exact .inl ⟨tiles, rfl, rfl⟩
    | follow => cases h
  | follow picture painted =>
    cases d with
    | world => cases h
    | follow picture' painted' =>
      cases h
      exact .inr ⟨picture, picture', painted, rfl, rfl⟩

end Canvas

namespace Painter

/-- What a painter can be asked to do. -/
inductive Call
  | draw (window : Window) (tiles : TileStore) (scope : Scope) (overlay : Overlay)
  | present (step : Point)
  | reset
  | resize (width height : UInt32)

/-- What a call gives back. -/
inductive Return
  | painted (stats : PaintStats)
  | shown (yes : Bool)
  | done
  deriving DecidableEq, Repr

namespace Call

/-- The same call with nothing on top. -/
def bare : Call → Call
  | .draw window tiles scope _ => .draw window tiles scope {}
  | c => c

def overlay? : Call → Option Overlay
  | .draw _ _ _ overlay => some overlay
  | _ => none

/-- The overlay that was drawn last. -/
def lastOverlay? (cs : List Call) : Option Overlay := (cs.filterMap overlay?).getLast?

theorem eq_of_bare {c d : Call} (h : c.bare = d.bare) :
    (∃ window tiles scope overlay overlay', c = .draw window tiles scope overlay ∧
      d = .draw window tiles scope overlay') ∨ c = d ∧ c.overlay? = none := by
  cases c with
  | draw window tiles scope overlay =>
    cases d with
    | draw window' tiles' scope' overlay' =>
      simp only [bare, draw.injEq, and_true] at h
      obtain ⟨rfl, rfl, rfl⟩ := h
      exact .inl ⟨_, _, _, _, _, rfl, rfl⟩
    | _ => cases h
  | present step =>
    cases d with
    | draw => cases h
    | _ => exact .inr ⟨h, rfl⟩
  | reset =>
    cases d with
    | draw => cases h
    | _ => exact .inr ⟨h, rfl⟩
  | resize width height =>
    cases d with
    | draw => cases h
    | _ => exact .inr ⟨h, rfl⟩

theorem isSome_overlay?_bare (c : Call) : c.bare.overlay?.isSome = c.overlay?.isSome := by
  cases c <;> rfl

theorem lastOverlay?_cons (c : Call) (cs : List Call) :
    lastOverlay? (c :: cs) = (lastOverlay? cs).or c.overlay? := by
  cases h : c.overlay? with
  | none => simp [lastOverlay?, h]
  | some o => simp [lastOverlay?, h, List.getLast?_cons]

/-- Lists of calls alike but for their overlays draw an overlay both, or neither does. -/
theorem isSome_lastOverlay? {cs ds : List Call} (h : cs.map bare = ds.map bare) :
    (lastOverlay? cs).isSome = (lastOverlay? ds).isSome := by
  induction cs generalizing ds with
  | nil =>
    obtain rfl : ds = [] := List.map_eq_nil_iff.1 h.symm
    rfl
  | cons c cs ih =>
    cases ds with
    | nil => cases h
    | cons d ds =>
      obtain ⟨hhead, htail⟩ := List.cons.inj h
      rw [lastOverlay?_cons, lastOverlay?_cons, Option.isSome_or, Option.isSome_or, ih htail,
        ← isSome_overlay?_bare c, hhead, isSome_overlay?_bare]

end Call

def call (p : Painter) : Call → Except Overflow (Return × Painter)
  | .draw window tiles scope overlay => do
    let (stats, p) ← p.draw window tiles scope overlay
    return (.painted stats, p)
  | .present step => do
    let (yes, p) ← p.present step
    return (.shown yes, p)
  | .reset => .ok (.done, p.reset)
  | .resize width height => .ok (.done, p.resize width height)

def calls (p : Painter) : List Call → Except Overflow (List Return × Painter)
  | [] => .ok ([], p)
  | c :: cs => do
    let (r, p) ← p.call c
    let (rs, p) ← p.calls cs
    return (r :: rs, p)

/-- What frames are painted on: the surface in the world view, the larger picture in the follow
view. -/
def picture (p : Painter) : Surface := p.canvas.picture?.getD p.surface

variable {p q p' q' : Painter} {c d : Call} {cs ds : List Call} {r r' : Return}
  {rs rs' : List Return} {window : Window} {tiles : TileStore} {scope : Scope}
  {overlay overlay' : Overlay} {stats stats' : PaintStats}

/-- Two painters that differ only in what lies on top of their pictures and in what their surfaces
show of them. -/
structure Beneath (p q : Painter) : Prop where
  view : q.view = p.view
  sprite : q.sprite = p.sprite
  sprites : q.sprites = p.sprites
  width : q.surface.width = p.surface.width
  height : q.surface.height = p.surface.height
  canvas : q.canvas.beneath = p.canvas.beneath
  kind : p.canvas.view = p.view

theorem beneath_self (hkind : p.canvas.view = p.view) : p.Beneath p where
  view := rfl
  sprite := rfl
  sprites := rfl
  width := rfl
  height := rfl
  canvas := rfl
  kind := hkind

theorem Beneath.draw (h : p.Beneath q) (hp : p.draw window tiles scope overlay = .ok (stats, p'))
    (hq : q.draw window tiles scope overlay' = .ok (stats', q')) :
    stats = stats' ∧ p'.Beneath q' ∧ (overlay = overlay' → p'.picture = q'.picture) := by
  obtain ⟨hview, hsprite, hsprites, hwidth, hheight, hcanvas, hkind⟩ := h
  rcases Canvas.cases_of_beneath hcanvas with ⟨last, hc, hc'⟩ | ⟨old, old', painted, hc, hc'⟩
  · rw [hc] at hkind
    simp only [Painter.draw, scene, hc] at hp
    simp only [Painter.draw, scene, hc', hview, hsprite, hsprites, hwidth, hheight] at hq
    obtain ⟨pass, hpass, hp⟩ := bind_eq_ok hp
    obtain ⟨pass', hpass', hq⟩ := bind_eq_ok hq
    cases hpass.symm.trans hpass'
    obtain ⟨surface, hsurface, hp⟩ := bind_eq_ok hp
    obtain ⟨surface', hsurface', hq⟩ := bind_eq_ok hq
    cases hp
    cases hq
    obtain ⟨hw, hh⟩ := (Overlay.stamps_draw overlay _ _ _).size hsurface
    obtain ⟨hw', hh'⟩ := (Overlay.stamps_draw overlay' _ _ _).size hsurface'
    refine ⟨rfl, ⟨rfl, rfl, rfl, hw'.trans hw.symm, hh'.trans hh.symm, rfl, hkind⟩, ?_⟩
    rintro rfl
    cases hsurface.symm.trans hsurface'
    rfl
  · rw [hc] at hkind
    simp only [Painter.draw, scene, hc] at hp
    simp only [Painter.draw, scene, hc', hview, hsprite, hsprites] at hq
    obtain ⟨pass, hpass, hp⟩ := bind_eq_ok hp
    obtain ⟨pass', hpass', hq⟩ := bind_eq_ok hq
    cases hpass.symm.trans hpass'
    obtain ⟨surface, hsurface, hp⟩ := bind_eq_ok hp
    obtain ⟨surface', hsurface', hq⟩ := bind_eq_ok hq
    cases hp
    cases hq
    refine ⟨rfl, ⟨rfl, rfl, rfl, hwidth, hheight, rfl, hkind⟩, ?_⟩
    rintro rfl
    cases hsurface.symm.trans hsurface'
    rfl

theorem Beneath.present {step : Point} {yes yes' : Bool} (h : p.Beneath q)
    (hp : p.present step = .ok (yes, p')) (hq : q.present step = .ok (yes', q')) :
    yes = yes' ∧ p'.Beneath q' ∧ (p.picture = q.picture → p'.picture = q'.picture) := by
  rcases Canvas.cases_of_beneath h.canvas with ⟨last, hc, hc'⟩ | ⟨old, old', painted, hc, hc'⟩
  · simp only [Painter.present, hc] at hp
    simp only [Painter.present, hc'] at hq
    cases hp
    cases hq
    exact ⟨rfl, h, id⟩
  · cases painted with
    | none =>
      simp only [Painter.present, hc] at hp
      simp only [Painter.present, hc'] at hq
      cases hp
      cases hq
      exact ⟨rfl, h, id⟩
    | some kept =>
      obtain ⟨hview, hsprite, hsprites, hwidth, hheight, -, hkind⟩ := h
      simp only [Painter.present, hc] at hp
      simp only [Painter.present, hc'] at hq
      obtain ⟨surface, hblit, hp⟩ := bind_eq_ok hp
      obtain ⟨surface', hblit', hq⟩ := bind_eq_ok hq
      cases hp
      cases hq
      obtain ⟨hw, hh⟩ := Surface.size_blitWindow hblit
      obtain ⟨hw', hh'⟩ := Surface.size_blitWindow hblit'
      rw [hc] at hkind
      refine ⟨rfl, ⟨hview, hsprite, hsprites, ?_, ?_, rfl, hkind⟩, ?_⟩
      · exact hw'.trans (hwidth.trans hw.symm)
      · exact hh'.trans (hheight.trans hh.symm)
      · intro hpicture
        simpa only [picture, hc, hc', Canvas.picture?, Option.getD_some] using hpicture

theorem Beneath.view_canvas (h : p.Beneath q) : q.canvas.view = q.view := by
  rw [h.view, ← h.kind, ← p.canvas.view_beneath, ← h.canvas, q.canvas.view_beneath]

theorem picture_of_world (h : p.canvas.view = .world) : p.picture = p.surface := by
  cases hc : p.canvas with
  | world tiles => simp only [picture, hc, Canvas.picture?, Option.getD_none]
  | follow old painted =>
    rw [hc] at h
    cases h

/-- In the world view a reset leaves the surface as it is. -/
theorem picture_reset (hkind : p.canvas.view = p.view) : p.reset.picture =
    match p.view with
    | .world => p.picture
    | .follow => Surface.blank 0 0 := by
  cases hview : p.view with
  | world =>
    rw [picture_of_world (hkind.trans hview)]
    simp only [reset, picture, hview, Canvas.ofView, Canvas.picture?, Option.getD_none]
  | follow => simp only [reset, picture, hview, Canvas.ofView, Canvas.picture?, Option.getD_some]

theorem Beneath.reset (h : p.Beneath q) :
    p.reset.Beneath q.reset ∧ (p.picture = q.picture → p.reset.picture = q.reset.picture) := by
  have hkind := h.view_canvas
  obtain ⟨hview, hsprite, hsprites, hwidth, hheight, -, hkind'⟩ := h
  refine ⟨⟨hview, hsprite, ?_, hwidth, hheight, ?_, Canvas.view_ofView p.view⟩, ?_⟩
  · simp only [Painter.reset, hsprites]
  · simp only [Painter.reset, hview]
  · intro hpicture
    rw [picture_reset hkind, picture_reset hkind', hview, hpicture]

theorem size_resize (s : Surface) (width height : UInt32) :
    (s.resize width height).width = width ∧ (s.resize width height).height = height := by
  unfold Surface.resize
  split
  · assumption
  · exact ⟨rfl, rfl⟩

theorem Beneath.resize (h : p.Beneath q) (width height : UInt32) :
    (p.resize width height).Beneath (q.resize width height) ∧ (p.picture = q.picture →
      (p.resize width height).picture = (q.resize width height).picture) := by
  obtain ⟨hw, hh⟩ := size_resize p.surface width height
  obtain ⟨hw', hh'⟩ := size_resize q.surface width height
  have hresized : Beneath { p with surface := p.surface.resize width height }
      { q with surface := q.surface.resize width height } :=
    { h with width := hw'.trans hw.symm, height := hh'.trans hh.symm }
  obtain ⟨hreset, hsame⟩ := hresized.reset
  refine ⟨hreset, fun hpicture => hsame ?_⟩
  rcases Canvas.cases_of_beneath h.canvas with ⟨tiles, hc, hc'⟩ | ⟨old, old', painted, hc, hc'⟩
  · simp only [picture, hc, hc', Canvas.picture?, Option.getD_none] at hpicture ⊢
    rw [hpicture]
  · simpa only [picture, hc, hc', Canvas.picture?, Option.getD_some] using hpicture

/-- The step lemma: two calls alike but for their overlays give the same back. -/
theorem Beneath.call (h : p.Beneath q) (hbare : c.bare = d.bare) (hp : p.call c = .ok (r, p'))
    (hq : q.call d = .ok (r', q')) :
    r = r' ∧ p'.Beneath q' ∧ (c.overlay? = d.overlay? →
      (c.overlay? = none → p.picture = q.picture) → p'.picture = q'.picture) := by
  rcases Call.eq_of_bare hbare with ⟨window, tiles, scope, overlay, overlay', rfl, rfl⟩ |
    ⟨rfl, hnone⟩
  · obtain ⟨⟨stats, u⟩, hdraw, hp⟩ := bind_eq_ok hp
    obtain ⟨⟨stats', u'⟩, hdraw', hq⟩ := bind_eq_ok hq
    cases hp
    cases hq
    obtain ⟨rfl, hbeneath, hsame⟩ := h.draw hdraw hdraw'
    exact ⟨rfl, hbeneath, fun hoverlay _ => hsame (Option.some.inj hoverlay)⟩
  · cases c with
    | draw => cases hnone
    | present step =>
      obtain ⟨⟨yes, u⟩, hpresent, hp⟩ := bind_eq_ok hp
      obtain ⟨⟨yes', u'⟩, hpresent', hq⟩ := bind_eq_ok hq
      cases hp
      cases hq
      obtain ⟨rfl, hbeneath, hsame⟩ := h.present hpresent hpresent'
      exact ⟨rfl, hbeneath, fun _ hpicture => hsame (hpicture rfl)⟩
    | reset =>
      cases hp
      cases hq
      obtain ⟨hbeneath, hsame⟩ := h.reset
      exact ⟨rfl, hbeneath, fun _ hpicture => hsame (hpicture rfl)⟩
    | resize width height =>
      cases hp
      cases hq
      obtain ⟨hbeneath, hsame⟩ := h.resize width height
      exact ⟨rfl, hbeneath, fun _ hpicture => hsame (hpicture rfl)⟩

/-- The run lemma: the last overlay decides, or the pictures if none is drawn. -/
theorem Beneath.calls (h : p.Beneath q) (hbare : cs.map Call.bare = ds.map Call.bare)
    (hp : p.calls cs = .ok (rs, p')) (hq : q.calls ds = .ok (rs', q')) :
    rs = rs' ∧ (Call.lastOverlay? cs = Call.lastOverlay? ds →
      (Call.lastOverlay? cs = none → p.picture = q.picture) → p'.picture = q'.picture) := by
  induction cs generalizing p q ds rs rs' with
  | nil =>
    obtain rfl : ds = [] := List.map_eq_nil_iff.1 hbare.symm
    cases hp
    cases hq
    exact ⟨rfl, fun _ hpicture => hpicture rfl⟩
  | cons c cs ih =>
    cases ds with
    | nil => cases hbare
    | cons d ds =>
      obtain ⟨hhead, htail⟩ := List.cons.inj hbare
      obtain ⟨⟨r, u⟩, hcall, hp⟩ := bind_eq_ok hp
      obtain ⟨⟨rest, u₁⟩, hcalls, hp⟩ := bind_eq_ok hp
      obtain ⟨⟨r', u'⟩, hcall', hq⟩ := bind_eq_ok hq
      obtain ⟨⟨rest', u₁'⟩, hcalls', hq⟩ := bind_eq_ok hq
      cases hp
      cases hq
      obtain ⟨rfl, hbeneath, hsame⟩ := h.call hhead hcall hcall'
      obtain ⟨rfl, hsames⟩ := ih hbeneath htail hcalls hcalls'
      refine ⟨rfl, fun hlast hpicture => ?_⟩
      have hsome := Call.isSome_lastOverlay? htail
      rw [Call.lastOverlay?_cons, Call.lastOverlay?_cons] at hlast
      rw [Call.lastOverlay?_cons] at hpicture
      cases hcs : Call.lastOverlay? cs with
      | none =>
        -- Nothing is drawn later, so this call decides.
        rw [hcs] at hsome hlast hpicture
        have hds : Call.lastOverlay? ds = none := by simpa using hsome.symm
        rw [hds] at hlast
        exact hsames (hcs.trans hds.symm) fun _ => hsame hlast hpicture
      | some o =>
        rw [hcs] at hsome hlast
        obtain ⟨o', hds⟩ := Option.isSome_iff_exists.1 hsome.symm
        rw [hds] at hlast
        refine hsames ?_ fun hnone => absurd (hcs.symm.trans hnone) (Option.some_ne_none o)
        rw [hcs, hds]
        exact hlast

/-- What a call brings lies in reach. -/
def Call.InReach (E : Envelope) : Call → Prop
  | .draw window _ scope overlay =>
    window.InReach E ∧ scope.Decides ∧ overlay.InReach E.reach
  | _ => True

theorem InReach.gives_call {E : Envelope} (h : p.InReach E) (hc : c.InReach E) :
    Gives (p.call c) fun out => out.2.InReach E := by
  cases c with
  | draw window tiles scope overlay =>
    obtain ⟨hwindow, hscope, hoverlay⟩ := hc
    exact .bind (h.gives_draw hwindow tiles hscope hoverlay) fun out hout => .ok hout
  | present step => exact .bind (h.gives_present step) fun out hout => .ok hout
  | reset => exact .ok h.reset
  | resize width height => exact .ok (InReach.reset ⟨h.sprite, h.canvas⟩)

/-- While what the calls bring lies in reach, none of them overflows. -/
theorem InReach.gives_calls {E : Envelope} (h : p.InReach E) (hcs : ∀ c ∈ cs, c.InReach E) :
    Gives (p.calls cs) fun out => out.2.InReach E := by
  induction cs generalizing p with
  | nil => exact .ok h
  | cons c cs ih =>
    refine .bind (h.gives_call (hcs c List.mem_cons_self)) fun first hfirst => ?_
    refine .bind (ih hfirst fun d hd => hcs d (List.mem_cons_of_mem c hd)) fun rest hrest => ?_
    exact .ok hrest

/-- Whatever is drawn on top of earlier pictures, what the calls give back is the same, and so is
the picture once the same overlay is on top of it. -/
theorem overlays_leave_no_trace {view : View} {width height sprite : UInt32}
    {sprites : SpriteSheet} (hbare : cs.map Call.bare = ds.map Call.bare)
    (hp : (ofView view width height sprite sprites).calls cs = .ok (rs, p))
    (hq : (ofView view width height sprite sprites).calls ds = .ok (rs', q)) :
    rs = rs' ∧ (Call.lastOverlay? cs = Call.lastOverlay? ds → p.picture = q.picture) := by
  obtain ⟨hreturns, hpicture⟩ := (beneath_self (Canvas.view_ofView view)).calls hbare hp hq
  exact ⟨hreturns, fun hlast => hpicture hlast fun _ => rfl⟩

/-- A creature, an outline and a frame's number are gone after the next pass, which starts from what
was kept. -/
theorem overlays_leave_no_trace_two :
    ∃ (o o' last : Overlay) (cs ds : List Call) (rs rs' : List Return) (p q : Painter),
      o.creatures ≠ [] ∧ o'.creatures = [] ∧
      cs.filterMap Call.overlay? = [o, last] ∧ ds.filterMap Call.overlay? = [o', last] ∧
      cs.map Call.bare = ds.map Call.bare ∧
      (ofView .follow 1024 768 32 (.ofSprite 32)).calls cs = .ok (rs, p) ∧
      (ofView .follow 1024 768 32 (.ofSprite 32)).calls ds = .ok (rs', q) ∧
      rs = rs' ∧ p.picture = q.picture := by
  let o : Overlay :=
    { creatures := [⟨1, 1, 5, 10, some "ann"⟩], seq := 1, tracked := some ⟨0, 0, 2, 2⟩ }
  let o' : Overlay := { seq := 2 }
  let last : Overlay := { seq := 3 }
  let window : Window := ⟨0, 0, 54, 46⟩
  let calls (first : Overlay) : List Call :=
    [.draw window {} .all first, .present ⟨0, 0⟩,
      .draw window {} (.dirty (.ofCellSize 160 160)) last]
  have hin (first : Overlay) (hfirst : first.InReach Envelope.usual.reach) :
      ∀ c ∈ calls first, c.InReach .usual := by
    intro c hc
    simp only [calls, List.mem_cons, List.not_mem_nil, or_false] at hc
    have hwindow : window.InReach .usual := ⟨by decide, by decide, by decide, by decide⟩
    rcases hc with rfl | rfl | rfl
    · exact ⟨hwindow, Scene.decides_all, hfirst⟩
    · trivial
    · refine ⟨hwindow, Scope.decides_dirty ?_, ⟨nofun, nofun, nofun⟩⟩
      constructor <;> decide
  have hstart : (ofView .follow 1024 768 32 (.ofSprite 32)).InReach .usual :=
    ⟨rfl, Canvas.inReach_ofView _ .follow⟩
  have ho : o.InReach Envelope.usual.reach := by
    refine ⟨?_, nofun, ?_⟩
    · intro c hc
      rw [List.mem_singleton.1 hc]
      exact ⟨by decide, by decide, fun name hname => by cases hname; decide⟩
    · rintro r ⟨⟩
      constructor <;> decide
  obtain ⟨⟨rs, p⟩, hp, -⟩ := hstart.gives_calls (hin o ho)
  obtain ⟨⟨rs', q⟩, hq, -⟩ := hstart.gives_calls (hin o' ⟨nofun, nofun, nofun⟩)
  have hbare : (calls o).map Call.bare = (calls o').map Call.bare := rfl
  obtain ⟨hreturns, hpicture⟩ := overlays_leave_no_trace hbare hp hq
  exact ⟨o, o', last, calls o, calls o', rs, rs', p, q, nofun, rfl, rfl, rfl, hbare, hp, hq,
    hreturns, hpicture rfl⟩

end Painter

end TileViewer
