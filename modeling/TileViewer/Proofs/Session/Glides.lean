import TileViewer.Proofs.Picture.Glide
import TileViewer.Proofs.Session.Arrival
import TileViewer.Proofs.Session.InReach
import TileViewer.Proofs.Session.Moves

/-!
The camera's glides in the follow view. Every glide is shown to its end before the next frame
leaves the queue, and the next glide goes on from the position that was shown last.
-/
namespace TileViewer

namespace Viewer

/-- One tick of a run, with the viewer before it and after it. -/
structure Beat where
  before : Viewer
  now : UInt64
  outcome : Outcome
  after : Viewer

namespace Beat

/-- The tick has painted a frame. -/
def Draws (b : Beat) : Prop := ∃ seq cells, b.outcome = .drawn seq cells

/-- How many steps the tick says are left, if it has shown one. -/
def left? (b : Beat) : Option Nat :=
  match b.outcome with
  | .stepped left => some left
  | _ => none

/-- The camera position that the tick has shown, if any. -/
def position? (b : Beat) : Option Point :=
  match b.outcome with
  | .stepped _ => b.before.camera.next.1
  | _ => none

theorem position?_eq {b : Beat} {p : Point} {rest : List Point} {left : Nat}
    (hout : b.outcome = .stepped left) (hsteps : b.before.camera.steps = p :: rest) :
    b.position? = some p := by
  simp only [position?, hout, Camera.next, hsteps]

end Beat

/-- The ticks of a run, up to the first overflow. -/
def beats (v : Viewer) : List Event → List Beat
  | [] => []
  | .message m :: events => (v.ingest m).2.beats events
  | .reset :: events => v.reset.beats events
  | .tick now :: events =>
    match v.tick now with
    | .ok (outcome, w) => ⟨v, now, outcome, w⟩ :: w.beats events
    | .error _ => []

variable {s : ViewerSettings} {sheet : SpriteSheet} {v w : Viewer} {now : UInt64}
  {out : Outcome} {events : List Event} {shown : List Point} {b : Beat} {earlier later : List Beat}

/-- A run can be cut at any of its ticks. -/
theorem beats_split (h : v.beats events = earlier ++ b :: later) :
    ∃ past future, events = past ++ .tick b.now :: future ∧ v.run past = .ok b.before ∧
      v.beats past = earlier ∧ b.before.tick b.now = .ok (b.outcome, b.after) ∧
      b.after.beats future = later := by
  induction events generalizing v earlier with
  | nil => exact absurd h.symm (List.append_ne_nil_of_right_ne_nil _ (List.cons_ne_nil _ _))
  | cons e events ih =>
    cases e with
    | message m =>
      obtain ⟨past, future, rfl, hrun, hbeats, hrest⟩ := ih h
      exact ⟨.message m :: past, future, rfl, hrun, hbeats, hrest⟩
    | reset =>
      obtain ⟨past, future, rfl, hrun, hbeats, hrest⟩ := ih h
      exact ⟨.reset :: past, future, rfl, hrun, hbeats, hrest⟩
    | tick now =>
      simp only [beats] at h
      split at h
      · next outcome w htick =>
        cases earlier with
        | nil =>
          obtain ⟨rfl, rfl⟩ := List.cons.inj h
          exact ⟨[], events, rfl, rfl, rfl, htick, rfl⟩
        | cons first earlier =>
          obtain ⟨rfl, htail⟩ := List.cons.inj h
          obtain ⟨past, future, rfl, hrun, hbeats, hrest⟩ := ih htail
          refine ⟨.tick now :: past, future, rfl, ?_, ?_, hrest⟩
          · rwa [run_cons_of_step (step_tick_of_tick htick)]
          · simp only [beats, htick, hbeats]
      · exact absurd h.symm (List.append_ne_nil_of_right_ne_nil _ (List.cons_ne_nil _ _))

/-- The positions shown so far and the steps still to come end at the camera's target, and a step
comes only where there is a picture to show. -/
structure Gliding (shown : List Point) (v : Viewer) : Prop where
  view : v.view = .follow
  target : v.camera.target = (shown ++ v.camera.steps).getLast?
  canvas : ∃ picture painted, v.painter.canvas = .follow picture painted ∧
    (v.camera.steps ≠ [] → painted ≠ none)

theorem gliding_ofSettings (hview : s.view = .follow) (h : ofSettings s sheet = .ok v) :
    v.Gliding [] := by
  obtain ⟨dirty, numbers, -, -, rfl⟩ := ofSettings_eq_ok h
  refine ⟨hview, rfl, .blank 0 0, none, ?_, absurd rfl⟩
  simp only [Painter.ofView, hview, Canvas.ofView]

theorem camera_ingest (v : Viewer) (m : Message) : (v.ingest m).2.camera = v.camera := by
  cases m with
  | frame f =>
    simp only [ingest]
    split <;> rfl
  | side u => rfl
  | unknown type => rfl

theorem Gliding.ingest (h : v.Gliding shown) (m : Message) : (v.ingest m).2.Gliding shown := by
  have hrests := v.rests_ingest m
  obtain ⟨hview, htarget, hcanvas⟩ := h
  refine ⟨hrests.view.trans hview, ?_, ?_⟩
  · rwa [camera_ingest]
  · rwa [camera_ingest, hrests.canvas]

/-- The step lemma: what a tick shows is put behind what has been shown. -/
theorem Gliding.tick (h : v.Gliding shown) (htick : v.tick now = .ok (out, w)) :
    w.Gliding (shown ++ (Beat.position? ⟨v, now, out, w⟩).toList) := by
  have hview : w.view = v.view := by
    cases ticked_tick htick with
    | rested hrests => exact hrests.view
    | skipped _ htook => exact htook.view
    | drawn _ htook => exact htook.view
  obtain ⟨hfollow, htarget, picture, painted, hcanvas, hpainted⟩ := h
  cases moves_tick hfollow htick with
  | early =>
    refine ⟨hview.trans hfollow, ?_, picture, painted, hcanvas, hpainted⟩
    simpa [Beat.position?] using htarget
  | empty =>
    refine ⟨hview.trans hfollow, ?_, picture, painted, hcanvas, hpainted⟩
    simpa [Beat.position?] using htarget
  | skipped _ _ _ hcamera hcanvas' =>
    rw [← hcamera] at htarget hpainted
    rw [← hcanvas'] at hcanvas
    refine ⟨hview.trans hfollow, ?_, picture, painted, hcanvas, hpainted⟩
    simpa [Beat.position?] using htarget
  | stepped hsteps hcamera hpresent =>
    -- The position moves from the steps to what has been shown; the camera's target stays.
    refine ⟨hview.trans hfollow, ?_, picture, painted, ?_, fun _ => hpainted ?_⟩
    · rw [hcamera, htarget, hsteps, Beat.position?_eq rfl hsteps]
      simp
    · rw [(rests_present hpresent).canvas, hcanvas]
    · rw [hsteps]
      exact List.cons_ne_nil _ _
  | drawn _ _ _ hpaint _ hretarget =>
    obtain ⟨picture', hdrew, -⟩ := Painter.drew_of_draw hcanvas hpaint
    obtain ⟨clean, hcanvas'⟩ := hdrew.canvas
    obtain ⟨hnew, -, hlast⟩ := Camera.retarget_eq_ok hretarget
    have hne : w.camera.steps ≠ [] := by
      rintro hnil
      rw [hnil] at hlast
      cases hlast
    refine ⟨hview.trans hfollow, ?_, picture', _, hcanvas', fun _ => Option.some_ne_none _⟩
    rw [List.getLast?_append_of_ne_nil _ hne, hlast, hnew]

/-- Whatever the camera shows there is a picture to show it from. -/
theorem Gliding.presents (h : v.Gliding shown) (htick : v.tick now = .ok (out, w)) {p : Point}
    (hp : Beat.position? ⟨v, now, out, w⟩ = some p) :
    v.painter.present p = .ok (true, w.painter) := by
  obtain ⟨hfollow, -, picture, painted, hcanvas, hpainted⟩ := h
  cases moves_tick hfollow htick with
  | early => cases hp
  | empty => cases hp
  | skipped => cases hp
  | drawn => cases hp
  | @stepped pos _ yes _ hsteps _ hpresent =>
    obtain rfl : pos = p := Option.some.inj ((Beat.position?_eq rfl hsteps).symm.trans hp)
    obtain ⟨kept, hkept⟩ := Option.ne_none_iff_exists'.1 (hpainted (hsteps ▸ List.cons_ne_nil _ _))
    have hyes : yes = true := by
      simp only [Painter.present, hcanvas, hkept] at hpresent
      obtain ⟨surface, -, hpresent⟩ := bind_eq_ok hpresent
      exact (congrArg Prod.fst (Except.ok.inj hpresent)).symm
    exact hyes ▸ hpresent

theorem filterMap_beats_cons {α : Type} (f : Beat → Option α) (b : Beat) (bs : List Beat) :
    (b :: bs).filterMap f = (f b).toList ++ bs.filterMap f := by
  cases hb : f b with
  | none => rw [List.filterMap_cons_none hb, Option.toList_none, List.nil_append]
  | some x => rw [List.filterMap_cons_some hb, Option.toList_some, List.singleton_append]

theorem beats_tick_cons (htick : v.tick now = .ok (out, w)) (events : List Event) :
    v.beats (.tick now :: events) = ⟨v, now, out, w⟩ :: w.beats events := by
  simp only [beats, htick]

theorem Gliding.run (h : v.Gliding shown) (hreset : .reset ∉ events) (hrun : v.run events = .ok w) :
    w.Gliding (shown ++ (v.beats events).filterMap Beat.position?) := by
  induction events generalizing v shown with
  | nil =>
    cases hrun
    rwa [beats, List.filterMap_nil, List.append_nil]
  | cons e events ih =>
    have hreset' := List.not_mem_of_not_mem_cons hreset
    obtain ⟨u, hstep, hrest⟩ := run_cons_eq_ok hrun
    cases e with
    | message m =>
      cases hstep
      exact ih (h.ingest m) hreset' hrest
    | reset => exact absurd List.mem_cons_self hreset
    | tick now =>
      obtain ⟨out, htick⟩ := step_tick_eq_ok hstep
      have hlater := ih (h.tick htick) hreset' hrest
      rwa [List.append_assoc, ← filterMap_beats_cons, ← beats_tick_cons htick] at hlater

/-- A tick that paints nothing shows the first of the steps or leaves all of them. -/
theorem Moves.steps_of_not_drawn (h : v.Moves now out w)
    (hnot : ∀ seq cells, out ≠ .drawn seq cells) :
    (Beat.position? ⟨v, now, out, w⟩).toList ++ w.camera.steps = v.camera.steps ∧
      (Beat.left? ⟨v, now, out, w⟩).toList ++ (List.range w.camera.steps.length).reverse =
        (List.range v.camera.steps.length).reverse := by
  cases h with
  | early => exact ⟨rfl, rfl⟩
  | empty => exact ⟨rfl, rfl⟩
  | skipped _ _ _ hcamera =>
    rw [hcamera]
    exact ⟨rfl, rfl⟩
  | stepped hsteps hcamera =>
    rw [Beat.position?_eq rfl hsteps, hcamera, hsteps, List.length_cons, List.range_succ,
      List.reverse_append]
    exact ⟨rfl, rfl⟩
  | drawn => exact absurd rfl (hnot _ _)

/-- While nothing is painted the steps are shown in their order, and their numbers are told. -/
theorem Gliding.quiet (h : v.Gliding shown) (hreset : .reset ∉ events)
    (hrun : v.run events = .ok w) (hquiet : ∀ b ∈ v.beats events, ¬b.Draws) :
    (v.beats events).filterMap Beat.position? ++ w.camera.steps = v.camera.steps ∧
      (v.beats events).filterMap Beat.left? ++ (List.range w.camera.steps.length).reverse =
        (List.range v.camera.steps.length).reverse := by
  induction events generalizing v shown with
  | nil =>
    cases hrun
    exact ⟨rfl, rfl⟩
  | cons e events ih =>
    have hreset' := List.not_mem_of_not_mem_cons hreset
    obtain ⟨u, hstep, hrest⟩ := run_cons_eq_ok hrun
    cases e with
    | message m =>
      cases hstep
      have hlater := ih (h.ingest m) hreset' hrest hquiet
      rwa [camera_ingest] at hlater
    | reset => exact absurd List.mem_cons_self hreset
    | tick now =>
      obtain ⟨out, htick⟩ := step_tick_eq_ok hstep
      rw [beats_tick_cons htick] at hquiet ⊢
      have hnot : ∀ seq cells, out ≠ .drawn seq cells := by
        rintro seq cells rfl
        exact hquiet _ List.mem_cons_self ⟨seq, cells, rfl⟩
      obtain ⟨hshown, hleft⟩ := (moves_tick h.view htick).steps_of_not_drawn hnot
      obtain ⟨hshown', hleft'⟩ :=
        ih (h.tick htick) hreset' hrest fun b hb => hquiet b (List.mem_cons_of_mem _ hb)
      rw [filterMap_beats_cons, filterMap_beats_cons, List.append_assoc, List.append_assoc, hshown',
        hleft']
      exact ⟨hshown, hleft⟩

theorem gliding_beat (hview : s.view = .follow) (hstart : ofSettings s sheet = .ok v)
    (hreset : .reset ∉ events) (h : v.beats events = earlier ++ b :: later) :
    b.before.Gliding (earlier.filterMap Beat.position?) ∧
      b.before.tick b.now = .ok (b.outcome, b.after) := by
  obtain ⟨past, future, rfl, hrun, rfl, htick, -⟩ := beats_split h
  refine ⟨?_, htick⟩
  exact (gliding_ofSettings hview hstart).run
    (fun hin => hreset (List.mem_append_left _ hin)) hrun

/-- Between two frames that are painted, the whole glide to the first of them is shown. -/
theorem glide_between {a : Beat} {between : List Beat} (hview : s.view = .follow)
    (hstart : ofSettings s sheet = .ok v) (hreset : .reset ∉ events)
    (h : v.beats events = earlier ++ a :: (between ++ b :: later)) (hb : b.Draws)
    (hquiet : ∀ c ∈ between, ¬c.Draws) :
    between.filterMap Beat.left? = (List.range a.after.camera.steps.length).reverse ∧
      between.filterMap Beat.position? = a.after.camera.steps := by
  obtain ⟨hbefore, htick⟩ := gliding_beat hview hstart hreset h
  obtain ⟨past, future, rfl, -, -, -, hbetween⟩ := beats_split h
  obtain ⟨ticks, rest, rfl, hrun, rfl, hdrawn, -⟩ := beats_split hbetween
  obtain ⟨seq, cells, hout⟩ := hb
  have hreset' : .reset ∉ ticks := fun hin =>
    hreset (List.mem_append_right _ (List.mem_cons_of_mem _ (List.mem_append_left _ hin)))
  obtain ⟨hshown, hleft⟩ := (hbefore.tick htick).quiet hreset' hrun hquiet
  have hnone : b.before.camera.steps = [] := by
    have hfollow := ((hbefore.tick htick).run hreset' hrun).view
    rw [hout] at hdrawn
    cases moves_tick hfollow hdrawn with
    | drawn hsteps => exact hsteps
  rw [hnone, List.append_nil] at hshown
  rw [hnone, List.length_nil, List.range_zero, List.reverse_nil, List.append_nil] at hleft
  exact ⟨hleft, hshown⟩

/-- A painted frame sends the camera on from where it was shown last. -/
theorem glide_joined (hview : s.view = .follow) (hstart : ofSettings s sheet = .ok v)
    (hreset : .reset ∉ events) (h : v.beats events = earlier ++ b :: later) (hb : b.Draws) :
    b.before.camera.steps = [] ∧
      b.before.camera.target = (earlier.filterMap Beat.position?).getLast? ∧
      ∃ j target n, b.before.job = .ok (some j) ∧
        Camera.targetOf j.frame b.before.surfaceWidth b.before.surfaceHeight b.before.sprite =
          .ok target ∧
        b.before.camera.retarget target = .ok (n, b.after.camera) ∧
        b.after.camera.steps.length = n := by
  obtain ⟨hbefore, htick⟩ := gliding_beat hview hstart hreset h
  obtain ⟨seq, cells, hout⟩ := hb
  rw [hout] at htick
  cases moves_tick hbefore.view htick with
  | drawn hsteps hj _ _ htarget hretarget =>
    obtain ⟨-, hlength, -⟩ := Camera.retarget_eq_ok hretarget
    refine ⟨hsteps, ?_, _, _, _, hj, htarget, hretarget, hlength⟩
    rw [hbefore.target, hsteps, List.append_nil]

/-- In the follow view, as long as there is no reset, no frame leaves the queue while steps are to
be shown; between two painted frames the steps to the first of them are shown, all of them and in
their order; each glide begins at the position that was shown last; and each step really shows a
position. -/
theorem glides_whole_and_joined (hview : s.view = .follow) (hstart : ofSettings s sheet = .ok v)
    (hreset : .reset ∉ events) :
    (∀ b ∈ v.beats events, b.before.camera.steps ≠ [] →
      b.after.queue = b.before.queue ∧ (b.outcome = .idle ∨ ∃ left, b.outcome = .stepped left)) ∧
    (∀ (earlier between later : List Beat) (a b : Beat),
      v.beats events = earlier ++ a :: (between ++ b :: later) → a.Draws → b.Draws →
      (∀ c ∈ between, ¬c.Draws) →
      between.filterMap Beat.left? = (List.range a.after.camera.steps.length).reverse ∧
        between.filterMap Beat.position? = a.after.camera.steps) ∧
    (∀ (earlier later : List Beat) (b : Beat), v.beats events = earlier ++ b :: later → b.Draws →
      b.before.camera.steps = [] ∧
        b.before.camera.target = (earlier.filterMap Beat.position?).getLast? ∧
        ∃ j target n, b.before.job = .ok (some j) ∧
          Camera.targetOf j.frame b.before.surfaceWidth b.before.surfaceHeight b.before.sprite =
            .ok target ∧
          b.before.camera.retarget target = .ok (n, b.after.camera) ∧
          b.after.camera.steps.length = n) ∧
    (∀ b ∈ v.beats events, ∀ left, b.outcome = .stepped left →
      ∃ p, b.position? = some p ∧ b.before.painter.present p = .ok (true, b.after.painter)) ∧
    ∀ w, v.run events = .ok w →
      w.camera.target = ((v.beats events).filterMap Beat.position? ++ w.camera.steps).getLast? := by
  refine ⟨fun b hmem hsteps => ?_, fun earlier between later a b h _ hb hquiet => ?_,
    fun earlier later b h hb => ?_, fun b hmem left hleft => ?_, fun w hrun => ?_⟩
  · obtain ⟨earlier, later, h⟩ := List.append_of_mem hmem
    obtain ⟨hbefore, htick⟩ := gliding_beat hview hstart hreset h
    exact (moves_tick hbefore.view htick).waits hsteps
  · exact glide_between hview hstart hreset h hb hquiet
  · exact glide_joined hview hstart hreset h hb
  · obtain ⟨earlier, later, h⟩ := List.append_of_mem hmem
    obtain ⟨hbefore, htick⟩ := gliding_beat hview hstart hreset h
    obtain ⟨p, rest, hsteps⟩ := (moves_tick hbefore.view (hleft ▸ htick)).exists_step
    have hp := Beat.position?_eq hleft hsteps
    exact ⟨p, hp, hbefore.presents htick hp⟩
  · exact ((gliding_ofSettings hview hstart).run hreset hrun).target

/-- Two frames, the second of them painted after the single step to the first. -/
theorem glides_whole_and_joined_two :
    ∃ (f g : Frame) (v a b c : Viewer) (cells cells' : Nat) (p : Point),
      let events : List Event :=
        [.message (.frame f), .message (.frame g), .tick 0, .tick 1, .tick 2]
      f.viewY ≠ g.viewY ∧ ofSettings {} (.ofSprite 32) = .ok v ∧ .reset ∉ events ∧
      (v.beats events).map Beat.outcome = [.drawn 1 cells, .stepped 0, .drawn 2 cells'] ∧
      (v.beats events).map Beat.after = [a, b, c] ∧ a.camera.steps = [p] ∧
      a.painter.present p = .ok (true, b.painter) ∧ b.camera = ⟨some p, []⟩ := by
  let f : Frame := { seq := 1, viewX := 0, viewY := 0, viewWidth := 32, viewHeight := 32 }
  let g : Frame := { seq := 2, viewX := 0, viewY := 10, viewWidth := 32, viewHeight := 32 }
  let ticks : List Event := [.tick 0, .tick 1, .tick 2]
  obtain ⟨v, hstart, hv⟩ := InReach.gives_ofSettings (E := .usual) (s := {}) rfl rfl rfl nofun
    (.ofSprite 32)
  obtain ⟨u, queue, queue', hmessages, hsize, hpop, hpop', hsize', -⟩ :=
    run_two hstart f g (by decide) (by decide)
  have hin : ∀ e ∈ .message (.frame f) :: .message (.frame g) :: ticks,
      e.InReach Envelope.usual.reach := by
    intro e he
    simp only [ticks, List.mem_cons, List.not_mem_nil, or_false] at he
    rcases he with rfl | rfl | rfl | rfl | rfl
    · exact ⟨⟨by decide, by decide, by decide, by decide, nofun⟩, by decide⟩
    · exact ⟨⟨by decide, by decide, by decide, by decide, nofun⟩, by decide⟩
    · trivial
    · trivial
    · trivial
  obtain ⟨c, hrun, -⟩ := hv.gives_run hin
  cases hmessages
  have hu : ((v.ingest (.frame f)).2.ingest (.frame g)).2.Gliding [] :=
    ((gliding_ofSettings rfl hstart).ingest _).ingest _
  have hcamera : ((v.ingest (.frame f)).2.ingest (.frame g)).2.camera = {} := by
    obtain ⟨dirty, numbers, -, -, rfl⟩ := ofSettings_eq_ok hstart
    rw [camera_ingest, camera_ingest]
  have hticks : ((v.ingest (.frame f)).2.ingest (.frame g)).2.run ticks = .ok c := hrun
  obtain ⟨a, hstep₀, hrun₀⟩ := run_cons_eq_ok hticks
  obtain ⟨b, hstep₁, hrun₁⟩ := run_cons_eq_ok hrun₀
  obtain ⟨z, hstep₂, hrun₂⟩ := run_cons_eq_ok hrun₁
  cases hrun₂
  obtain ⟨out₀, htick₀⟩ := step_tick_eq_ok hstep₀
  obtain ⟨out₁, htick₁⟩ := step_tick_eq_ok hstep₁
  obtain ⟨out₂, htick₂⟩ := step_tick_eq_ok hstep₂
  obtain ⟨cells, p, n, rfl, hfirst, hqueue₀, hpacer⟩ :=
    tick_paints hu.view (by rw [hcamera]) hpop (by rw [hsize]; rfl) htick₀
  rw [hcamera] at hfirst
  obtain ⟨rfl, hmoved⟩ := Prod.mk.inj (Except.ok.inj hfirst)
  have ha := hu.tick htick₀
  obtain ⟨rfl, hshown, hqueue₁⟩ :=
    tick_shows ha.view (by rw [← hmoved]) (by rw [hpacer]; rfl) htick₁
  rw [← hmoved] at hshown
  have hb := ha.tick htick₁
  obtain ⟨cells', -, -, rfl, -⟩ := tick_paints hb.view (by rw [hshown])
    (by rw [hqueue₁, hqueue₀]; exact hpop') (by rw [hqueue₁, hqueue₀, hsize']; rfl) htick₂
  have hreset : .reset ∉ .message (.frame f) :: .message (.frame g) :: ticks := by
    simp [ticks]
  have hbeats : v.beats (.message (.frame f) :: .message (.frame g) :: ticks) =
      [⟨((v.ingest (.frame f)).2.ingest (.frame g)).2, 0, .drawn 1 cells, a⟩,
        ⟨a, 1, .stepped 0, b⟩, ⟨b, 2, .drawn 2 cells', c⟩] := by
    simp only [ticks, beats, htick₀, htick₁, htick₂, List.length_nil, f, g]
  obtain ⟨-, -, -, hpresents, -⟩ := glides_whole_and_joined rfl hstart hreset
  obtain ⟨q, hq, hpresent⟩ := hpresents ⟨a, 1, .stepped 0, b⟩ (by rw [hbeats]; simp) 0 rfl
  obtain rfl : p = q :=
    Option.some.inj ((Beat.position?_eq rfl (by rw [← hmoved])).symm.trans hq)
  refine ⟨f, g, v, a, b, c, cells, cells', p, by decide, hstart, hreset, ?_, ?_, ?_, hpresent,
    hshown⟩
  · exact congrArg (List.map Beat.outcome) hbeats
  · exact congrArg (List.map Beat.after) hbeats
  · rw [← hmoved]

end Viewer

end TileViewer
