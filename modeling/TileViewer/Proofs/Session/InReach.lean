import TileViewer.Proofs.Marks.Patch
import TileViewer.Proofs.Reach.Drawing
import TileViewer.Proofs.Session.Setup

/-!
A run overflows nowhere while all that the server speaks of lies in reach. A view far away has no
place for the camera, and the viewer gives up on it.
-/
namespace TileViewer

theorem FrameQueue.gives_pop {q : FrameQueue} (h : ∀ f ∈ q.pending, Passable f) :
    Gives q.pop fun out =>
      (∀ f, out.1 = some f → f ∈ q.pending) ∧ ∀ f ∈ out.2.pending, f ∈ q.pending := by
  obtain ⟨⟨next, rest⟩, hpop⟩ : ∃ out, q.pop = .ok out := by
    cases hc : q.cursor with
    | none => exact ⟨_, by rw [pop, hc]⟩
    | some least =>
      cases hr : q.ready with
      | nil =>
        obtain ⟨rest, hpop, -⟩ := pop_of_ready_nil hr fun hnone =>
          absurd (hc.symm.trans hnone) (Option.some_ne_none least)
        exact ⟨_, hpop⟩
      | cons f fs =>
        have hf : f ∈ q.ready := hr ▸ List.mem_cons_self
        obtain ⟨rest, hpop, -⟩ := pop_of_ready_cons hr (h f (ready_subset_pending hf))
        exact ⟨_, hpop⟩
  refine ⟨_, hpop, ?_, pending_of_pop hpop⟩
  rintro f rfl
  exact mem_pending_of_pop hpop

theorem DirtyGrid.sameSize_cleared (g : DirtyGrid) : SameSize g g.cleared := ⟨rfl, rfl⟩

theorem DirtyGrid.sameSize_absorb (g other : DirtyGrid) : SameSize g (g.absorb other) := by
  unfold absorb
  split <;> exact ⟨rfl, rfl⟩

/-- Frames are applied wherever they lie. -/
theorem DirtyGrid.Regular.canMark {g : DirtyGrid} (hg : g.Regular) (sprite : UInt32) :
    Patcher.CanMark sprite g := by
  have hgreatest : (0xFFFFFFFF : UInt32).toNat = 2 ^ 32 - 1 := rfl
  have hwidth := hg.width_lt
  have hheight := hg.height_lt
  refine .inr ⟨?_, ?_⟩
  · intro h
    rw [h, hgreatest] at hwidth
    omega
  · intro h
    rw [h, hgreatest] at hheight
    omega

theorem Patcher.gives_apply {g : DirtyGrid} (hg : g.Regular) (p : Patcher) (frame : Frame)
    (window : Window) (tiles : TileStore) :
    Gives (p.apply frame window tiles g) fun out => g.SameSize out.2.2.2 := by
  obtain ⟨marks, hmarks, hsame⟩ := (hg.canMark p.sprite).gives_markAll frame window
  exact ⟨_, apply_of_markAll hmarks tiles, hsame⟩

namespace Viewer

/-- What a message brings lies in reach, and its number is not the last of all. -/
def Event.InReach (reach : Nat) : Event → Prop
  | .message (.frame f) => f.InReach reach ∧ Passable f
  | .message (.side u) => ∀ h ∈ u.hits.getD [], h.InReach reach
  | _ => True

/-- All that a viewer keeps comes from things in reach. -/
structure InReach (E : Envelope) (v : Viewer) : Prop where
  sprite : v.sprite = E.sprite
  surfaceWidth : v.surfaceWidth = E.width
  surfaceHeight : v.surfaceHeight = E.height
  dirty : v.dirty.Regular
  pending : ∀ f ∈ v.queue.pending, f.InReach E.reach ∧ Passable f
  numbers : v.numbers.InReach E.reach
  tracked : ∀ r, v.tracked = some r → r.InReach E.reach
  camera : ∀ a, v.camera.target = some a → Within (E.extent / 2) a.y.toInt
  painter : v.painter.InReach E

namespace InReach

variable {E : Envelope} {v : Viewer} {frame : Frame} {window : Window} {marks : DirtyGrid}

theorem ingest (h : v.InReach E) {m : Message} (hm : Event.InReach E.reach (.message m)) :
    (v.ingest m).2.InReach E := by
  cases m with
  | frame f =>
    have hpending : ∀ g ∈ (v.queue.push f).pending, g.InReach E.reach ∧ Passable g := by
      intro g hg
      rcases mem_insertFrame hg with rfl | hg
      · exact hm
      · exact h.pending g hg
    simp only [Viewer.ingest]
    split
    · exact { h with pending := hpending }
    · exact { h with pending := hpending }
  | side u => exact { h with numbers := h.numbers.queue hm }
  | unknown type => exact h

theorem reset (h : v.InReach E) : v.reset.InReach E :=
  { h with
    dirty := (DirtyGrid.sameSize_cleared _).regular h.dirty
    pending := nofun
    numbers := h.numbers.restart v.seed
    camera := nofun
    painter := h.painter.reset }

theorem gives_cameraStep (h : v.InReach E) (now : UInt64) (backlog : Nat) :
    Gives (v.cameraStep now backlog) fun out => out.2.InReach E := by
  unfold cameraStep Camera.next
  split
  · cases hsteps : v.camera.steps with
    | nil => exact .ok h
    | cons step rest =>
      refine .bind (h.painter.gives_present step) fun out hpainter => ?_
      exact .ok { h with painter := hpainter }
  · exact .ok h

theorem gives_applyFrame (h : v.InReach E) (frame : Frame) (window : Window) (now : UInt64) :
    Gives (v.applyFrame frame window now) fun out => out.1.Regular ∧ out.2.InReach E := by
  refine .bind (Patcher.gives_apply h.dirty v.patcher frame window v.tiles) fun out hout => ?_
  refine .ok ⟨hout.regular h.dirty, ?_⟩
  exact { h with
    dirty := (DirtyGrid.sameSize_cleared _).regular h.dirty
    numbers := h.numbers.release frame.seq }

theorem gives_paintFrame (h : v.InReach E) (hf : frame.InReach E.reach) (hw : window.InReach E)
    (hmarks : marks.Regular) :
    Gives (v.paintFrame frame window marks) fun out => out.2.InReach E := by
  refine .bind h.numbers.gives_advance fun ⟨drawn, numbers⟩ ⟨hdrawn, hnumbers⟩ => ?_
  have hscope : (if frame.full then Scope.all else .dirty marks).Decides := by
    split
    · exact Scene.decides_all
    · exact Scope.decides_dirty hmarks
  have hoverlay : Overlay.InReach E.reach ⟨frame.creatures, drawn, frame.seq, v.tracked⟩ :=
    ⟨hf.creatures, hdrawn, h.tracked⟩
  refine .bind (h.painter.gives_draw hw v.tiles hscope hoverlay) fun ⟨painted, painter⟩ hp => ?_
  cases hview : v.view with
  | world => exact .ok { h with numbers := hnumbers, painter := hp }
  | follow =>
    have htarget := hf.gives_targetOf
    rw [← h.surfaceWidth, ← h.surfaceHeight, ← h.sprite] at htarget
    refine .bind htarget fun target ht => ?_
    refine .bind (Camera.gives_retarget h.camera ht) fun ⟨n, camera⟩ hcamera => ?_
    refine .ok { h with numbers := hnumbers, painter := hp, camera := ?_ }
    intro a ha
    rw [hcamera] at ha
    cases ha
    exact ht

theorem gives_nextFrame (h : v.InReach E) (now : UInt64) (backlog : Nat) :
    Gives (v.nextFrame now backlog) fun out => out.2.InReach E := by
  refine .bind (FrameQueue.gives_pop fun f hf => (h.pending f hf).2) ?_
  rintro ⟨next, queue⟩ ⟨hnext, hqueue⟩
  have hpending : ∀ f ∈ queue.pending, f.InReach E.reach ∧ Passable f :=
    fun f hf => h.pending f (hqueue f hf)
  cases next with
  | none => exact .ok { h with pending := hpending }
  | some frame =>
    obtain ⟨hf, -⟩ := h.pending frame (hnext frame rfl)
    have hwindow := hf.gives_ofFrame v.view
    rw [← h.surfaceWidth, ← h.surfaceHeight, ← h.sprite] at hwindow
    refine .bind hwindow fun window hw => ?_
    have hqueued : InReach E { v with queue } := { h with pending := hpending }
    refine .bind (hqueued.gives_applyFrame frame window now) fun ⟨marks, w⟩ ⟨hmarks, hw'⟩ => ?_
    dsimp only
    split
    · exact .ok { hw' with dirty := (DirtyGrid.sameSize_absorb _ _).regular hw'.dirty }
    · exact hw'.gives_paintFrame hf hw hmarks

theorem gives_tick (h : v.InReach E) (now : UInt64) :
    Gives (v.tick now) fun out => out.2.InReach E := by
  unfold tick
  dsimp only
  split
  · split
    · exact h.gives_nextFrame now _
    · exact h.gives_cameraStep now _
  · split
    · exact h.gives_nextFrame now _
    · exact .ok h

theorem gives_step (h : v.InReach E) {e : Event} (he : e.InReach E.reach) :
    Gives (v.step e) (·.InReach E) := by
  cases e with
  | message m => exact .ok (h.ingest he)
  | reset => exact .ok h.reset
  | tick now =>
    obtain ⟨⟨out, w⟩, htick, hw⟩ := h.gives_tick now
    exact ⟨w, step_tick_of_tick htick, hw⟩

/-- While what the messages bring lies in reach, no step overflows. -/
theorem gives_run (h : v.InReach E) {events : List Event} (he : ∀ e ∈ events, e.InReach E.reach) :
    Gives (v.run events) (·.InReach E) :=
  .foldlM h fun _ hw e hmem => hw.gives_step (he e hmem)

/-- A viewer begins with nothing that could be out of reach but the tracked view. -/
theorem gives_ofSettings {s : ViewerSettings} (hsprite : s.side = E.sprite)
    (hwidth : s.surfaceWidth = E.width) (hheight : s.surfaceHeight = E.height)
    (htracked : ∀ r, s.tracked = some r → r.InReach E.reach) (sheet : SpriteSheet) :
    Gives (ofSettings s sheet) (·.InReach E) := by
  have hpos := E.sprite_pos
  have hle := E.sprite_le
  rw [← hsprite] at hpos hle
  obtain ⟨v, hv⟩ := exists_ofSettings s (by omega) sheet
  obtain ⟨dirty, numbers, hdirty, hnumbers, rfl⟩ := ofSettings_eq_ok hv
  have hgrid := (DirtyGrid.ofSprite_forSprite hpos hdirty).regular hpos (by omega)
  obtain ⟨numbers', hnumbers', hquiet⟩ := DamageNumbers.gives_ofSeed E s.seed
  rw [hsprite] at hnumbers
  cases hnumbers.symm.trans hnumbers'
  exact ⟨_, hv, hsprite, hwidth, hheight, hgrid, nofun, hquiet, htracked, nofun,
    (max_side s).trans hsprite, Canvas.inReach_ofView E s.view⟩

end InReach

/-- A frame is not painted if its picture or the camera's new target overflows. -/
theorem nextFrame_overflows {v : Viewer} {j : Job} {overlay : Overlay} {backlog : Nat}
    {e : Overflow} (hj : v.job = .ok (some j)) (hskip : Pacing.skips backlog j.frame.full = false)
    (hoverlay : v.overlayOf j.frame = .ok overlay)
    (hbad : v.painter.draw j.window j.tiles j.scope overlay = .error e ∨
      (∃ drawn, v.painter.draw j.window j.tiles j.scope overlay = .ok drawn) ∧ v.view = .follow ∧
        Camera.targetOf j.frame v.surfaceWidth v.surfaceHeight v.sprite = .error e)
    (now : UInt64) : v.nextFrame now backlog = .error e := by
  obtain ⟨queue, summary, patcher, hpop, hwindow, happly⟩ := job_eq_ok hj
  obtain ⟨drawn, numbers, hadvance, rfl⟩ := overlayOf_eq_ok hoverlay
  unfold Job.scope at hbad
  rcases hbad with hpaint | ⟨⟨painted, hpaint⟩, hview, htarget⟩
  · simp [nextFrame, hpop, hwindow, applyFrame, happly, hskip, paintFrame, hadvance, hpaint,
      bind, Except.bind, pure, Except.pure]
  · rw [hview] at hwindow
    simp [nextFrame, hpop, hwindow, applyFrame, happly, hskip, paintFrame, hadvance, hpaint,
      hview, htarget, bind, Except.bind, pure, Except.pure]

/-- The first frame of all gives an overflow if what lies on top of it does, or the camera's
target. -/
theorem first_frame_overflows {s : ViewerSettings} {sheet : SpriteSheet} {v : Viewer}
    (frame : Frame) (window : Window) {e : Overflow} (h : ofSettings s sheet = .ok v)
    (hside : 5 * s.side.toNat < 2 ^ 31) (hf : Passable frame)
    (hwindow : Window.ofFrame s.view frame s.surfaceWidth s.surfaceHeight s.side = .ok window)
    (hpaintable : window.Paintable s.side)
    (hbad : (∀ t, Overlay.draw ⟨frame.creatures, [], frame.seq, s.tracked⟩ s.view window s.side t =
        .error e) ∨
      (∀ t, ∃ t', Overlay.draw ⟨frame.creatures, [], frame.seq, s.tracked⟩ s.view window s.side t =
        .ok t') ∧ s.view = .follow ∧
        Camera.targetOf frame s.surfaceWidth s.surfaceHeight s.side = .error e) :
    v.run [.message (.frame frame), .tick 0] = .error e := by
  obtain ⟨w, hrun, hsize, hpop, hpacer, hcamera, hquiet⟩ := run_first h frame hf
  obtain ⟨w', hstep, hrest⟩ := run_cons_eq_ok hrun
  cases hrest
  have hrests : v.Rests w := by
    cases hstep
    exact v.rests_ingest _
  obtain ⟨dirty, numbers, hdirty, -, rfl⟩ := ofSettings_eq_ok h
  have hgrid : w.dirty.Regular := by
    rw [hrests.dirty]
    exact (DirtyGrid.ofSprite_forSprite s.side_pos hdirty).regular s.side_pos hside
  have hview : w.view = s.view := hrests.view
  have hside : w.sprite = s.side := hrests.sprite
  have hwidth : w.surfaceWidth = s.surfaceWidth := hrests.surfaceWidth
  have hheight : w.surfaceHeight = s.surfaceHeight := hrests.surfaceHeight
  have hsprite : w.painter.sprite = s.side := hrests.painterSprite.trans (max_side s)
  have hpainter : w.painter.view = s.view := hrests.painterView
  obtain ⟨⟨summary, patcher, tiles, marks⟩, happly, hmarks⟩ :=
    Patcher.gives_apply hgrid w.patcher frame window w.tiles
  have hj := job_of_apply hpop (by rw [hview, hside, hwidth, hheight]; exact hwindow) happly
  have hscope : (if frame.full then Scope.all else .dirty marks).Decides := by
    split
    · exact Scene.decides_all
    · exact Scope.decides_dirty (hmarks.regular hgrid)
  obtain ⟨t, k, hdraw⟩ := Painter.draw_eq_map (p := w.painter) (by rwa [hsprite]) tiles hscope
    ⟨frame.creatures, [], frame.seq, s.tracked⟩
  rw [hsprite, hpainter] at hdraw
  have hnext : w.nextFrame 0 w.queue.size = .error e := by
    refine nextFrame_overflows hj (by rw [hsize]; rfl) (hquiet.overlayOf frame) ?_ 0
    rcases hbad with hbad | ⟨hok, hfollow, htarget⟩
    · rw [hbad t] at hdraw
      exact .inl hdraw
    · obtain ⟨t', ht'⟩ := hok t
      rw [ht'] at hdraw
      refine .inr ⟨⟨k t', hdraw⟩, hview.trans hfollow, ?_⟩
      rw [hside, hwidth, hheight]
      exact htarget
  have htick : w.tick 0 = .error e := by
    unfold tick
    dsimp only
    split
    · rw [hcamera]
      exact hnext
    · rw [hpacer]
      exact hnext
  rw [run_cons_of_step hstep, run, List.foldlM_cons, step, htick]
  rfl

/-- With the usual settings no run overflows while views, creatures and hits are at most 31 million
tiles away from the origin, wherever the patches lie. -/
theorem usual_run_in_reach (view : View) (sheet : SpriteSheet) {events : List Event}
    (h : ∀ e ∈ events, e.InReach 31000000) :
    ∃ v₀ v, ofSettings { view } sheet = .ok v₀ ∧ v₀.run events = .ok v := by
  obtain ⟨v₀, hstart, hv₀⟩ := InReach.gives_ofSettings (E := .usual) (s := { view })
    rfl rfl rfl nofun sheet
  obtain ⟨v, hrun, -⟩ := hv₀.gives_run h
  exact ⟨v₀, v, hstart, hrun⟩

/-- A hit and a creature at one corner of the reach, the largest view at the opposite one. -/
theorem usual_run_in_reach_corners :
    ∃ (m : FrameMessage) (frame : Frame) (events : List Event) (v₀ v : Viewer),
      m.decode = .ok frame ∧ frame.viewX = -31000000 ∧ frame.viewY = 31000000 ∧
      (∃ c ∈ frame.creatures, c.x = 31000000 ∧ c.y = -31000000) ∧
      .message (.frame frame) ∈ events ∧ (∀ e ∈ events, e.InReach 31000000) ∧
      ofSettings {} (.ofSprite 32) = .ok v₀ ∧ v₀.run events = .ok v := by
  let creature : Creature := ⟨31000000, -31000000, 5, 10, some "far"⟩
  let m : FrameMessage := ⟨1, -31000000, 31000000, 1024, 1024, false, [], [creature], none⟩
  obtain ⟨frame, hread⟩ : ∃ frame, m.decode = .ok frame := ⟨_, rfl⟩
  let events : List Event := [.message (.side { hits := some [⟨31000000, -31000000, 1, 7⟩] }),
    .message (.frame frame), .tick 0, .tick 20]
  have hin : ∀ e ∈ events, e.InReach 31000000 := by
    intro e he
    simp only [events, List.mem_cons, List.not_mem_nil, or_false] at he
    rcases he with rfl | rfl | rfl | rfl
    · intro hit hhit
      rw [List.mem_singleton.1 hhit]
      constructor <;> decide
    · obtain ⟨hwidth, hheight⟩ := FrameMessage.side_le hread
      cases hread
      refine ⟨⟨by decide, by decide, hwidth, hheight, ?_⟩, by decide⟩
      intro c hc
      rw [List.mem_singleton.1 hc]
      exact ⟨by decide, by decide, fun name hname => by cases hname; decide⟩
    · trivial
    · trivial
  obtain ⟨v₀, v, hstart, hrun⟩ := usual_run_in_reach .follow (.ofSprite 32) hin
  have hmem : .message (.frame frame) ∈ events := by simp [events]
  cases hread
  exact ⟨m, _, events, v₀, v, rfl, rfl, rfl, ⟨creature, List.mem_singleton_self _, rfl, rfl⟩, hmem,
    hin, hstart, hrun⟩

/-- Two frames as the reader of frames gives them. In the follow view the camera's target is out of
range at a view 100 million tiles away. In the world view the bar of a creature is, in a band less
than a tenth wider than the reach. -/
theorem far_frames_overflow :
    (∃ m frame v₀, FrameMessage.decode m = .ok frame ∧ Passable frame ∧ frame.viewX = 100000000 ∧
      ofSettings {} (.ofSprite 32) = .ok v₀ ∧
      v₀.run [.message (.frame frame), .tick 0] = .error .multiply) ∧
    ∃ m frame v₀, FrameMessage.decode m = .ok frame ∧ Passable frame ∧
      frame.viewX = 33700000 ∧ (∀ c ∈ frame.creatures, c.x = -33700000 ∧ c.y = 0) ∧
      ofSettings { view := .world } (.ofSprite 32) = .ok v₀ ∧
      v₀.run [.message (.frame frame), .tick 0] = .error .multiply := by
  obtain ⟨v₀, hv₀⟩ := exists_ofSettings {} (by decide) (.ofSprite 32)
  obtain ⟨v₁, hv₁⟩ := exists_ofSettings { view := .world } (by decide) (.ofSprite 32)
  refine ⟨⟨⟨1, 100000000, 0, 4, 4, false, [], [], none⟩, _, v₀, rfl, by decide, rfl, hv₀, ?_⟩,
    ⟨⟨1, 33700000, 0, 4, 4, false, [], [⟨-33700000, 0, 1, 1, none⟩], none⟩, _, v₁, rfl, by decide,
      rfl, ?_, hv₁, ?_⟩⟩
  · exact first_frame_overflows _ ⟨99999975, -21, 54, 46⟩ hv₀ (by decide) (by decide) rfl
      ⟨by decide, by decide, by decide, by decide, by decide⟩ (.inr ⟨fun t => ⟨_, rfl⟩, rfl, rfl⟩)
  · intro c hc
    rw [List.mem_singleton.1 hc]
    exact ⟨rfl, rfl⟩
  · exact first_frame_overflows _ ⟨33700000, 0, 4, 4⟩ hv₁ (by decide) (by decide) rfl
      ⟨by decide, by decide, by decide, by decide, by decide⟩ (.inl fun t => rfl)

end Viewer

end TileViewer
