import TileViewer.Proofs.Session.Glides

/-!
The limits that every run keeps: while all that the server speaks of lies at most a million tiles
away from the origin nothing overflows, at any usual size of sprites and surface, in either view.
No divisor becomes zero, and the camera never has more steps left than there is room for.
-/
namespace TileViewer

section

variable {n m : Nat}

theorem Within.mono {z : Int} (h : Within n z) (hle : n ≤ m) : Within m z := by omega

theorem Creature.InReach.mono {c : Creature} (h : c.InReach n) (hle : n ≤ m) : c.InReach m :=
  ⟨h.x.mono hle, h.y.mono hle, h.name⟩

theorem Hit.InReach.mono {hit : Hit} (h : hit.InReach n) (hle : n ≤ m) : hit.InReach m :=
  ⟨h.x.mono hle, h.y.mono hle⟩

theorem Frame.InReach.mono {f : Frame} (h : f.InReach n) (hle : n ≤ m) : f.InReach m :=
  ⟨h.x.mono hle, h.y.mono hle, h.width, h.height, fun c hc => (h.creatures c hc).mono hle⟩

theorem Viewer.Event.InReach.mono {e : Event} (h : e.InReach n) (hle : n ≤ m) : e.InReach m := by
  cases e with
  | message message =>
    cases message with
    | frame f => exact ⟨h.1.mono hle, h.2⟩
    | side u => exact fun hit hmem => (h hit hmem).mono hle
    | unknown type => trivial
  | tick now => trivial
  | reset => trivial

end

/-- Usual sizes, and a tracked view that begins near enough and is not too large. -/
structure ViewerSettings.Moderate (s : ViewerSettings) : Prop where
  sprite : s.sprite.toNat ≤ 256
  surfaceWidth : s.surfaceWidth.toNat ≤ 16384
  surfaceHeight : s.surfaceHeight.toNat ≤ 16384
  tracked : ∀ r, s.tracked = some r → Within 1000000 r.x.toInt ∧ Within 1000000 r.y.toInt ∧
    r.width.toNat ≤ 1000000 ∧ r.height.toNat ≤ 1000000

theorem ViewerSettings.Moderate.side_le {s : ViewerSettings} (h : s.Moderate) :
    s.side.toNat ≤ 2 ^ 8 := by
  change (if s.sprite ≤ 1 then 1 else s.sprite).toNat ≤ _
  split
  · decide
  · exact h.sprite

/-- A tracked view ends up to two million tiles away, so the envelope reaches that far. -/
def Envelope.ofModerate {s : ViewerSettings} (h : s.Moderate) : Envelope where
  sprite := s.side
  width := s.surfaceWidth
  height := s.surfaceHeight
  reach := 2000000
  sprite_pos := s.side_pos
  sprite_le := h.side_le
  width_le := h.surfaceWidth
  height_le := h.surfaceHeight
  room := Nat.le_trans (Nat.add_le_add_right (Nat.mul_le_mul_left _ h.side_le) _) (by decide)

namespace Camera

variable {c c' : Camera} {target : Point} {n : Nat}

theorem steps_retarget_le (h : c.retarget target = .ok (n, c')) :
    c'.steps.length ≤ maxSteps := by
  unfold retarget at h
  split at h
  · cases h
    exact Nat.succ_le_succ (Nat.zero_le _)
  · split at h
    · cases h
      exact Nat.succ_le_succ (Nat.zero_le _)
    · obtain ⟨dy, -, h⟩ := bind_eq_ok h
      cases h
      rw [path, List.length_map, List.length_range]
      exact (stepCount_bounds dy).2

theorem steps_next_le (c : Camera) : c.next.2.steps.length ≤ c.steps.length := by
  unfold next
  split
  · exact Nat.le_refl _
  · next hsteps =>
    rw [hsteps]
    exact Nat.le_succ _

end Camera

namespace Overlay

/-- The colour of a bar is one of the hundred in the table, whatever the health is. -/
theorem barColor_mem_gradient (health : Float) : barColor health ∈ Palette.gradient :=
  List.mem_map_of_mem
    (List.mem_range.2 (Nat.lt_succ_of_le (Nat.min_le_right (100.0 * health).toUInt32.toNat 99)))

end Overlay

namespace Viewer

variable {s : ViewerSettings} {sheet : SpriteSheet} {v w : Viewer} {now : UInt64} {backlog : Nat}
  {out : Outcome}

/-! A tick never leaves the camera with more steps than it had or than one glide has. -/

theorem steps_paintFrame_le {frame : Frame} {window : Window} {marks : DirtyGrid}
    (hv : v.camera.steps.length ≤ Camera.maxSteps)
    (h : v.paintFrame frame window marks = .ok (out, w)) :
    w.camera.steps.length ≤ Camera.maxSteps := by
  cases hview : v.view with
  | follow =>
    obtain ⟨target, n, -, hretarget, -⟩ := paintFrame_camera hview h
    exact Camera.steps_retarget_le hretarget
  | world =>
    obtain ⟨⟨drawn, numbers⟩, -, h⟩ := bind_eq_ok h
    obtain ⟨⟨painted, painter⟩, -, h⟩ := bind_eq_ok h
    simp only [hview] at h
    cases h
    exact hv

theorem steps_nextFrame_le (hv : v.camera.steps.length ≤ Camera.maxSteps)
    (h : v.nextFrame now backlog = .ok (out, w)) : w.camera.steps.length ≤ Camera.maxSteps := by
  obtain ⟨⟨next, queue⟩, -, h⟩ := bind_eq_ok h
  cases next with
  | none =>
    cases h
    exact hv
  | some frame =>
    obtain ⟨window, -, h⟩ := bind_eq_ok h
    obtain ⟨⟨marks, u⟩, happlied, h⟩ := bind_eq_ok h
    obtain ⟨⟨summary, patcher, tiles, marks⟩, -, happlied⟩ := bind_eq_ok happlied
    cases happlied
    dsimp only at h
    split at h
    · cases h
      exact hv
    · refine steps_paintFrame_le ?_ h
      exact hv

theorem steps_cameraStep_le (hv : v.camera.steps.length ≤ Camera.maxSteps)
    (h : v.cameraStep now backlog = .ok (out, w)) : w.camera.steps.length ≤ Camera.maxSteps := by
  rcases cameraStep_eq_ok h with ⟨-, rfl⟩ | ⟨p, camera, shown, painter, hnext, -, -, rfl⟩
  · exact hv
  · have hle := v.camera.steps_next_le
    rw [hnext] at hle
    exact Nat.le_trans hle hv

theorem steps_tick_le (hv : v.camera.steps.length ≤ Camera.maxSteps)
    (h : v.tick now = .ok (out, w)) : w.camera.steps.length ≤ Camera.maxSteps := by
  rcases tick_cases h with hnext | hcamera | ⟨-, rfl⟩
  · exact steps_nextFrame_le hv hnext
  · exact steps_cameraStep_le hv hcamera
  · exact hv

theorem steps_run_le {events : List Event} (hv : v.camera.steps.length ≤ Camera.maxSteps)
    (h : v.run events = .ok w) : w.camera.steps.length ≤ Camera.maxSteps := by
  induction events generalizing v with
  | nil =>
    cases h
    exact hv
  | cons e events ih =>
    obtain ⟨u, hstep, hrest⟩ := run_cons_eq_ok h
    refine ih ?_ hrest
    cases e with
    | message m =>
      cases hstep
      rwa [camera_ingest]
    | reset =>
      cases hstep
      exact Nat.zero_le _
    | tick now =>
      obtain ⟨out, htick⟩ := step_tick_eq_ok hstep
      exact steps_tick_le hv htick

/-- What later steps divide by is not zero, the steps left have room in the camera's buffer, and
every bar that waits to be drawn has its colour in the table. -/
structure Guarded (v : Viewer) : Prop where
  sprite : 0 < v.sprite.toNat
  squares : v.dirty.Regular
  steps : v.camera.steps.length ≤ Camera.maxSteps
  bars : ∀ f ∈ v.queue.pending, ∀ c ∈ f.creatures, Overlay.barColor c.health ∈ Palette.gradient

theorem InReach.guarded {E : Envelope} (h : v.InReach E)
    (hsteps : v.camera.steps.length ≤ Camera.maxSteps) : v.Guarded where
  sprite := h.sprite ▸ E.sprite_pos
  squares := h.dirty
  steps := hsteps
  bars := fun _ _ c _ => Overlay.barColor_mem_gradient c.health

/-- With moderate settings a viewer can be built, and no run overflows while all that the server
speaks of lies at most a million tiles away from the origin. -/
theorem run_within_million (hs : s.Moderate) (sheet : SpriteSheet) {events : List Event}
    (he : ∀ e ∈ events, e.InReach 1000000) :
    ∃ v₀ v, ofSettings s sheet = .ok v₀ ∧ v₀.run events = .ok v ∧ v.Guarded := by
  have htracked : ∀ r, s.tracked = some r → r.InReach 2000000 := by
    intro r hr
    obtain ⟨hx, hy, hwidth, hheight⟩ := hs.tracked r hr
    exact ⟨hx.mono (by decide), hy.mono (by decide), by omega, by omega⟩
  obtain ⟨v₀, hstart, hv₀⟩ := InReach.gives_ofSettings (E := .ofModerate hs) rfl rfl rfl htracked
    sheet
  have hcamera : v₀.camera.steps.length ≤ Camera.maxSteps := by
    obtain ⟨dirty, numbers, -, -, rfl⟩ := ofSettings_eq_ok hstart
    exact Nat.zero_le _
  have hreach : 1000000 ≤ (Envelope.ofModerate hs).reach := by
    change 1000000 ≤ 2000000
    decide
  obtain ⟨v, hrun, hv⟩ := hv₀.gives_run fun e hmem => (he e hmem).mono hreach
  exact ⟨v₀, v, hstart, hrun, hv.guarded (steps_run_le hcamera hrun)⟩

/-- The largest sprites and surface, the largest view in one corner, and a creature, a hit and the
tracked view in the opposite one. -/
theorem run_within_million_corners :
    ∃ (s : ViewerSettings) (m : FrameMessage) (frame : Frame) (events : List Event) (v₀ v : Viewer),
      s.sprite = 256 ∧ s.surfaceWidth = 16384 ∧ s.surfaceHeight = 16384 ∧
      s.tracked = some ⟨1000000, -1000000, 1000000, 1000000⟩ ∧ s.Moderate ∧
      m.decode = .ok frame ∧ frame.viewX = -1000000 ∧ frame.viewY = 1000000 ∧
      frame.viewWidth = 1024 ∧ frame.viewHeight = 1024 ∧
      (∃ c ∈ frame.creatures, c.x = 1000000 ∧ c.y = -1000000) ∧
      .message (.frame frame) ∈ events ∧ (∀ e ∈ events, e.InReach 1000000) ∧
      ofSettings s (.ofSprite 256) = .ok v₀ ∧ v₀.run events = .ok v ∧ v.Guarded := by
  let s : ViewerSettings :=
    { view := .world, sprite := 256, surfaceWidth := 16384, surfaceHeight := 16384
      tracked := some ⟨1000000, -1000000, 1000000, 1000000⟩ }
  have hs : s.Moderate := by
    refine ⟨by decide, by decide, by decide, ?_⟩
    rintro r ⟨⟩
    decide
  let creature : Creature := ⟨1000000, -1000000, 5, 10, some "far"⟩
  let m : FrameMessage := ⟨1, -1000000, 1000000, 1024, 1024, false, [], [creature], none⟩
  obtain ⟨frame, hread⟩ : ∃ frame, m.decode = .ok frame := ⟨_, rfl⟩
  let events : List Event := [.message (.side { hits := some [⟨1000000, -1000000, 1, 7⟩] }),
    .message (.frame frame), .tick 0, .reset, .message (.frame frame), .tick 200]
  have hframe : Event.InReach 1000000 (.message (.frame frame)) := by
    obtain ⟨hwidth, hheight⟩ := FrameMessage.side_le hread
    cases hread
    refine ⟨⟨by decide, by decide, hwidth, hheight, ?_⟩, by decide⟩
    intro c hc
    rw [List.mem_singleton.1 hc]
    exact ⟨by decide, by decide, fun name hname => by cases hname; decide⟩
  have hhit : Event.InReach 1000000
      (.message (.side { hits := some [⟨1000000, -1000000, 1, 7⟩] })) := by
    intro hit hmem
    rw [List.mem_singleton.1 hmem]
    constructor <;> decide
  have hin : ∀ e ∈ events, e.InReach 1000000 := by
    intro e he
    simp only [events, List.mem_cons, List.not_mem_nil, or_false] at he
    rcases he with rfl | rfl | rfl | rfl | rfl | rfl
    · exact hhit
    · exact hframe
    · trivial
    · trivial
    · exact hframe
    · trivial
  obtain ⟨v₀, v, hstart, hrun, hv⟩ := run_within_million hs (.ofSprite 256) hin
  have hmem : .message (.frame frame) ∈ events := by simp [events]
  cases hread
  exact ⟨s, m, _, events, v₀, v, rfl, rfl, rfl, rfl, hs, rfl, rfl, rfl, rfl, rfl,
    ⟨creature, List.mem_singleton_self _, rfl, rfl⟩, hmem, hin, hstart, hrun, hv⟩

end Viewer

end TileViewer
