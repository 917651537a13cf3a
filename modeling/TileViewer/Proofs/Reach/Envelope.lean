import TileViewer.Camera
import TileViewer.Painter.Overlay
import TileViewer.Proofs.Damage.Numbers
import TileViewer.Proofs.Picture.Glide
import TileViewer.Wire.FrameMessage

/-!
How far from the origin things may lie so that no place overflows: windows, targets of the camera
and damage numbers of what lies in reach.
-/
namespace TileViewer

/-- At most `n` away from zero. -/
abbrev Within (n : Nat) (z : Int) : Prop := -(n : Int) ≤ z ∧ z ≤ n

/-- The sizes of sprites and surface, and how far from the origin the tiles may lie. There is room
for the distance of two tiles in pixels, and for the text beside them. -/
structure Envelope where
  sprite : UInt32
  width : UInt32
  height : UInt32
  reach : Nat
  sprite_pos : 0 < sprite.toNat
  sprite_le : sprite.toNat ≤ 2 ^ 8
  width_le : width.toNat ≤ 2 ^ 14
  height_le : height.toNat ≤ 2 ^ 14
  room : (2 * reach + 2 ^ 15) * sprite.toNat + 2 ^ 27 ≤ 2 ^ 31

namespace Envelope

variable (E : Envelope)

/-- The distance of two tiles, in pixels. -/
def extent : Nat := (2 * E.reach + 2 ^ 15) * E.sprite.toNat

theorem extent_le : E.extent + 2 ^ 27 ≤ 2 ^ 31 := E.room

theorem reach_le : 2 * E.reach + 2 ^ 15 ≤ E.extent := Nat.le_mul_of_pos_right _ E.sprite_pos

theorem toInt_sprite : E.sprite.toInt32.toInt = E.sprite.toNat :=
  toInt_toInt32 (Nat.lt_of_le_of_lt E.sprite_le (by decide))

theorem within_mul {n : Nat} {z : Int} (h : Within n z) (s : Nat) : Within (n * s) (z * s) := by
  have hs : (0 : Int) ≤ s := Int.natCast_nonneg s
  rw [Within, Int.natCast_mul, ← Int.neg_mul]
  exact ⟨Int.mul_le_mul_of_nonneg_right h.1 hs, Int.mul_le_mul_of_nonneg_right h.2 hs⟩

/-- A number of tiles as a number of pixels. -/
theorem gives_scaled {n : Nat} {d : Int32} (h : Within n d.toInt)
    (hn : n * E.sprite.toNat < 2 ^ 31) :
    Gives (Word.times d E.sprite.toInt32) fun p =>
      p.toInt = d.toInt * E.sprite.toNat ∧ Within (n * E.sprite.toNat) p.toInt := by
  have hwithin : Within (n * E.sprite.toNat) (d.toInt * E.sprite.toNat) := within_mul h _
  rw [← E.toInt_sprite] at hwithin ⊢
  refine (gives_times (by omega) (by omega)).mono ?_
  intro p hp
  exact ⟨hp, by rwa [hp]⟩

/-- A distance between tiles has an exact length in pixels. -/
theorem gives_pixels {d : Int32} (h : Within (2 * E.reach + 2 ^ 15) d.toInt) :
    Gives (Word.times d E.sprite.toInt32) fun p =>
      p.toInt = d.toInt * E.sprite.toNat ∧ Within E.extent p.toInt := by
  have hroom := E.room
  unfold extent
  exact E.gives_scaled h (by omega)

/-- The middle of a view is half as far away as two tiles may be, and the surface fits beside it. -/
theorem middle_le : 2 * ((E.reach + 512) * E.sprite.toNat + 2 ^ 13) ≤ E.extent := by
  have hpos := E.sprite_pos
  have hsplit : E.extent = 2 * ((E.reach + 512) * E.sprite.toNat) + 31744 * E.sprite.toNat := by
    rw [← Nat.mul_assoc, ← Nat.add_mul, Nat.mul_add, Nat.add_assoc]
    rfl
  omega

/-- The usual settings have room for tiles up to 31 million away from the origin. -/
def usual : Envelope where
  sprite := 32
  width := 1024
  height := 768
  reach := 31000000
  sprite_pos := by decide
  sprite_le := by decide
  width_le := by decide
  height_le := by decide
  room := by decide

end Envelope

/-- What lies at most `reach` from the origin. -/
structure Creature.InReach (reach : Nat) (c : Creature) : Prop where
  x : Within reach c.x.toInt
  y : Within reach c.y.toInt
  name : ∀ name, c.name = some name → name.length < 2 ^ 24

structure Hit.InReach (reach : Nat) (h : Hit) : Prop where
  x : Within reach h.x.toInt
  y : Within reach h.y.toInt

structure TileRect.InReach (reach : Nat) (r : TileRect) : Prop where
  x : Within reach r.x.toInt
  y : Within reach r.y.toInt
  right : r.x.toInt + r.width.toNat ≤ reach
  bottom : r.y.toInt + r.height.toNat ≤ reach

/-- Patches may lie anywhere. -/
structure Frame.InReach (reach : Nat) (f : Frame) : Prop where
  x : Within reach f.viewX.toInt
  y : Within reach f.viewY.toInt
  width : f.viewWidth ≤ FrameMessage.maxViewSide
  height : f.viewHeight ≤ FrameMessage.maxViewSide
  creatures : ∀ c ∈ f.creatures, c.InReach reach

/-- The reader of frames refuses larger views. -/
theorem FrameMessage.side_le {m : FrameMessage} {f : Frame} (h : m.decode = .ok f) :
    f.viewWidth ≤ maxViewSide ∧ f.viewHeight ≤ maxViewSide := by
  have hcontents : m.contents = .ok f := by
    unfold decode at h
    cases hread : m.contents with
    | error fault =>
      rw [hread] at h
      cases h
    | ok g =>
      rw [hread] at h
      cases h
      rfl
  unfold contents at hcontents
  split at hcontents
  · cases hcontents
  · next hlarge =>
    dsimp only at hcontents
    obtain ⟨patches, -, hf⟩ := bind_eq_ok hcontents
    cases hf
    rw [not_or, UInt32.not_lt, UInt32.not_lt] at hlarge
    exact hlarge

/-- A window of what lies in reach. -/
structure Window.InReach (E : Envelope) (w : Window) : Prop where
  x : Within (E.reach + 2 ^ 14) w.startX.toInt
  y : Within (E.reach + 2 ^ 14) w.startY.toInt
  width : w.width.toNat ≤ 2 ^ 15
  height : w.height.toNat ≤ 2 ^ 15

namespace Frame.InReach

variable {E : Envelope} {frame : Frame}

/-- Half of a view, in tiles. -/
theorem half_side {n : UInt32} (h : n ≤ FrameMessage.maxViewSide) :
    Within 512 (n / 2).toInt32.toInt := by
  have hn : n.toNat ≤ 1024 := UInt32.le_iff_toNat_le.1 h
  rw [Window.toInt_half]
  omega

/-- The start of the follow view in one direction: half of its tiles before the middle. -/
theorem gives_start {reach : Nat} {view half : Int32} {tiles : UInt32}
    (hreach : 2 * reach + 2 ^ 15 ≤ 2 ^ 31) (hview : Within reach view.toInt)
    (hhalf : Within 512 half.toInt) (htiles : tiles.toNat ≤ 2 ^ 14 + 644) :
    Gives (Word.minus (Word.plusSat view half) (tiles / 2).toInt32) fun start =>
      Within (reach + 2 ^ 14) start.toInt := by
  have hcenter := toInt_plusSat view half
  have htwo := Window.toInt_half tiles
  exact (gives_minus (by omega) (by omega)).mono fun start hstart => by omega

theorem gives_ofFrame (h : frame.InReach E.reach) (view : View) :
    Gives (Window.ofFrame view frame E.width E.height E.sprite) (·.InReach E) := by
  have hx := h.x
  have hy := h.y
  cases view with
  | world =>
    have hwidth : frame.viewWidth.toNat ≤ 1024 := UInt32.le_iff_toNat_le.1 h.width
    have hheight : frame.viewHeight.toNat ≤ 1024 := UInt32.le_iff_toNat_le.1 h.height
    refine .ok ⟨?_, ?_, ?_, ?_⟩ <;> dsimp only <;> omega
  | follow =>
    have hdiv {n : UInt32} (hn : n.toNat ≤ 2 ^ 14) : (n / E.sprite).toNat ≤ 2 ^ 14 := by
      rw [UInt32.toNat_div]
      exact Nat.le_trans (Nat.div_le_self _ _) hn
    have hcolumns := hdiv E.width_le
    have hrows := hdiv E.height_le
    have htwo : (2 : UInt32).toNat = 2 := rfl
    have hglide := Window.glideTiles_le E.sprite
    have hreach := Window.toNat_two_mul_glideTiles E.sprite
    have hroom : 2 * E.reach + 2 ^ 15 ≤ 2 ^ 31 := by
      have := E.reach_le
      have := E.extent_le
      omega
    rw [Window.ofFrame, max_one E.sprite_pos]
    refine .bind (gives_plus_nat (by omega)) fun c hc => ?_
    refine .bind (gives_plus_nat (by omega)) fun columns hcolumns => ?_
    refine .bind (gives_plus_nat (by omega)) fun r hr => ?_
    refine .bind (gives_plus_nat (by omega)) fun rows hrows => ?_
    refine .bind (gives_start hroom hx (half_side h.width) (by omega)) fun startX hstartX => ?_
    refine .bind (gives_start hroom hy (half_side h.height) (by omega)) fun startY hstartY => ?_
    exact .ok ⟨hstartX, hstartY, by dsimp only; omega, by dsimp only; omega⟩

/-- The camera's target lies so close that the way from one target to another is exact. -/
theorem gives_targetOf (h : frame.InReach E.reach) :
    Gives (Camera.targetOf frame E.width E.height E.sprite) fun target =>
      Within (E.extent / 2) target.y.toInt := by
  have hx := h.x
  have hy := h.y
  have hhalfX := half_side h.width
  have hhalfY := half_side h.height
  have hwidth := Window.toInt_half E.width
  have hheight := Window.toInt_half E.height
  have hw := E.width_le
  have hh := E.height_le
  have hextent := E.extent_le
  have hreach := E.reach_le
  have hmiddle := E.middle_le
  refine .bind (gives_plus (by omega) (by omega)) fun middleX hmx => ?_
  refine .bind (E.gives_scaled (n := E.reach + 512) (by omega) (by omega)) fun cx hcx => ?_
  refine .bind (gives_plus (by omega) (by omega)) fun middleY hmy => ?_
  refine .bind (E.gives_scaled (n := E.reach + 512) (by omega) (by omega)) fun cy hcy => ?_
  refine .bind (gives_minus (by omega) (by omega)) fun x hx => ?_
  refine .bind (gives_minus (by omega) (by omega)) fun y hy => ?_
  refine .ok ?_
  dsimp only
  omega

end Frame.InReach

/-- The camera finds its way between two such targets. -/
theorem Camera.gives_retarget {E : Envelope} {c : Camera} {target : Point}
    (hc : ∀ a, c.target = some a → Within (E.extent / 2) a.y.toInt)
    (ht : Within (E.extent / 2) target.y.toInt) :
    Gives (c.retarget target) fun out => out.2.target = some target := by
  have hextent := E.extent_le
  unfold retarget
  cases hold : c.target with
  | none => exact .ok rfl
  | some a =>
    have ha := hc a hold
    by_cases heq : a = target
    · simp only [if_pos heq]
      exact .ok rfl
    · simp only [if_neg heq]
      exact .bind (gives_minus (by omega) (by omega)) fun dy _ => .ok rfl

namespace DamageNumber

/-- A number that has risen from a hit in reach. -/
structure InReach (reach : Nat) (n : DamageNumber) : Prop where
  x : Within reach n.worldX.toInt
  y : Within reach n.worldY.toInt
  age : n.age.toNat ≤ 10
  velocityX : Within 81 n.velocityX.toInt
  velocityY : Within 81 n.velocityY.toInt
  offsetX : Within (405 * n.age.toNat) n.offsetX.toInt
  offsetY : Within (405 * n.age.toNat) n.offsetY.toInt

theorem gives_speedFor_within (E : Envelope) :
    Gives (speedFor E.sprite) fun speed => Within 81 speed.toInt := by
  have hle := E.sprite_le
  refine (gives_speedFor (by omega)).mono ?_
  intro speed hspeed
  rw [hspeed]
  split <;> omega

theorem within_ofHit {n : Nat} {speed : Int32} (h : Within n speed.toInt) (hn : n < 2 ^ 31)
    (d : Direction) :
    Within n (speed * d.step.1).toInt ∧ Within n (speed * d.step.2).toInt := by
  have hstep : (d.step.1.toInt = -1 ∨ d.step.1.toInt = 0 ∨ d.step.1.toInt = 1) ∧
      (d.step.2.toInt = -1 ∨ d.step.2.toInt = 0 ∨ d.step.2.toInt = 1) := by
    cases d <;> decide
  have hkeep {step : Int} (hs : step = -1 ∨ step = 0 ∨ step = 1) :
      Within n (speed.toInt * step) := by
    rcases hs with rfl | rfl | rfl <;> omega
  have hlow : -2 ^ 31 < speed.toInt := by omega
  obtain ⟨hx, hy⟩ := toInt_mul_step hlow d
  rw [hx, hy]
  exact ⟨hkeep hstep.1, hkeep hstep.2⟩

variable {reach : Nat} {n : DamageNumber}

theorem InReach.ofHit {hit : Hit} {speed : Int32} (h : hit.InReach reach)
    (hs : Within 81 speed.toInt) (d : Direction) : (ofHit hit speed d).InReach reach := by
  obtain ⟨hx, hy⟩ := within_ofHit hs (by decide) d
  have hstart : Within 0 0 := by decide
  exact ⟨h.x, h.y, Nat.zero_le _, hx, hy, hstart, hstart⟩

theorem gives_stride {velocity : Int32} (h : Within 81 velocity.toInt) :
    Gives (Word.times velocity stride) fun d => Within 405 d.toInt := by
  have hstride : stride.toInt = 5 := rfl
  refine (gives_times ?_ ?_).mono fun d hd => ?_ <;> rw [hstride] at * <;> omega

/-- A number that is still to be drawn can move on. -/
theorem InReach.gives_advance (h : n.InReach reach) (hage : n.age < lifetime) :
    Gives n.advance (·.InReach reach) := by
  have hlt : n.age.toNat < 10 := UInt32.lt_iff_toNat_lt.1 hage
  have hone : (1 : UInt32).toNat = 1 := rfl
  obtain ⟨hx, hy, -, hvx, hvy, hox, hoy⟩ := h
  refine .bind (gives_plus_nat (by omega)) fun age hage => ?_
  refine .bind (gives_stride hvx) fun dx hdx => ?_
  refine .bind (gives_plus (by omega) (by omega)) fun offsetX hoffsetX => ?_
  refine .bind (gives_stride hvy) fun dy hdy => ?_
  refine .bind (gives_plus (by omega) (by omega)) fun offsetY hoffsetY => ?_
  refine .ok ⟨hx, hy, ?_, hvx, hvy, ?_, ?_⟩ <;> dsimp only <;> omega

end DamageNumber

namespace DamageNumbers

variable {reach : Nat} {d : DamageNumbers}

/-- Hits and numbers in reach. The live numbers are still to be drawn. -/
structure InReach (reach : Nat) (d : DamageNumbers) : Prop where
  speed : Within 81 d.speed.toInt
  waiting : ∀ h ∈ d.waiting, h.InReach reach
  live : ∀ n ∈ d.live, n.InReach reach ∧ n.age < DamageNumber.lifetime

theorem gives_ofSeed (E : Envelope) (seed : UInt32) :
    Gives (ofSeed E.sprite seed) (·.InReach reach) :=
  .bind (DamageNumber.gives_speedFor_within E) fun _ hspeed => .ok ⟨hspeed, nofun, nofun⟩

theorem InReach.restart (h : d.InReach reach) (seed : UInt32) : (d.restart seed).InReach reach :=
  ⟨h.speed, nofun, nofun⟩

theorem InReach.queue {hits : List Hit} (h : d.InReach reach)
    (hhits : ∀ h ∈ hits, h.InReach reach) : (d.queue hits).InReach reach := by
  refine ⟨h.speed, ?_, h.live⟩
  intro hit hmem
  rcases List.mem_append.1 hmem with hmem | hmem
  · exact h.waiting hit hmem
  · exact hhits hit hmem

theorem InReach.release (h : d.InReach reach) (seq : UInt64) : (d.release seq).2.InReach reach := by
  obtain ⟨due, hsplits⟩ := split_splits d.speed seq d.waiting d.random
  refine ⟨h.speed, ?_, ?_⟩
  · intro hit hmem
    exact h.waiting hit (hsplits.perm.mem_iff.1 (List.mem_append_left _ hmem))
  · intro n hn
    rcases List.mem_append.1 hn with hn | hn
    · exact h.live n hn
    · rw [hsplits.released_eq] at hn
      obtain ⟨⟨hit, direction⟩, hmem, rfl⟩ := List.mem_map.1 hn
      have hhit := hsplits.perm.mem_iff.1 (List.mem_append_right _ (List.mem_map_of_mem hmem))
      have hage : 0 < DamageNumber.lifetime := by decide
      exact ⟨.ofHit (h.waiting hit hhit) h.speed direction, hage⟩

theorem InReach.gives_advance (h : d.InReach reach) :
    Gives d.advance fun out => (∀ n ∈ out.1, n.InReach reach) ∧ out.2.InReach reach := by
  refine .bind (.mapM fun n hn => (h.live n hn).1.gives_advance (h.live n hn).2) ?_
  intro drawn hdrawn
  refine .ok ⟨hdrawn, h.speed, h.waiting, ?_⟩
  intro n hn
  obtain ⟨hmem, hage⟩ := List.mem_filter.1 hn
  exact ⟨hdrawn n hmem, of_decide_eq_true hage⟩

end DamageNumbers

end TileViewer
