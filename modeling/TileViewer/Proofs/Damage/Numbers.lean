import Mathlib.Data.List.Forall2
import TileViewer.DamageNumber
import TileViewer.Proofs.Exact

/-!
The way of a number from its hit, drawing by drawing, and which hits a release takes.
-/
namespace TileViewer

/-- A loop over the second of two lists that belong together, element by element. -/
theorem Gives.mapM_forall₂ {α β γ : Type} {f : β → Except Overflow γ} {R : α → β → Prop}
    {S : α → γ → Prop} {as : List α} {bs : List β} (h : List.Forall₂ R as bs)
    (hf : ∀ a ∈ as, ∀ b, R a b → Gives (f b) (S a)) : Gives (bs.mapM f) (List.Forall₂ S as) := by
  induction h with
  | nil => exact .ok .nil
  | cons hab _ ih =>
    rw [List.mapM_cons]
    refine .bind (hf _ List.mem_cons_self _ hab) ?_
    intro c hc
    refine .bind (ih fun a ha => hf a (List.mem_cons_of_mem _ ha)) ?_
    intro cs hcs
    exact .ok (.cons hc hcs)

namespace DamageNumber

variable {sprite : UInt32} {speed : Int32} {hit : Hit} {direction : Direction} {age : Nat}
  {n : DamageNumber}

theorem gives_speedFor (h : 7 * sprite.toNat < 2 ^ 32) :
    Gives (speedFor sprite) fun speed =>
      speed.toInt = (7 * (if 10 < sprite then sprite.toNat else 5) / 22 : Nat) := by
  have hseven : (7 : UInt32).toNat = 7 := rfl
  have hside : (if 10 < sprite then sprite else 5).toNat =
      if 10 < sprite then sprite.toNat else 5 := by
    split <;> rfl
  have hfits : 7 * (if 10 < sprite then sprite.toNat else 5) < 2 ^ 32 := by
    split <;> omega
  rw [← hside] at hfits ⊢
  refine .bind (gives_times_nat (by rwa [hseven])) ?_
  intro scaled hscaled
  have hdiv : (scaled / 22).toNat = 7 * (if 10 < sprite then sprite else 5).toNat / 22 := by
    rw [UInt32.toNat_div, hscaled]
    rfl
  refine .ok ?_
  rw [toInt_toInt32 (by omega), hdiv]

theorem gives_speedFor_of_le (h : sprite.toNat ≤ 1000000) :
    Gives (speedFor sprite) fun speed => 0 < speed.toInt ∧ speed.toInt ≤ 2 ^ 22 := by
  refine (gives_speedFor (by omega)).mono ?_
  intro speed hspeed
  rw [hspeed]
  split
  · next hlarge =>
    have hten : 10 < sprite.toNat := UInt32.lt_iff_toNat_lt.1 hlarge
    omega
  · decide

/-- Every speed but the lowest of all is exact in all directions. -/
theorem toInt_mul_step (h : -2 ^ 31 < speed.toInt) (direction : Direction) :
    (speed * direction.step.1).toInt = speed.toInt * direction.step.1.toInt ∧
      (speed * direction.step.2).toInt = speed.toInt * direction.step.2.toInt := by
  have hlt := speed.toInt_lt
  have hneg : (-1 : Int32).toInt = -1 := rfl
  have hexact {step : Int32} (hstep : step = -1 ∨ step = 0 ∨ step = 1) :
      (speed * step).toInt = speed.toInt * step.toInt := by
    rw [Int32.toInt_mul]
    rcases hstep with rfl | rfl | rfl
    · rw [hneg, Int.bmod_eq_of_le] <;> omega
    · rw [Int32.toInt_zero, Int.mul_zero, Int.zero_bmod]
    · rw [Int32.toInt_one, Int.mul_one, Int.bmod_eq_of_le] <;> omega
  cases direction <;> exact ⟨hexact (by decide), hexact (by decide)⟩

/-- The number of a hit, drawn `age` times on its way in a direction. -/
structure Rises (speed : Int32) (hit : Hit) (direction : Direction) (age : Nat)
    (n : DamageNumber) : Prop where
  worldX : n.worldX = hit.x
  worldY : n.worldY = hit.y
  value : n.value = hit.damage
  age_eq : n.age.toNat = age
  velocityX : n.velocityX.toInt = speed.toInt * direction.step.1.toInt
  velocityY : n.velocityY.toInt = speed.toInt * direction.step.2.toInt
  moves : ¬ (n.velocityX = 0 ∧ n.velocityY = 0)
  offsetX : n.offsetX.toInt = 5 * age * n.velocityX.toInt
  offsetY : n.offsetY.toInt = 5 * age * n.velocityY.toInt

theorem rises_ofHit (hspeed : 0 < speed.toInt) (hit : Hit) (direction : Direction) :
    Rises speed hit direction 0 (ofHit hit speed direction) := by
  obtain ⟨hx, hy⟩ := toInt_mul_step (Int.lt_trans (by decide) hspeed) direction
  refine ⟨rfl, rfl, rfl, rfl, hx, hy, ?_, ?_, ?_⟩
  · rintro ⟨hzeroX, hzeroY⟩
    rw [← Int32.toInt_inj, ofHit, hx, Int32.toInt_zero, Int.mul_eq_zero] at hzeroX
    rw [← Int32.toInt_inj, ofHit, hy, Int32.toInt_zero, Int.mul_eq_zero] at hzeroY
    have hstep : ¬ (direction.step.1.toInt = 0 ∧ direction.step.2.toInt = 0) := by
      cases direction <;> decide
    exact hstep ⟨hzeroX.resolve_left (by omega), hzeroY.resolve_left (by omega)⟩
  · exact (Int.zero_mul _).symm
  · exact (Int.zero_mul _).symm

/-- Ten drawings do not lead out of range, in either direction. -/
theorem gives_drift {velocity offset : Int32} (h : velocity.toInt.natAbs ≤ 2 ^ 22) (hage : age < 10)
    (hoffset : offset.toInt = 5 * age * velocity.toInt) :
    Gives (Word.times velocity stride) fun d => Gives (Word.plus offset d) fun offset =>
      offset.toInt = 5 * ((age + 1 : Nat) : Int) * velocity.toInt := by
  have hstride : stride.toInt = 5 := rfl
  have hfar : (5 * age * velocity.toInt).natAbs ≤ 45 * 2 ^ 22 := by
    rw [Int.natAbs_mul]
    exact Nat.mul_le_mul (by omega) h
  have hsum : 5 * ((age + 1 : Nat) : Int) * velocity.toInt =
      5 * age * velocity.toInt + velocity.toInt * 5 := by
    rw [Int.natCast_succ, Int.mul_add, Int.add_mul, Int.mul_one, Int.mul_comm 5 velocity.toInt]
  refine (gives_times ?_ ?_).mono ?_
  · rw [hstride]
    omega
  · rw [hstride]
    omega
  intro d hd
  rw [hstride] at hd
  refine (gives_plus (by omega) (by omega)).mono ?_
  intro offset' hoffset'
  rw [hoffset', hoffset, hd, hsum]

/-- A number that is still to be drawn moves on. -/
theorem Rises.gives_advance (h : Rises speed hit direction age n) (hpos : 0 < speed.toInt)
    (hspeed : speed.toInt ≤ 2 ^ 22) (hage : age < 10) :
    Gives n.advance (Rises speed hit direction (age + 1)) := by
  have hslow {step : Int} (hstep : step.natAbs ≤ 1) : (speed.toInt * step).natAbs ≤ 2 ^ 22 := by
    rw [Int.natAbs_mul]
    exact Nat.le_trans (Nat.mul_le_mul_left _ hstep) (by omega)
  have hvx : n.velocityX.toInt.natAbs ≤ 2 ^ 22 := by
    rw [h.velocityX]
    exact hslow (by cases direction <;> decide)
  have hvy : n.velocityY.toInt.natAbs ≤ 2 ^ 22 := by
    rw [h.velocityY]
    exact hslow (by cases direction <;> decide)
  have hold := h.age_eq
  have hone : (1 : UInt32).toNat = 1 := rfl
  refine .bind (gives_plus_nat (by omega)) ?_
  intro age' hage'
  refine .bind (gives_drift hvx hage h.offsetX) ?_
  intro dx hdx
  refine .bind hdx ?_
  intro offsetX hoffsetX
  refine .bind (gives_drift hvy hage h.offsetY) ?_
  intro dy hdy
  refine .bind hdy ?_
  intro offsetY hoffsetY
  refine .ok ⟨h.worldX, h.worldY, h.value, ?_, h.velocityX, h.velocityY, h.moves, hoffsetX,
    hoffsetY⟩
  rw [hage', hold, hone]

end DamageNumber

namespace DamageNumbers

theorem exists_ofSeed {sprite : UInt32} (h : 7 * sprite.toNat < 2 ^ 32) (seed : UInt32) :
    ∃ d, ofSeed sprite seed = .ok d := by
  obtain ⟨speed, hspeed, -⟩ := DamageNumber.gives_speedFor h
  rw [ofSeed, hspeed]
  exact ⟨_, rfl⟩

/-- What a release takes from the hits in line: each hit that is due, once, and no other. -/
structure Splits (speed : Int32) (seq : UInt64) (hits waiting : List Hit)
    (released : List DamageNumber) (due : List (Hit × Direction)) : Prop where
  released_eq : released = due.map fun d => .ofHit d.1 speed d.2
  perm : (waiting ++ due.map Prod.fst).Perm hits
  due_le : ∀ d ∈ due, d.1.frame ≤ seq
  lt_waiting : ∀ hit ∈ waiting, seq < hit.frame

theorem split_splits (speed : Int32) (seq : UInt64) (hits : List Hit) (random : Random) :
    ∃ due, Splits speed seq hits (split speed seq hits random).1
      (split speed seq hits random).2.1 due := by
  fun_induction split speed seq hits random with
  | case1 => exact ⟨[], rfl, .refl _, nofun, nofun⟩
  | case2 random hit rest hdue direction random' _ waiting released random'' hsplit ih =>
    rw [hsplit] at ih
    obtain ⟨due, rfl, hperm, hle, hlt⟩ := ih
    refine ⟨(hit, direction) :: due, rfl, ?_, ?_, hlt⟩
    · exact List.perm_middle.trans ((hperm.trans (lastFirst_perm rest)).cons hit)
    · exact List.forall_mem_cons.2 ⟨hdue, hle⟩
  | case3 random hit rest hdue waiting released random' hsplit ih =>
    rw [hsplit] at ih
    obtain ⟨due, rfl, hperm, hle, hlt⟩ := ih
    refine ⟨due, rfl, hperm.cons hit, hle, ?_⟩
    exact List.forall_mem_cons.2 ⟨UInt64.not_le.1 hdue, hlt⟩

end DamageNumbers

end TileViewer
