import Mathlib.Algebra.Ring.GeomSum
import Mathlib.NumberTheory.Multiplicity
import Mathlib.Order.Interval.Finset.Nat
import Mathlib.Tactic.LinearCombination
import TileViewer.Random

/-!
The period of the generator. Its state comes back after `2 ^ 32` draws and not before, wherever it
starts; as many draws in a row give every number once and every direction equally often.
-/
namespace TileViewer

/-- Where a direction stands in the row of all of them. -/
def Direction.place (d : Direction) : Nat := Direction.all.toList.idxOf d

theorem Direction.place_lt (d : Direction) : d.place < 8 := by
  cases d <;> decide

theorem Direction.get_eq_iff (d : Direction) (k : Fin 8) :
    Direction.all.get k = d ↔ k.val = d.place := by
  cases d <;> revert k <;> decide

namespace Random

open Finset

variable {r : Random} {m n : Nat}

/-- One use of a generator. -/
inductive Call
  | number
  | below (bound : UInt32)
  | direction

/-- The generator after a call. -/
def call (r : Random) : Call → Random
  | .number => r.next.2
  | .below bound => (r.below bound).2
  | .direction => r.direction.2

def calls (r : Random) (cs : List Call) : Random := cs.foldl call r

/-- The generator after some draws. -/
def after (r : Random) (draws : Nat) : Random := (fun r => r.next.2)^[draws] r

theorem after_add (r : Random) (m n : Nat) : r.after (m + n) = (r.after n).after m :=
  Function.iterate_add_apply _ m n r

theorem after_succ (r : Random) (n : Nat) : r.after (n + 1) = (r.after n).next.2 :=
  Function.iterate_succ_apply' _ n r

theorem next_after (r : Random) (n : Nat) : r.next.2.after n = r.after (n + 1) :=
  (Function.iterate_succ_apply _ n r).symm

theorem call_eq_next (r : Random) (c : Call) : r.call c = r.next.2 := by
  cases c <;> rfl

/-- Every call, of whatever kind, is one draw. -/
theorem calls_eq_after (r : Random) (cs : List Call) : r.calls cs = r.after cs.length := by
  induction cs generalizing r with
  | nil => rfl
  | cons c cs ih =>
    have hfirst : r.calls (c :: cs) = r.next.2.calls cs := by
      rw [← r.call_eq_next c]
      rfl
    rw [hfirst, ih, next_after]
    rfl

theorem eq_of_toNat {a b : Random} (h : a.state.toNat = b.state.toNat) : a = b := by
  cases a
  cases b
  cases UInt32.toNat_inj.1 h
  rfl

/-- What a state is multiplied by: one more than a multiple of four. -/
def multiplier : Nat := 1664525

/-- What is added then: an odd number. -/
def increment : Nat := 1013904223

theorem toNat_next (r : Random) :
    r.next.2.state.toNat = (multiplier * r.state.toNat + increment) % 2 ^ 32 := by
  simp [next, multiplier, increment, Nat.mul_comm]

/-- The first powers of the multiplier, added up. -/
def powers (n : Nat) : Nat := ∑ i ∈ range n, multiplier ^ i

theorem powers_succ (n : Nat) : powers (n + 1) = multiplier * powers n + 1 := geom_sum_succ

/-- What one draw adds to a state before it is cut to 32 bits. -/
def stride (s : Nat) : Nat := (multiplier - 1) * s + increment

theorem draw_eq_add_stride (s : Nat) : multiplier * s + increment = s + stride s := by
  have hone : multiplier = (multiplier - 1) + 1 := rfl
  rw [stride, ← Nat.add_assoc]
  nth_rewrite 1 [hone]
  rw [Nat.add_one_mul, Nat.add_comm s]

theorem toNat_after (r : Random) (n : Nat) :
    (r.after n).state.toNat = (r.state.toNat + powers n * stride r.state.toNat) % 2 ^ 32 := by
  induction n with
  | zero =>
    have hs := r.state.toNat_lt
    simp [after, powers, Nat.mod_eq_of_lt hs]
  | succ n ih =>
    generalize r.state.toNat = s at ih ⊢
    calc (r.after (n + 1)).state.toNat
        = (multiplier * ((s + powers n * stride s) % 2 ^ 32) + increment) % 2 ^ 32 := by
          rw [after_succ, toNat_next, ih]
      _ = (multiplier * (s + powers n * stride s) + increment) % 2 ^ 32 := by
          rw [Nat.add_mod, Nat.mul_mod, Nat.mod_mod, ← Nat.mul_mod, ← Nat.add_mod]
      _ = (s + powers (n + 1) * stride s) % 2 ^ 32 := by
          have hdraw := draw_eq_add_stride s
          congr 1
          rw [powers_succ]
          linear_combination hdraw

/-- A stride is odd. -/
theorem coprime_stride (s : Nat) : Nat.Coprime (2 ^ 32) (stride s) := by
  have heven : Even (multiplier - 1) := by decide
  have hodd : Odd increment := by decide
  apply Nat.Coprime.pow_left
  rw [Nat.coprime_two_left]
  exact (heven.mul_right s).add_odd hodd

/-- The powers, added up, are divided by two exactly as often as their number. -/
theorem two_pow_dvd_powers_iff {k : Nat} : 2 ^ k ∣ powers n ↔ 2 ^ k ∣ n := by
  have hsum : (powers n : ℤ) * (multiplier - 1) = (multiplier : ℤ) ^ n - 1 ^ n := by
    rw [one_pow, powers]
    push_cast
    exact geom_sum_mul _ n
  -- Both sides of `hsum` hold the factors two of `multiplier - 1`, which cancel.
  have hlift := Int.two_pow_sub_pow' (x := multiplier) (y := 1) n (by decide) (by decide)
  rw [← hsum, emultiplicity_mul Int.prime_two, add_comm] at hlift
  have hfinite : emultiplicity (2 : ℤ) (multiplier - 1) ≠ ⊤ := by
    rw [ne_eq, emultiplicity_eq_top, not_not]
    exact Int.finiteMultiplicity_iff.2 ⟨by decide, by decide⟩
  have hequal : emultiplicity 2 (powers n) = emultiplicity 2 n := by
    have hcancel := ENat.add_right_injective_of_ne_top hfinite hlift
    exact_mod_cast hcancel
  rw [pow_dvd_iff_le_emultiplicity, pow_dvd_iff_le_emultiplicity, hequal]

theorem after_eq_self_iff : r.after n = r ↔ 2 ^ 32 ∣ n := by
  have hs := r.state.toNat_lt
  have hstate : r.after n = r ↔
      (r.state.toNat + powers n * stride r.state.toNat) % 2 ^ 32 = r.state.toNat := by
    rw [← toNat_after]
    exact ⟨fun h => by rw [h], eq_of_toNat⟩
  rw [hstate, ← two_pow_dvd_powers_iff, ← (coprime_stride r.state.toNat).dvd_mul_right]
  omega

/-- Within one period no state comes twice. -/
theorem after_inj (hm : m < 2 ^ 32) (hn : n < 2 ^ 32) (h : r.after m = r.after n) : m = n := by
  wlog hmn : m ≤ n generalizing m n
  · exact (this hn hm h.symm (by omega)).symm
  have hback : (r.after m).after (n - m) = r.after m := by
    rw [← after_add, Nat.sub_add_cancel hmn, h]
  have hdvd := after_eq_self_iff.1 hback
  omega

/-- The number that is drawn after `n` draws. -/
def drawn (r : Random) (n : Nat) : Nat := (r.after n).next.1.toNat

theorem drawn_injOn (r : Random) : Set.InjOn r.drawn (range (2 ^ 32)) := by
  intro m hm n hn h
  have hstate (k : Nat) : r.drawn k = (r.next.2.after k).state.toNat := by
    rw [next_after, after_succ]
    rfl
  rw [hstate, hstate] at h
  exact after_inj (mem_range.1 hm) (mem_range.1 hn) (eq_of_toNat h)

theorem drawn_surjOn (r : Random) : Set.SurjOn r.drawn (range (2 ^ 32)) (range (2 ^ 32)) := by
  refine surjOn_of_injOn_of_card_le _ ?_ r.drawn_injOn le_rfl
  intro n _
  exact mem_coe.2 (mem_range.2 (UInt32.toNat_lt _))

theorem existsUnique_next (r : Random) (v : UInt32) :
    ∃! i, i < 2 ^ 32 ∧ (r.after i).next = (v, ⟨v⟩) := by
  have hnext (i : Nat) : (r.after i).next = (v, ⟨v⟩) ↔ r.drawn i = v.toNat := by
    constructor
    · intro h
      rw [drawn, h]
    · intro h
      rw [← UInt32.toNat_inj.1 h]
      rfl
  simp only [hnext]
  obtain ⟨i, hi, hv⟩ := r.drawn_surjOn (mem_coe.2 (mem_range.2 v.toNat_lt))
  refine ⟨i, ⟨mem_range.1 hi, hv⟩, ?_⟩
  rintro j ⟨hj, hv'⟩
  exact r.drawn_injOn (mem_coe.2 (mem_range.2 hj)) hi (hv'.trans hv.symm)

/-- The directions share the numbers evenly, in their order. -/
theorem direction_eq_iff (r : Random) (d : Direction) :
    r.direction.1 = d ↔ r.next.1.toNat / 2 ^ 29 = d.place := by
  have hplace : r.direction.1 = d ↔ (scale r.next.1 8).toNat = d.place := d.get_eq_iff _
  have hscale : (scale r.next.1 8).toNat = r.next.1.toNat * 8 / 2 ^ 32 := toNat_scale r.next.1 8
  rw [hplace, hscale]
  omega

theorem card_direction (r : Random) (d : Direction) :
    #{i ∈ range (2 ^ 32) | (r.after i).direction.1 = d} = 2 ^ 29 := by
  have hd := d.place_lt
  have hmem (i : Nat) : (r.after i).direction.1 = d ↔
      d.place * 2 ^ 29 ≤ r.drawn i ∧ r.drawn i < (d.place + 1) * 2 ^ 29 := by
    rw [direction_eq_iff, drawn]
    omega
  have hcard : #(Ico (d.place * 2 ^ 29) ((d.place + 1) * 2 ^ 29)) = 2 ^ 29 := by
    rw [Nat.card_Ico]
    omega
  rw [← hcard]
  apply card_nbij r.drawn
  · intro i hi
    exact mem_Ico.2 ((hmem i).1 (mem_filter.1 hi).2)
  · exact r.drawn_injOn.mono (coe_subset.2 (filter_subset _ _))
  · intro v hv
    obtain ⟨hlo, hhi⟩ := mem_Ico.1 (mem_coe.1 hv)
    obtain ⟨i, hi, rfl⟩ := r.drawn_surjOn (mem_coe.2 (mem_range.2 (by omega : v < 2 ^ 32)))
    exact ⟨i, mem_coe.2 (mem_filter.2 ⟨hi, (hmem i).2 ⟨hlo, hhi⟩⟩), rfl⟩

/-- Whatever the seed and whatever has been drawn before, `2 ^ 32` numbers in a row are all the
numbers, each once and each the state that follows, and `2 ^ 32` directions in a row are the eight
directions, each equally often. From any state a number below a bound is below it, and the one that
chooses a direction has a place in the row of them. -/
theorem draws_equidistributed (seed : UInt32) (before : List Call) :
    (∀ v : UInt32, ∃! i, i < 2 ^ 32 ∧
      (((ofSeed seed).calls before).calls (.replicate i .number)).next = (v, ⟨v⟩)) ∧
    (∀ d : Direction, #{i ∈ range (2 ^ 32) |
      (((ofSeed seed).calls before).calls (.replicate i .direction)).direction.1 = d} = 2 ^ 29) ∧
    (∀ (r : Random) (bound : UInt32), 0 < bound → (r.below bound).1 < bound) ∧
    ∀ r : Random, Direction.all[(r.below 8).1.toNat]? = some r.direction.1 := by
  simp only [calls_eq_after _ (List.replicate _ _), List.length_replicate]
  refine ⟨existsUnique_next _, card_direction _, ?_, ?_⟩
  · intro r bound hbound
    exact UInt32.lt_iff_toNat_lt.2 (scale_lt (UInt32.lt_iff_toNat_lt.1 hbound))
  · intro r
    have hplace : (r.below 8).1.toNat < 8 := scale_lt (by decide)
    rw [Vector.getElem?_eq_getElem hplace]
    rfl

/-- A seed of zero, after directions and numbers have been drawn, and the greatest bound. -/
theorem draws_equidistributed_zero :
    (∃! i, i < 2 ^ 32 ∧ (((ofSeed 0).calls [.direction, .below 5]).calls
      (.replicate i .number)).next = (0, ⟨0⟩)) ∧
    ((⟨0⟩ : Random).below 0xFFFFFFFF).1 < 0xFFFFFFFF := by
  obtain ⟨hall, -, hbelow, -⟩ := draws_equidistributed 0 [.direction, .below 5]
  exact ⟨hall 0, hbelow ⟨0⟩ 0xFFFFFFFF (by decide)⟩

end Random

end TileViewer
