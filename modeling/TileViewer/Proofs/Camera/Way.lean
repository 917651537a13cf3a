import Mathlib.Algebra.Order.Floor.Ring
import Mathlib.Data.Rat.Floor
import Mathlib.Tactic.Ring
import TileViewer.Camera
import TileViewer.Proofs.Exact

/-!
The way of the camera. A camera with a new target gives the points of one glide and then none. Each
point is the exact part of the way rounded down, so a glide is even, never turns and ends at its
target.
-/
namespace TileViewer

/-- Positions on a line that lead from `a` to `b` in `n` steps, as evenly as whole numbers can. -/
structure Glide (a b : Int) (n : Nat) (p : Nat → Int) : Prop where
  floor : ∀ i ≤ n, p i = ⌊(a + (b - a) * i / n : ℚ)⌋
  start : p 0 = a
  arrival : p n = b
  forth : a ≤ b → ∀ i < n, p i ≤ p (i + 1)
  back : b ≤ a → ∀ i < n, p (i + 1) ≤ p i
  even : ∀ i < n, ∀ j < n, |p (i + 1) - p i - (p (j + 1) - p j)| ≤ 1

namespace Glide

variable {a b : Int} {n : Nat} {p : Nat → Int}

theorem floor_succ (h : ∀ i ≤ n, p i = ⌊(a + (b - a) * i / n : ℚ)⌋) {i : Nat} (hi : i < n) :
    p (i + 1) = ⌊(a + (b - a) * i / n + (b - a) / n : ℚ)⌋ := by
  rw [h (i + 1) hi]
  congr 1
  push_cast
  ring

/-- Each step has the exact length, rounded down or up. -/
theorem step_bounds (h : ∀ i ≤ n, p i = ⌊(a + (b - a) * i / n : ℚ)⌋) {i : Nat} (hi : i < n) :
    ⌊((b - a) / n : ℚ)⌋ ≤ p (i + 1) - p i ∧ p (i + 1) - p i ≤ ⌊((b - a) / n : ℚ)⌋ + 1 := by
  rw [floor_succ h hi, h i (Nat.le_of_lt hi)]
  have hlow := Int.le_floor_add (a + (b - a) * i / n : ℚ) ((b - a) / n)
  have hhigh := Int.le_floor_add_floor (a + (b - a) * i / n : ℚ) ((b - a) / n)
  omega

theorem of_floor (hn : 0 < n) (h : ∀ i ≤ n, p i = ⌊(a + (b - a) * i / n : ℚ)⌋) :
    Glide a b n p := by
  have hn' : (0 : ℚ) < n := Nat.cast_pos.2 hn
  refine ⟨h, ?_, ?_, ?_, ?_, ?_⟩
  · rw [h 0 (Nat.zero_le n), Nat.cast_zero, mul_zero, zero_div, add_zero, Int.floor_intCast]
  · have hend : (a + (b - a) * n / n : ℚ) = b := by
      rw [mul_div_cancel_right₀ _ hn'.ne', add_sub_cancel]
    rw [h n (Nat.le_refl n), hend, Int.floor_intCast]
  · intro hab i hi
    have hstep : (0 : ℚ) ≤ (b - a) / n := div_nonneg (sub_nonneg.2 (Int.cast_le.2 hab)) hn'.le
    rw [floor_succ h hi, h i (Nat.le_of_lt hi)]
    exact Int.floor_le_floor (le_add_of_nonneg_right hstep)
  · intro hba i hi
    have hstep : ((b - a) / n : ℚ) ≤ 0 :=
      div_nonpos_of_nonpos_of_nonneg (sub_nonpos.2 (Int.cast_le.2 hba)) hn'.le
    rw [floor_succ h hi, h i (Nat.le_of_lt hi)]
    exact Int.floor_le_floor (add_le_of_nonpos_right hstep)
  · intro i hi j hj
    have hi' := step_bounds h hi
    have hj' := step_bounds h hj
    rw [abs_le]
    omega

end Glide

namespace Camera

variable {c : Camera} {a target : Point}

/-- A part of a way ends between its ends. -/
theorem part_of_way (d : Int) {i n : Nat} (hn : 0 < n) (hi : i ≤ n) :
    min 0 d ≤ d * i / n ∧ d * i / n ≤ max 0 d := by
  have hn' : (0 : Int) < n := Int.natCast_pos.2 hn
  have hi' : (i : Int) ≤ n := Int.ofNat_le.2 hi
  rw [Int.le_ediv_iff_mul_le hn']
  rcases Int.le_total 0 d with hd | hd
  · have hle : d * i ≤ d * n := Int.mul_le_mul_of_nonneg_left hi' hd
    have hpos : 0 ≤ d * i := Int.mul_nonneg hd (Int.natCast_nonneg i)
    rw [Int.min_eq_left hd, Int.max_eq_right hd, Int.zero_mul]
    exact ⟨hpos, Int.ediv_le_of_le_mul hn' hle⟩
  · have hle : d * n ≤ d * i := Int.mul_le_mul_of_nonpos_left hd hi'
    have hneg : d * i ≤ 0 := Int.mul_nonpos_of_nonpos_of_nonneg hd (Int.natCast_nonneg i)
    rw [Int.min_eq_right hd, Int.max_eq_left hd]
    exact ⟨hle, Int.ediv_le_of_le_mul hn' (by omega)⟩

/-- The part of a way between two coordinates is a coordinate too. -/
theorem toInt_between_eq (a b : Int32) {i n : Nat} (hn : 0 < n) (hi : i ≤ n) :
    (between a b i n).toInt = a.toInt + (b.toInt - a.toInt) * i / n := by
  obtain ⟨hl, hh⟩ := part_of_way (b.toInt - a.toInt) hn hi
  have ha := a.le_toInt
  have hb := b.le_toInt
  have ha' := a.toInt_lt
  have hb' := b.toInt_lt
  exact Int32.toInt_ofInt_of_le (by omega) (by omega)

theorem toInt_between (a b : Int32) {i n : Nat} (hn : 0 < n) (hi : i ≤ n) :
    min a.toInt b.toInt ≤ (between a b i n).toInt ∧
      (between a b i n).toInt ≤ max a.toInt b.toInt := by
  obtain ⟨hl, hh⟩ := part_of_way (b.toInt - a.toInt) hn hi
  rw [toInt_between_eq a b hn hi]
  omega

theorem glide_between (a b : Int32) {n : Nat} (hn : 0 < n) :
    Glide a.toInt b.toInt n fun i => (between a b i n).toInt := by
  refine .of_floor hn fun i hi => ?_
  have hpart : ((b.toInt - a.toInt : ℚ) * i / n) = (((b.toInt - a.toInt) * i : Int) : ℚ) / n := by
    push_cast
    rfl
  rw [toInt_between_eq a b hn hi, hpart, Int.floor_intCast_add, Rat.floor_intCast_div_natCast]

/-- How many steps a glide over a vertical distance has. -/
def stepsOver (distance : Nat) : Nat :=
  maxSteps - min (min distance Window.glideReach.toNat / pixelsPerStep) (maxSteps - minSteps)

theorem stepCount_eq (dy : Int32) : stepCount dy = stepsOver dy.toInt.natAbs := rfl

theorem stepsOver_bounds (distance : Nat) :
    5 ≤ stepsOver distance ∧ stepsOver distance ≤ maxSteps := by
  have hreach : Window.glideReach.toNat = 320 := rfl
  simp only [stepsOver, maxSteps, minSteps, pixelsPerStep, hreach]
  omega

theorem stepCount_bounds (dy : Int32) : 5 ≤ stepCount dy ∧ stepCount dy ≤ maxSteps :=
  stepsOver_bounds dy.toInt.natAbs

theorem antitone_stepsOver : Antitone stepsOver := by
  intro near far hle
  simp only [stepsOver, maxSteps, minSteps, pixelsPerStep]
  omega

/-- The camera after `k` more of its steps were asked for. -/
def after (c : Camera) : Nat → Camera
  | 0 => c
  | k + 1 => (c.after k).next.2

theorem after_eq (c : Camera) (k : Nat) : c.after k = ⟨c.target, c.steps.drop k⟩ := by
  induction k with
  | zero => rfl
  | succ k ih =>
    rw [after, ih, next]
    split
    · next hnone =>
      have hfew : c.steps.length ≤ k := List.drop_eq_nil_iff.1 hnone
      rw [List.drop_eq_nil_of_le (Nat.le_succ_of_le hfew), List.drop_eq_nil_of_le hfew]
    · next p rest hcons =>
      rw [← List.tail_drop]
      exact congrArg (Camera.mk c.target) (congrArg List.tail hcons).symm

theorem next_fst (c : Camera) : c.next.1 = c.steps.head? := by
  obtain ⟨target, _ | ⟨p, rest⟩⟩ := c
  · rfl
  · rfl

/-- The point `i` steps of `n` along the way between two points. -/
def partway (a b : Point) (n i : Nat) : Point := ⟨between a.x b.x i n, between a.y b.y i n⟩

theorem getElem?_path (a b : Point) (n k : Nat) :
    (path a b n)[k]? = if k < n then some (partway a b n (k + 1)) else none := by
  rw [path, List.getElem?_map]
  split
  · next hk => rw [List.getElem?_range hk, Option.map_some, partway]
  · next hk => rw [List.getElem?_eq_none (by simpa using hk), Option.map_none]

theorem retarget_eq (hc : c.target = some a) (hne : target ≠ a)
    (hlo : -2 ^ 31 ≤ target.y.toInt - a.y.toInt) (hhi : target.y.toInt - a.y.toInt < 2 ^ 31) :
    let n := stepsOver (target.y.toInt - a.y.toInt).natAbs
    c.retarget target = .ok (n, ⟨some target, path a target n⟩) := by
  obtain ⟨dy, hminus, hdy⟩ := gives_minus hlo hhi
  rw [← hdy, ← stepCount_eq]
  simp only [retarget, hc, if_neg (Ne.symm hne), hminus]
  rfl

/-- A camera that is given another target drops the steps it had left. It then shows the points of
one glide, of at least five steps and the fewer the larger the vertical distance is, and no point
after that; its target stays the new one throughout. In both directions the points are the exact
parts of the way rounded down: they never turn back, end at the target, and no two steps differ by
more than a pixel. -/
theorem retarget_glides (hc : c.target = some a) (hne : target ≠ a)
    (hlo : -2 ^ 31 ≤ target.y.toInt - a.y.toInt) (hhi : target.y.toInt - a.y.toInt < 2 ^ 31) :
    Antitone stepsOver ∧ ∃ (n : Nat) (c' : Camera) (p : Nat → Point),
      n = stepsOver (target.y.toInt - a.y.toInt).natAbs ∧ 5 ≤ n ∧ n ≤ maxSteps ∧
      c.retarget target = .ok (n, c') ∧
      (∀ k, (c'.after k).next.1 = if k < n then some (p (k + 1)) else none) ∧
      (∀ k, (c'.after k).target = some target ∧ (c'.after k).steps.length = n - k) ∧
      p 0 = a ∧ p n = target ∧
      Glide a.x.toInt target.x.toInt n (fun i => (p i).x.toInt) ∧
      Glide a.y.toInt target.y.toInt n (fun i => (p i).y.toInt) := by
  let n := stepsOver (target.y.toInt - a.y.toInt).natAbs
  obtain ⟨hfew, hmany⟩ := stepsOver_bounds (target.y.toInt - a.y.toInt).natAbs
  have hn : 0 < n := Nat.lt_of_lt_of_le (by decide) hfew
  have hx := glide_between a.x target.x hn
  have hy := glide_between a.y target.y hn
  refine ⟨antitone_stepsOver, n, ⟨some target, path a target n⟩, partway a target n, rfl, hfew,
    hmany, retarget_eq hc hne hlo hhi, ?_, ?_, ?_, ?_, hx, hy⟩
  · intro k
    rw [after_eq, next_fst, List.head?_drop, getElem?_path]
  · intro k
    rw [after_eq, List.length_drop, path, List.length_map, List.length_range]
    exact ⟨rfl, rfl⟩
  · exact congrArg₂ Point.mk (Int32.toInt_inj.1 hx.start) (Int32.toInt_inj.1 hy.start)
  · exact congrArg₂ Point.mk (Int32.toInt_inj.1 hx.arrival) (Int32.toInt_inj.1 hy.arrival)

/-- From the last column to the first, and down as far as a word can tell, with a step of an older
glide left. -/
theorem retarget_glides_across :
    ∃ c' : Camera, retarget ⟨some ⟨2147483647, -7⟩, [⟨3, 4⟩]⟩ ⟨-2147483648, 2147483640⟩ =
        .ok (5, c') ∧
      (c'.after 4).next.1 = some ⟨-2147483648, 2147483640⟩ ∧ (c'.after 5).next.1 = none := by
  have hc : (⟨some ⟨2147483647, -7⟩, [⟨3, 4⟩]⟩ : Camera).target = some ⟨2147483647, -7⟩ := rfl
  have hne : (⟨-2147483648, 2147483640⟩ : Point) ≠ ⟨2147483647, -7⟩ := by decide
  obtain ⟨-, n, c', p, hn, -, -, hok, hnext, -, -, hend, -, -⟩ :=
    retarget_glides hc hne (by decide) (by decide)
  have hfive : n = 5 := hn
  subst hfive
  exact ⟨c', hok, (hnext 4).trans (congrArg some hend), hnext 5⟩

end Camera

end TileViewer
