import Mathlib.Algebra.Group.Int.Defs
import Mathlib.Algebra.Group.Nat.Defs
import TileViewer.Word

/-!
Computations that do not overflow: operations on words whose exact result fits, and words of one
type read as another.
-/
namespace TileViewer

/-- A computation that gives a result has given one at each of its steps. -/
theorem bind_eq_ok {ε α β : Type} {x : Except ε α} {f : α → Except ε β} {b : β}
    (h : x >>= f = .ok b) : ∃ a, x = .ok a ∧ f a = .ok b := by
  cases x with
  | error e => cases h
  | ok a => exact ⟨a, rfl, h⟩

/-- A computation that gives a result, and one with this property. -/
def Gives {α : Type} (x : Except Overflow α) (P : α → Prop) : Prop := ∃ a, x = .ok a ∧ P a

namespace Gives

variable {α β : Type} {x : Except Overflow α} {P Q : α → Prop}

theorem ok {a : α} (h : P a) : Gives (.ok a) P := ⟨a, rfl, h⟩

theorem mono (h : Gives x P) (hPQ : ∀ a, P a → Q a) : Gives x Q := by
  obtain ⟨a, ha, hP⟩ := h
  exact ⟨a, ha, hPQ a hP⟩

theorem bind {f : α → Except Overflow β} {R : β → Prop} (h : Gives x P)
    (hf : ∀ a, P a → Gives (f a) R) : Gives (x >>= f) R := by
  obtain ⟨a, rfl, hP⟩ := h
  exact hf a hP

/-- A loop whose every turn keeps an invariant. -/
theorem foldlM {f : β → α → Except Overflow β} {I : β → Prop} {as : List α} {b : β} (hb : I b)
    (hf : ∀ b, I b → ∀ a ∈ as, Gives (f b a) I) : Gives (as.foldlM f b) I := by
  induction as generalizing b with
  | nil => exact ok hb
  | cons a as ih =>
    rw [List.foldlM_cons]
    refine bind (hf b hb a List.mem_cons_self) ?_
    intro c hc
    exact ih hc fun d hd k hk => hf d hd k (List.mem_cons_of_mem _ hk)

theorem mapM {f : α → Except Overflow β} {R : β → Prop} {as : List α}
    (hf : ∀ a ∈ as, Gives (f a) R) : Gives (as.mapM f) fun bs => ∀ b ∈ bs, R b := by
  induction as with
  | nil => exact ok nofun
  | cons a as ih =>
    rw [List.mapM_cons]
    refine bind (hf a List.mem_cons_self) ?_
    intro b hb
    refine bind (ih fun c hc => hf c (List.mem_cons_of_mem _ hc)) ?_
    intro bs hbs
    exact ok (List.forall_mem_cons.2 ⟨hb, hbs⟩)

end Gives

namespace Word

variable {α : Type} [Word α] {a b : α}

theorem gives_plus (hl : lo α ≤ toInt a + toInt b) (hh : toInt a + toInt b ≤ hi α) :
    Gives (plus a b) fun c => toInt c = toInt a + toInt b :=
  ⟨_, if_pos ⟨hl, hh⟩, toInt_ofInt hl hh⟩

theorem gives_minus (hl : lo α ≤ toInt a - toInt b) (hh : toInt a - toInt b ≤ hi α) :
    Gives (minus a b) fun c => toInt c = toInt a - toInt b :=
  ⟨_, if_pos ⟨hl, hh⟩, toInt_ofInt hl hh⟩

theorem gives_times (hl : lo α ≤ toInt a * toInt b) (hh : toInt a * toInt b ≤ hi α) :
    Gives (times a b) fun c => toInt c = toInt a * toInt b :=
  ⟨_, if_pos ⟨hl, hh⟩, toInt_ofInt hl hh⟩

theorem plus_eq_ok (hl : lo α ≤ toInt a + toInt b) (hh : toInt a + toInt b ≤ hi α) :
    plus a b = .ok (ofInt (toInt a + toInt b)) :=
  if_pos ⟨hl, hh⟩

theorem plusSat_of_plus [Inhabited α] {c : α} (h : plus a b = .ok c) : plusSat a b = c := by
  have hc := fit_eq_ok_iff.1 h
  have hlo := lo_le_toInt c
  have hhi := toInt_le_hi c
  refine toInt_injective ?_
  rw [plusSat, toInt_clamp]
  omega

theorem toInt_timesSat [Inhabited α] (hl : lo α ≤ toInt a * toInt b)
    (hh : toInt a * toInt b ≤ hi α) : toInt (timesSat a b) = toInt a * toInt b := by
  rw [timesSat, toInt_clamp]
  omega

end Word

section

variable {y z : Int32}

theorem gives_plus (hl : -2 ^ 31 ≤ y.toInt + z.toInt) (hh : y.toInt + z.toInt < 2 ^ 31) :
    Gives (Word.plus y z) fun c => c.toInt = y.toInt + z.toInt :=
  Word.gives_plus (α := Int32) hl (Int.le_sub_one_of_lt hh)

theorem gives_minus (hl : -2 ^ 31 ≤ y.toInt - z.toInt) (hh : y.toInt - z.toInt < 2 ^ 31) :
    Gives (Word.minus y z) fun c => c.toInt = y.toInt - z.toInt :=
  Word.gives_minus (α := Int32) hl (Int.le_sub_one_of_lt hh)

theorem gives_times (hl : -2 ^ 31 ≤ y.toInt * z.toInt) (hh : y.toInt * z.toInt < 2 ^ 31) :
    Gives (Word.times y z) fun c => c.toInt = y.toInt * z.toInt :=
  Word.gives_times (α := Int32) hl (Int.le_sub_one_of_lt hh)

end

section

variable {m n : UInt32}

theorem gives_plus_nat (h : m.toNat + n.toNat < 2 ^ 32) :
    Gives (Word.plus m n) fun c => c.toNat = m.toNat + n.toNat := by
  refine (Word.gives_plus (α := UInt32) ?_ ?_).mono fun c hc => ?_ <;>
    simp only [Word.toInt, Word.lo, Word.hi] at * <;> omega

theorem gives_minus_nat (h : n.toNat ≤ m.toNat) :
    Gives (Word.minus m n) fun c => c.toNat = m.toNat - n.toNat := by
  have hm := m.toNat_lt
  refine (Word.gives_minus (α := UInt32) ?_ ?_).mono fun c hc => ?_ <;>
    simp only [Word.toInt, Word.lo, Word.hi] at * <;> omega

theorem gives_times_nat (h : m.toNat * n.toNat < 2 ^ 32) :
    Gives (Word.times m n) fun c => c.toNat = m.toNat * n.toNat := by
  refine (Word.gives_times (α := UInt32) ?_ ?_).mono fun c hc => ?_ <;>
    simp only [Word.toInt, Word.lo, Word.hi, ← Int.natCast_mul] at * <;> omega

end

theorem max_one {n : UInt32} (h : 0 < n.toNat) : max n 1 = n := by
  change (if n ≤ 1 then 1 else n) = n
  split
  · next hle =>
    have : n.toNat ≤ 1 := UInt32.le_iff_toNat_le.1 hle
    exact UInt32.toNat_inj.1 (by rw [UInt32.toNat_one]; omega)
  · rfl

theorem max_one_pos (n : UInt32) : 0 < (max n 1).toNat := by
  change 0 < (if n ≤ 1 then 1 else n).toNat
  split
  · decide
  · next h =>
    rw [UInt32.le_iff_toNat_le, UInt32.toNat_one] at h
    omega

theorem toNat_min (m n : UInt32) : (min m n).toNat = min m.toNat n.toNat := by
  change (if m ≤ n then m else n).toNat = _
  split
  · next h => exact (Nat.min_eq_left (UInt32.le_iff_toNat_le.1 h)).symm
  · next h => exact (Nat.min_eq_right (Nat.le_of_not_le (mt UInt32.le_iff_toNat_le.2 h))).symm

theorem toInt_max (y z : Int32) : (max y z).toInt = max y.toInt z.toInt := by
  change (if y ≤ z then z else y).toInt = _
  split
  · next h => exact (Int.max_eq_right (Int32.le_iff_toInt_le.1 h)).symm
  · next h =>
    rw [Int32.le_iff_toInt_le] at h
    omega

theorem toNat_succ {n m : UInt32} (h : n.toNat < m.toNat) : (n + 1).toNat = n.toNat + 1 := by
  have hm := m.toNat_lt
  rw [UInt32.toNat_add, UInt32.toNat_one, Nat.mod_eq_of_lt (by omega)]

theorem toInt_toInt32 {n : UInt32} (h : n.toNat < 2 ^ 31) : n.toInt32.toInt = n.toNat := by
  have : n.toInt32 = Int32.ofNat n.toNat := by
    rw [← UInt32.toInt32_ofNat', UInt32.ofNat_toNat]
  rw [this, Int32.toInt_ofNat_of_lt h]

theorem plus_toInt32 {z : Int32} {n : UInt32} (hn : n.toNat < 2 ^ 31)
    (h : z.toInt + n.toNat < 2 ^ 31) :
    Word.plus z n.toInt32 = .ok (Int32.ofInt (z.toInt + n.toNat)) := by
  have hz := z.le_toInt
  rw [← toInt_toInt32 hn] at h ⊢
  have := toInt_toInt32 hn
  exact Word.plus_eq_ok (by simp only [Word.toInt, Word.lo]; omega)
    (by simp only [Word.toInt, Word.hi]; omega)

theorem toInt32_times {m n : UInt32} (h : m.toNat * n.toNat < 2 ^ 31) :
    ∃ p : UInt32, Word.times m n = .ok p ∧ p.toInt32 = Int32.ofNat (m.toNat * n.toNat) ∧
      p.toInt32.toInt = (m.toNat * n.toNat : Nat) := by
  have hp : (UInt32.ofNat (m.toNat * n.toNat)).toNat = m.toNat * n.toNat :=
    UInt32.toNat_ofNat_of_lt' (by rw [UInt32.size]; omega)
  refine ⟨UInt32.ofNat (m.toNat * n.toNat), Word.fit_eq_ok_iff.2 ?_, UInt32.toInt32_ofNat', ?_⟩
  · simp only [Word.toInt, hp, Int.natCast_mul]
  · rw [toInt_toInt32 (by rw [hp]; exact h), hp]

theorem toInt_timesSat {z : Int32} {n : UInt32} {m : Nat} (hz : z.toInt = m)
    (hn : n.toNat < 2 ^ 31) (h : m * n.toNat < 2 ^ 31) :
    (Word.timesSat z n.toInt32).toInt = (m * n.toNat : Nat) := by
  have hmul : z.toInt * n.toInt32.toInt = (m * n.toNat : Nat) := by
    rw [hz, toInt_toInt32 hn, Int.natCast_mul]
  have hs := Word.toInt_timesSat (a := z) (b := n.toInt32)
  simp only [Word.toInt, Word.lo, Word.hi, hmul] at hs
  exact hs (by omega) (by omega)

theorem toInt_plusSat (y z : Int32) : (Word.plusSat y z).toInt =
    max (-0x80000000) (min (y.toInt + z.toInt) 0x7FFFFFFF) :=
  Word.toInt_clamp (α := Int32) (y.toInt + z.toInt)

theorem toInt_minusSat (y z : Int32) : (Word.minusSat y z).toInt =
    max (-0x80000000) (min (y.toInt - z.toInt) 0x7FFFFFFF) :=
  Word.toInt_clamp (α := Int32) (y.toInt - z.toInt)

theorem toNat_timesSat {m n : UInt32} (h : m.toNat * n.toNat < 2 ^ 32) :
    (Word.timesSat m n).toNat = m.toNat * n.toNat := by
  have hs := Word.toInt_timesSat (a := m) (b := n)
  simp only [Word.toInt, Word.lo, Word.hi, ← Int.natCast_mul] at hs
  have := hs (by omega) (by omega)
  omega

/-- A product that stops at the end of the range still covers every word below the exact one. -/
theorem le_timesSat {k m n : UInt32} (h : k.toNat ≤ m.toNat * n.toNat) :
    k ≤ Word.timesSat m n := by
  have hclamp := Word.toInt_clamp (α := UInt32) (m.toNat * n.toNat)
  have hk := k.toNat_lt
  have hle : (k.toNat : Int) ≤ (m.toNat * n.toNat : Nat) := Int.ofNat_le.2 h
  rw [Int.natCast_mul] at hle
  simp only [Word.toInt, Word.lo, Word.hi] at hclamp
  rw [UInt32.le_iff_toNat_le]
  change k.toNat ≤ (Word.clamp (α := UInt32) (m.toNat * n.toNat)).toNat
  omega

theorem toNat_ofInt {z : Int} (hl : 0 ≤ z) (hh : z < 2 ^ 32) : (UInt32.ofInt z).toNat = z := by
  exact Word.toInt_ofInt (α := UInt32) hl (by simp only [Word.hi]; omega)

theorem toNat_of_plus {a b c : UInt32} (h : Word.plus a b = .ok c) :
    c.toNat = a.toNat + b.toNat := by
  have := Word.fit_eq_ok_iff.1 h
  simp only [Word.toInt] at this
  omega

theorem toNat_toUInt32 {z : Int32} (h : 0 ≤ z.toInt) : (z.toUInt32.toNat : Int) = z.toInt := by
  rw [Int32.toNat_toUInt32_of_le (Int32.le_iff_toInt_le.2 h)]
  exact Int.toNat_of_nonneg h

end TileViewer
