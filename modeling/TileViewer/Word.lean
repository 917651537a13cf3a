/-!
Fixed-width integers read as exact ones. An operation either has its exact result or reports
which operation left the range; the saturating forms stop at the ends of the range instead.
-/
namespace TileViewer

/-- The operation whose exact result is not a value of its type. -/
inductive Overflow
  | add
  | subtract
  | multiply
  | divide
  deriving DecidableEq, Repr

def Overflow.message : Overflow → String
  | .add => "attempt to add with overflow"
  | .subtract => "attempt to subtract with overflow"
  | .multiply => "attempt to multiply with overflow"
  | .divide => "attempt to divide with overflow"

/-- A type of integers between two bounds. `ofInt` is exact inside the bounds. -/
class Word (α : Type) where
  lo : Int
  hi : Int
  toInt : α → Int
  ofInt : Int → α
  lo_le_toInt (a : α) : lo ≤ toInt a
  toInt_le_hi (a : α) : toInt a ≤ hi
  toInt_ofInt {z : Int} (hl : lo ≤ z) (hh : z ≤ hi) : toInt (ofInt z) = z
  toInt_injective {a b : α} (h : toInt a = toInt b) : a = b

instance : Word Int32 where
  lo := -0x80000000
  hi := 0x7FFFFFFF
  toInt := Int32.toInt
  ofInt := Int32.ofInt
  lo_le_toInt := Int32.le_toInt
  toInt_le_hi a := Int.le_sub_one_of_lt a.toInt_lt
  toInt_ofInt hl hh := Int32.toInt_ofInt_of_le hl (by omega)
  toInt_injective := Int32.toInt_inj.1

instance : Word Int64 where
  lo := -0x8000000000000000
  hi := 0x7FFFFFFFFFFFFFFF
  toInt := Int64.toInt
  ofInt := Int64.ofInt
  lo_le_toInt := Int64.le_toInt
  toInt_le_hi a := Int.le_sub_one_of_lt a.toInt_lt
  toInt_ofInt hl hh := Int64.toInt_ofInt_of_le hl (by omega)
  toInt_injective := Int64.toInt_inj.1

instance : Word UInt16 where
  lo := 0
  hi := 0xFFFF
  toInt a := a.toNat
  ofInt := UInt16.ofInt
  lo_le_toInt _ := Int.natCast_nonneg _
  toInt_le_hi a := by have := a.toNat_lt; omega
  toInt_ofInt hl hh := by
    simp only [UInt16.ofInt, UInt16.toNat_ofNat']
    omega
  toInt_injective h := UInt16.toNat_inj.1 (Int.ofNat.inj h)

instance : Word UInt32 where
  lo := 0
  hi := 0xFFFFFFFF
  toInt a := a.toNat
  ofInt := UInt32.ofInt
  lo_le_toInt _ := Int.natCast_nonneg _
  toInt_le_hi a := by have := a.toNat_lt; omega
  toInt_ofInt hl hh := by
    simp only [UInt32.ofInt, UInt32.toNat_ofNat']
    omega
  toInt_injective h := UInt32.toNat_inj.1 (Int.ofNat.inj h)

instance : Word UInt64 where
  lo := 0
  hi := 0xFFFFFFFFFFFFFFFF
  toInt a := a.toNat
  ofInt := UInt64.ofInt
  lo_le_toInt _ := Int.natCast_nonneg _
  toInt_le_hi a := by have := a.toNat_lt; omega
  toInt_ofInt hl hh := by
    simp only [UInt64.ofInt, UInt64.toNat_ofNat']
    omega
  toInt_injective h := UInt64.toNat_inj.1 (Int.ofNat.inj h)

namespace Word

variable {α : Type} [Word α]

/-- The word of value `z`, or the overflow of the operation that gave `z`. -/
@[inline] def fit (op : Overflow) (z : Int) : Except Overflow α :=
  if lo α ≤ z ∧ z ≤ hi α then .ok (ofInt z) else .error op

@[inline] def plus (a b : α) : Except Overflow α := fit .add (toInt a + toInt b)

@[inline] def minus (a b : α) : Except Overflow α := fit .subtract (toInt a - toInt b)

@[inline] def times (a b : α) : Except Overflow α := fit .multiply (toInt a * toInt b)

/-- Division with a remainder that is never negative. Only a lowest value over `-1` has no result,
for a divisor other than zero. -/
@[inline] def quotient (a b : α) : Except Overflow α := fit .divide (toInt a / toInt b)

/-- The word nearest to `z`. -/
@[inline] def clamp (z : Int) : α := ofInt (max (lo α) (min z (hi α)))

@[inline] def plusSat (a b : α) : α := clamp (toInt a + toInt b)

@[inline] def minusSat (a b : α) : α := clamp (toInt a - toInt b)

@[inline] def timesSat (a b : α) : α := clamp (toInt a * toInt b)

theorem fit_eq_ok_iff {op : Overflow} {z : Int} {c : α} : fit op z = .ok c ↔ toInt c = z := by
  constructor
  · intro h
    unfold fit at h
    split at h
    · next hz => cases h; exact toInt_ofInt hz.1 hz.2
    · cases h
  · rintro rfl
    have hc : lo α ≤ toInt c ∧ toInt c ≤ hi α := ⟨lo_le_toInt c, toInt_le_hi c⟩
    rw [fit, if_pos hc, toInt_injective (toInt_ofInt hc.1 hc.2)]

theorem fit_eq_error_iff {op e : Overflow} {z : Int} :
    (fit op z : Except Overflow α) = .error e ↔ ¬ (lo α ≤ z ∧ z ≤ hi α) ∧ e = op := by
  unfold fit
  split <;> simp_all [eq_comm]

theorem lo_le_hi [Inhabited α] : lo α ≤ hi α :=
  Int.le_trans (lo_le_toInt default) (toInt_le_hi default)

theorem toInt_clamp [Inhabited α] (z : Int) :
    toInt (clamp z : α) = max (lo α) (min z (hi α)) := by
  have := lo_le_hi (α := α)
  exact toInt_ofInt (by omega) (by omega)

end Word

end TileViewer
