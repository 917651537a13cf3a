import Mathlib
import TileViewer.Painter.Overlay

/-!
How much of a health bar is full. The share of health is rounded, and so is its product with the
width of the bar, yet the full part is never wider than the bar.
-/
namespace TileViewer

open Float.Model Float.Model.UnpackedFloat

/-! Rounding drops the last bits of a mantissa and adds at most one to what is left. -/

theorem mantissa_shiftRight (em : ExtendedMantissa) (k : Nat) :
    (em >>> k).mantissa = em.mantissa / 2 ^ k := by
  induction k with
  | zero => exact (Nat.div_one _).symm
  | succ k ih =>
    change (em >>> k).mantissa / 2 = _
    rw [ih, Nat.div_div_eq_div_mul, Nat.pow_succ]

theorem roundedMantissa_le (em : ExtendedMantissa) : em.roundedMantissa ≤ em.mantissa + 1 := by
  obtain ⟨m, r, s⟩ := em
  cases r <;> cases s
  · exact Nat.le_succ m
  · exact Nat.le_succ m
  · exact Nat.add_le_add_left (Nat.le_of_lt_succ (Nat.mod_lt m (by decide))) m
  · exact Nat.le_refl _

/-- Rounding never makes the exponent positive, nor lower than the lowest one, for a number of at
most `n`. -/
theorem exists_shift {m k n : Nat} (hn : n ≤ 2 ^ 8) (hm : m ≤ n * 2 ^ k) :
    ∃ j t, k = t + j ∧ t ≤ 1074 ∧ shiftToTargetExponent Format.binary64 m (-k) .exact =
      (ExtendedMantissa.mk m false false >>> j, -(t : Int)) := by
  have hlog : m.log2 ≤ 8 + k := by
    by_cases hzero : m = 0
    · rw [hzero]
      exact Nat.zero_le _
    · have hpow : m < 2 ^ (8 + k + 1) := by
        calc
          m ≤ 2 ^ 8 * 2 ^ k := Nat.le_trans hm (Nat.mul_le_mul_right _ hn)
          _ = 2 ^ (8 + k) := (Nat.pow_add 2 8 k).symm
          _ < 2 ^ (8 + k + 1) := Nat.pow_lt_pow_right (by decide) (Nat.lt_succ_self _)
      exact Nat.le_of_lt_succ ((Nat.log2_lt hzero).2 hpow)
  let target := Format.binary64.targetExponent (totalExponent m (-k))
  have htarget : target = max ((m.log2 : Int) + 1 + -k - 53) (-1074) := rfl
  refine ⟨(target - -k).toNat, k - (target - -k).toNat, by omega, by omega, ?_⟩
  change ((_, _) : ExtendedMantissa × Int) = (_, _)
  refine Prod.ext rfl ?_
  change (-k : Int) + (target - -k).toNat = -(k - (target - -k).toNat : Nat)
  omega

theorem toNat_one_append (m : BitVec 52) : (1#1 ++ m).toNat = 2 ^ 52 + m.toNat := by
  rw [BitVec.toNat_append, ← Nat.shiftLeft_add_eq_or_of_lt m.isLt]
  rfl

/-- A number of at most `n`, with an exponent that has room for its fraction, or none at all. -/
inductive AtMost (n : Nat) : UnpackedFloat → Prop
  | notANumber : AtMost n .notANumber
  | infinity : AtMost n (.infinity .negative)
  | zero {s : Sign} : AtMost n (.zero s)
  | negative {m : Nat} {e : Int} {h : 0 < m} : AtMost n (.finite .negative m e h)
  | positive {m k : Nat} {e : Int} {h : 0 < m} (he : e = -k) (hk : k ≤ 1074) (hm : m / 2 ^ k ≤ n) :
    AtMost n (.finite .positive m e h)

namespace AtMost

variable {n : Nat} {u : UnpackedFloat}

/-- A number below `n` is rounded to one of at most `n`. -/
theorem round {p k : Nat} (hn : n ≤ 2 ^ 8) (hp : p < n * 2 ^ k) :
    AtMost n (roundWithAccuracy Format.binary64 .positive p (-k) .exact) := by
  obtain ⟨j, t, rfl, ht, hfirst⟩ := exists_shift hn (Nat.le_of_lt hp)
  let em := ExtendedMantissa.mk p false false >>> j
  have hmantissa : em.mantissa = p / 2 ^ j := mantissa_shiftRight _ j
  have hrounded : em.roundedMantissa ≤ n * 2 ^ t := by
    have hlt : p / 2 ^ j < n * 2 ^ t := by
      rw [Nat.div_lt_iff_lt_mul (Nat.two_pow_pos j), Nat.mul_assoc, ← Nat.pow_add]
      exact hp
    have hle := roundedMantissa_le em
    omega
  obtain ⟨i, u, rfl, hu, hsecond⟩ := exists_shift hn hrounded
  have hfinal : (ExtendedMantissa.mk em.roundedMantissa false false >>> i).mantissa =
      em.roundedMantissa / 2 ^ i := mantissa_shiftRight _ i
  rw [roundWithAccuracy, hfirst]
  dsimp only
  rw [hsecond]
  dsimp only
  split
  · exact .zero
  · refine .positive rfl hu ?_
    rw [hfinal, Nat.div_div_eq_div_mul, ← Nat.pow_add, Nat.add_comm i u]
    exact Nat.div_le_of_le_mul (Nat.mul_comm _ _ ▸ hrounded)

theorem round_negative (p : Nat) (e : Int) :
    AtMost n (roundWithAccuracy Format.binary64 .negative p e .exact) := by
  unfold roundWithAccuracy
  dsimp only
  split
  · exact .zero
  · exact .negative

theorem unpack_negative (e : BitVec 11) (m : BitVec 52) :
    AtMost n (UnpackedFloat.unpack Format.binary64
      (packComponents Format.binary64 .negative e m)) := by
  unfold UnpackedFloat.unpack
  simp only [unpackSign_packComponents, Sign.ofBitVec_toBitVec]
  split
  · split
    · exact .infinity
    · exact .notANumber
  · split
    · split
      · exact .zero
      · exact .negative
    · exact .negative

/-- A mantissa with a leading bit comes back from the packed form as it was. -/
theorem unpack_normal {m k : Nat} (hk : k ≤ 1074) (hpos : m ≠ 0) (hlog : m.log2 = 52)
    (hm : m / 2 ^ k ≤ n) :
    AtMost n (UnpackedFloat.unpack Format.binary64 (packComponents Format.binary64 .positive
      (BitVec.ofNat 11 (1075 - k)) (BitVec.ofNat 52 m))) := by
  have hexponent : (BitVec.ofNat 11 (1075 - k)).toNat = 1075 - k := by
    rw [BitVec.toNat_ofNat, Nat.mod_eq_of_lt (by omega)]
  have hfull : BitVec.ofNat 11 (1075 - k) ≠ -1#11 := by
    intro h
    have hval := congrArg BitVec.toNat h
    rw [hexponent, show (-1#11).toNat = 2047 from rfl] at hval
    omega
  have hempty : BitVec.ofNat 11 (1075 - k) ≠ 0#11 := by
    intro h
    have hval := congrArg BitVec.toNat h
    rw [hexponent, show (0#11).toNat = 0 from rfl] at hval
    omega
  have hmantissa : (1#1 ++ BitVec.ofNat 52 m).toNat = m := by
    have hlow : 2 ^ 52 ≤ m := hlog ▸ Nat.log2_self_le hpos
    have hhigh : m < 2 ^ 53 := (Nat.log2_lt hpos).1 (by omega)
    rw [toNat_one_append, BitVec.toNat_ofNat]
    omega
  unfold UnpackedFloat.unpack
  simp only [unpackSign_packComponents, Sign.ofBitVec_toBitVec, unpackExponent_packComponents,
    unpackMantissa_packComponents, if_neg hfull, if_neg hempty]
  refine .positive ?_ hk (by rw [hmantissa]; exact hm)
  rw [hexponent, show Format.binary64.exponentBias = 1023 from rfl]
  omega

theorem unpack_subnormal (m : BitVec 52) :
    AtMost n (UnpackedFloat.unpack Format.binary64
      (packComponents Format.binary64 .positive 0#11 m)) := by
  have hfull : 0#11 ≠ -1#11 := by decide
  unfold UnpackedFloat.unpack
  simp only [unpackSign_packComponents, Sign.ofBitVec_toBitVec, unpackExponent_packComponents,
    unpackMantissa_packComponents, if_neg hfull, if_true]
  split
  · exact .zero
  · have hzero {k : Nat} (hk : 52 ≤ k) : m.toNat / 2 ^ k = 0 :=
      Nat.div_eq_of_lt (Nat.lt_of_lt_of_le m.isLt (Nat.pow_le_pow_right (by decide) hk))
    have hle : m.toNat / 2 ^ 1074 ≤ n := Nat.le_trans (Nat.le_of_eq (hzero (by decide)))
      (Nat.zero_le n)
    exact .positive rfl (Nat.le_refl _) hle

/-- Packing keeps a number at most `n`. -/
theorem unpack_pack (h : AtMost n u) :
    AtMost n (UnpackedFloat.unpack Format.binary64 (UnpackedFloat.pack Format.binary64 u)) := by
  cases h with
  | notANumber => exact .notANumber
  | infinity => exact .infinity
  | @zero s => cases s <;> exact .zero
  | @negative m e h =>
    unfold UnpackedFloat.pack packedInfinity
    dsimp only
    split
    · exact unpack_negative _ _
    · split <;> exact unpack_negative _ _
  | @positive m k e h he hk hm =>
    have hbiased : (e + Format.binary64.exponentBias +
        Format.binary64.mantissaBitsWithoutImplicit).toNat = 1075 - k := by
      rw [he]
      change (-(k : Int) + 1023 + 52).toNat = 1075 - k
      omega
    unfold UnpackedFloat.pack
    simp only [hbiased]
    rw [if_neg (show ¬ 2 ^ 11 ≤ 1075 - k + 1 by omega)]
    split
    · next hbits =>
      have hlog : m.log2 + 1 = 53 := hbits
      exact unpack_normal hk (Nat.ne_of_gt h) (by omega) hm
    · exact unpack_subnormal _

/-- The whole part of a number of at most `n`. -/
theorem toUInt32_le (h : AtMost n u) (hn : n < 2 ^ 32) : u.toUInt32.toNat ≤ n := by
  have hwhole : (u.toInt 0 (UInt32.size - 1)).toNat ≤ n := by
    cases h with
    | notANumber => exact Nat.zero_le n
    | infinity => exact Nat.zero_le n
    | zero => exact Nat.zero_le n
    | @negative m e _ =>
      have hzero (a : Nat) : (-(a : Int)).toNat ≤ n := by omega
      exact hzero (shiftToExponent (decreaseExponent m e 0).1 (decreaseExponent m e 0).2 .exact
        0).1.mantissa
    | @positive m k e _ he hk hm =>
      have hleft : (e - 0).toNat = 0 := by omega
      have hright : (0 - (e - (e - 0).toNat)).toNat = k := by omega
      change ((ExtendedMantissa.mk (m <<< (e - 0).toNat) false false >>>
        (0 - (e - (e - 0).toNat)).toNat).mantissa : Int).toNat ≤ n
      rw [Int.toNat_natCast, mantissa_shiftRight, hright, hleft]
      exact hm
  have hlt : (u.toInt 0 (UInt32.size - 1)).toNat < UInt32.size := Nat.lt_of_le_of_lt hwhole hn
  rw [UnpackedFloat.toUInt32, UInt32.ofNatClamp_eq_ofNat _ hlt, UInt32.toNat_ofNat_of_lt' hlt]
  exact hwhole

end AtMost

/-- A positive number that is exactly `n`. -/
def exactly (n : Nat) : UnpackedFloat → Bool
  | .finite .positive m e _ => e ≤ 0 ∧ m = n * 2 ^ (-e).toNat
  | _ => false

/-- The widths of bars are exact. -/
theorem exactly_toFloat : ∀ n : Fin 256,
    exactly (n + 1) (UInt32.ofNat (n + 1)).toFloat.toModel.unpack = true := by
  decide +kernel

theorem unpack_one : ∃ h, (1.0 : Float).toModel.unpack = .finite .positive (2 ^ 52) (-52) h :=
  ⟨by decide, rfl⟩

theorem mantissa_lt {b : BitVec 64} {s : Sign} {m : Nat} {e : Int} {h : 0 < m}
    (hb : UnpackedFloat.unpack Format.binary64 b = .finite s m e h) : m < 2 ^ 53 := by
  unfold UnpackedFloat.unpack at hb
  dsimp only at hb
  split at hb
  · split at hb <;> cases hb
  · split at hb
    · split at hb
      · cases hb
      · cases hb
        exact Nat.lt_trans (BitVec.isLt _) (by decide)
    · cases hb
      exact BitVec.isLt _

/-- A positive number below one. -/
theorem mantissa_lt_of_lt_one {m : Nat} {e : Int} {h : 0 < m} {h' : 0 < 2 ^ 52} (hm : m < 2 ^ 53)
    (hlt : UnpackedFloat.lt (.finite .positive m e h)
      (.finite .positive (2 ^ 52) (-52) h') = true) :
    e ≤ 0 ∧ m < 2 ^ (-e).toNat := by
  have horder : (compare e (-52)).then (compare m (2 ^ 52)) = .lt := by
    have hsome := eq_of_beq hlt
    exact Option.some.inj hsome
  rw [Ordering.then_eq_lt, Int.compare_eq_lt, Int.compare_eq_eq, Nat.compare_eq_lt] at horder
  rcases horder with hlow | ⟨rfl, hsmall⟩
  · refine ⟨by omega, Nat.lt_of_lt_of_le hm (Nat.pow_le_pow_right (by decide) (by omega))⟩
  · exact ⟨by decide, hsmall⟩

/-- A number below one, times `n`, is at most `n`. -/
theorem atMost_mul {n : Nat} {x : Float} {a : UnpackedFloat} (hn : n ≤ 2 ^ 8)
    (ha : exactly n a = true) (hx : x < 1.0) :
    AtMost n (a.mul Format.binary64 x.toModel.unpack) := by
  obtain ⟨hone, hunpack⟩ := unpack_one
  have hlt : x.toModel.unpack.lt (1.0 : Float).toModel.unpack = true := of_decide_eq_true hx
  rw [hunpack] at hlt
  cases a with
  | notANumber => cases ha
  | infinity s => cases ha
  | zero s => cases ha
  | finite s m e hm =>
    cases s with
    | negative => cases ha
    | positive =>
      obtain ⟨he, hexact⟩ : e ≤ 0 ∧ m = n * 2 ^ (-e).toNat := of_decide_eq_true ha
      cases hu : x.toModel.unpack with
      | notANumber => exact .notANumber
      | zero t => exact .zero
      | infinity t =>
        rw [hu] at hlt
        cases t with
        | negative => exact .infinity
        | positive => cases hlt
      | finite t p f hp =>
        cases t with
        | negative => exact .round_negative _ _
        | positive =>
          rw [hu] at hlt
          obtain ⟨hf, hsmall⟩ := mantissa_lt_of_lt_one (mantissa_lt hu) hlt
          have hproduct : m * p < n * 2 ^ ((-e).toNat + (-f).toNat) := by
            rw [hexact, Nat.pow_add, ← Nat.mul_assoc]
            exact Nat.mul_lt_mul_of_pos_left hsmall (hexact ▸ hm)
          have hround := AtMost.round hn hproduct
          have hexponent : e + f = -(((-e).toNat + (-f).toNat : Nat) : Int) := by omega
          rw [← hexponent] at hround
          exact hround

/-- A full bar is as wide as it can be. -/
theorem Overlay.barWidth_full :
    ∀ n : Fin 257, barWidth 1.0 (.ofNat n) ≤ .ofNat n := by
  decide +kernel

/-- The full part of a health bar is not wider than the bar. -/
theorem Overlay.barWidth_le (creature : Creature) {sprite : UInt32} (hpos : 0 < sprite.toNat)
    (hle : sprite.toNat ≤ 256) :
    (barWidth creature.health sprite).toNat ≤ sprite.toNat := by
  have hbelow {x : Float} (hx : x < 1.0) : (barWidth x sprite).toNat ≤ sprite.toNat := by
    have hexact := exactly_toFloat ⟨sprite.toNat - 1, by omega⟩
    have hsprite : sprite.toNat - 1 + 1 = sprite.toNat := Nat.sub_add_cancel hpos
    simp only [hsprite, UInt32.ofNat_toNat] at hexact
    exact ((atMost_mul hle hexact hx).unpack_pack).toUInt32_le (by omega)
  have hfull : barWidth 1.0 sprite ≤ sprite := by
    have hwidth := barWidth_full ⟨sprite.toNat, by omega⟩
    rwa [UInt32.ofNat_toNat] at hwidth
  unfold Creature.health
  dsimp only
  split
  · exact hbelow (by decide +kernel)
  · split
    · next hshare => exact hbelow hshare
    · exact UInt32.le_iff_toNat_le.1 hfull

end TileViewer
