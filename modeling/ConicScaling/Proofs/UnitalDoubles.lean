import ConicScaling.Proofs.Doubles
import ConicScaling.Proofs.Unital

/-!
# One among the doubles

A finite double has the lowest exponent that its format allows, so multiplying it by one, whose
mantissa is a power of two, shifts the mantissa out and back again without a rounding error. Zeros,
infinities and not-a-number keep their kind and sign.
-/
namespace ConicScaling

namespace Double

open Float.Model UnpackedFloat

/-! ## Rounding products with a power of two -/

/-- Shifting zeros out of a mantissa is exact. -/
theorem shiftRight_mul_two_pow (m k : Nat) :
    ExtendedMantissa.ofMantissaAndAccuracy (m * 2 ^ k) .exact >>> k =
      ExtendedMantissa.ofMantissaAndAccuracy m .exact := by
  induction k generalizing m with
  | zero =>
    rw [pow_zero, mul_one]
    rfl
  | succ k ih =>
    have split : m * 2 ^ (k + 1) = m * 2 * 2 ^ k := by ring
    have step (em : ExtendedMantissa) : em >>> (k + 1) = (em >>> k).shiftRightOne := rfl
    rw [step, split, ih]
    simp [ExtendedMantissa.shiftRightOne, ExtendedMantissa.ofMantissaAndAccuracy]

theorem totalExponent_mul_two_pow {m : Nat} (positive : 0 < m) (k : Nat) (e : ℤ) :
    totalExponent (m * 2 ^ k) (e - k) = totalExponent m e := by
  have log : (m * 2 ^ k).log2 = m.log2 + k := by
    rw [Nat.log2_eq_iff (by positivity)]
    have low := Nat.log2_self_le positive.ne'
    have high := Nat.lt_log2_self (n := m)
    constructor
    · rw [pow_add]
      exact Nat.mul_le_mul_right _ low
    · rw [add_right_comm, pow_add]
      exact Nat.mul_lt_mul_of_pos_right high (by positivity)
  simp only [totalExponent, log]
  push_cast
  ring

variable {spec : Format}

/-- Whether the exponent of a finite number is the lowest that its format allows. -/
def Canonical (spec : Format) (m : Nat) (e : ℤ) : Prop :=
  spec.targetExponent (totalExponent m e) = e

section Rounding

variable {m : Nat} {e : ℤ} (positive : 0 < m) (canonical : Canonical spec m e)

include canonical

include positive in
theorem shiftToTargetExponent_mul_two_pow (k : Nat) :
    shiftToTargetExponent spec (m * 2 ^ k) (e - k) .exact =
      (ExtendedMantissa.ofMantissaAndAccuracy m .exact, e) := by
  have amount : (e - (e - k)).toNat = k := by omega
  rw [shiftToTargetExponent, totalExponent_mul_two_pow positive, canonical, shiftToExponent,
    amount, shiftRight_mul_two_pow, Int.sub_add_cancel]

/-- A number times a power of two, with the power taken off its exponent, is rounded to itself. -/
theorem roundWithAccuracy_mul_two_pow (s : Sign) (k : Nat) :
    roundWithAccuracy spec s (m * 2 ^ k) (e - k) .exact = .finite s m e positive := by
  have first := shiftToTargetExponent_mul_two_pow positive canonical k
  have second : shiftToTargetExponent spec m e .exact =
      (ExtendedMantissa.ofMantissaAndAccuracy m .exact, e) := by
    simpa using shiftToTargetExponent_mul_two_pow positive canonical 0
  have rounded : (ExtendedMantissa.ofMantissaAndAccuracy m .exact).roundedMantissa = m := rfl
  simp only [roundWithAccuracy, first, rounded, second]
  exact dif_neg positive.ne'

end Rounding

/-! ## Stored numbers -/

theorem canonical_of_subnormal {m : Nat} (positive : 0 < m)
    (small : m < 2 ^ spec.mantissaBitsWithoutImplicit) : Canonical spec m spec.minExponent := by
  have log : m.log2 < spec.mantissaBitsWithoutImplicit := (Nat.log2_lt positive.ne').2 small
  simp only [Canonical, Format.targetExponent, totalExponent, Format.mantissaBits]
  omega

theorem canonical_of_normal {m : Nat} {e : ℤ}
    (log : m.log2 = spec.mantissaBitsWithoutImplicit) (high : spec.minExponent ≤ e) :
    Canonical spec m e := by
  simp only [Canonical, Format.targetExponent, totalExponent, Format.mantissaBits, log]
  push_cast
  omega

/-- What a format stores has the lowest exponent. -/
theorem canonical_of_unpack {b : BitVec spec.numBits} {s : Sign} {m : Nat} {e : ℤ}
    {positive : 0 < m} (h : unpack spec b = .finite s m e positive) : Canonical spec m e := by
  have bias : (spec.exponentBias : ℤ) + spec.mantissaBitsWithoutImplicit =
      1 - spec.minExponent := by
    have one : 1 ≤ 2 ^ (spec.exponentBits - 1) := Nat.one_le_two_pow
    simp only [Format.exponentBias, Format.minExponent, Format.mantissaBits]
    push_cast [one]
    ring
  simp only [UnpackedFloat.unpack, bias] at h
  split_ifs at h
  · rename_i subnormal _
    have lowest : ((unpackExponent b).toNat : ℤ) - (1 - spec.minExponent) + 1 =
        spec.minExponent := by
      rw [subnormal, BitVec.toNat_zero]
      omega
    obtain ⟨-, rfl, rfl⟩ := (finite.injEq ..).mp h
    rw [lowest]
    exact canonical_of_subnormal positive (BitVec.isLt _)
  · rename_i normal
    obtain ⟨-, rfl, rfl⟩ := (finite.injEq ..).mp h
    have stored : 0 < (unpackExponent b).toNat := by
      rwa [BitVec.toNat_pos, BitVec.pos_iff_ne_zero]
    refine canonical_of_normal ?_ (by omega)
    have leading : (1#1 ++ unpackMantissa b).toNat =
        2 ^ spec.mantissaBitsWithoutImplicit + (unpackMantissa b).toNat := by
      have disjoint := Nat.two_pow_add_eq_or_of_lt (unpackMantissa b).isLt 1
      rw [mul_one] at disjoint
      rw [BitVec.toNat_append, disjoint, BitVec.toNat_one Nat.one_pos, Nat.one_shiftLeft]
    rw [leading, Nat.log2_eq_iff (by positivity), pow_succ]
    have bounded := (unpackMantissa b).isLt
    omega

/-! ## Doubles -/

theorem unpacked_one : unpacked 1 = .finite .positive (2 ^ 52) (-52) (by positivity) := rfl

theorem mul_one_of_canonical {u : UnpackedFloat}
    (canonical : ∀ s m e positive, u = .finite s m e positive → Canonical .binary64 m e) :
    UnpackedFloat.mul .binary64 u (.finite .positive (2 ^ 52) (-52) (by positivity)) = u := by
  have unsigned (s : Sign) : s * .positive = s := by cases s <;> rfl
  cases u with
  | infinity s => exact congrArg UnpackedFloat.infinity (unsigned s)
  | notANumber => rfl
  | zero s => exact congrArg UnpackedFloat.zero (unsigned s)
  | finite s m e positive =>
    rw [UnpackedFloat.mul, unsigned]
    exact roundWithAccuracy_mul_two_pow positive (canonical s m e positive rfl) s 52

theorem mul_one_eq (x : Float) : x * 1 = x := by
  have product : UnpackedFloat.mul .binary64 (unpacked x) (unpacked 1) = unpacked x := by
    rw [unpacked_one]
    exact mul_one_of_canonical fun _ _ _ _ => canonical_of_unpack
  have rounds : unpacked (x * 1) =
      (pack (UnpackedFloat.mul .binary64 (unpacked x) (unpacked 1))).unpack := rfl
  refine eq_of_unpacked_eq ?_
  rw [rounds, product]
  exact unpack_pack_unpack _ (by decide)

end Double

instance : Scalar.Unital Float where
  mul_one := Double.mul_one_eq
  one_div_one := by decide +kernel
  same_one_one := by decide +kernel
  same_one_zero := by decide +kernel
  one_sub_one_le := by decide +kernel

end ConicScaling
