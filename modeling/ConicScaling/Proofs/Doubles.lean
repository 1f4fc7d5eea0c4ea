import ConicScaling.Proofs.Exact
import ConicScaling.Scalar.Double

/-!
# The order of doubles

Doubles compare by sign, exponent and mantissa. Both zeros are equal, infinities are beyond all
finite numbers, and not-a-number compares with nothing. So apart from not-a-number the order is
linear up to the sign of zero, and magnitudes are what one expects.
-/
namespace ConicScaling

/-- What the comparisons and magnitudes of doubles obey, and those of real numbers as well. What is
not at most itself is not-a-number. -/
class Scalar.Ordered (α : Type) [Scalar α] : Prop where
  trans {x y z : α} : x ≤ y → y ≤ z → x ≤ z
  left {x y : α} : x ≤ y → x ≤ x
  right {x y : α} : x ≤ y → y ≤ y
  total {x y : α} : x ≤ x → y ≤ y → x ≤ y ∨ y ≤ x
  lt_iff {x y : α} : x < y ↔ x ≤ y ∧ ¬ y ≤ x
  zero_le_zero : (0 : α) ≤ 0
  intCast_zero : ((0 : Int) : α) = 0
  abs_zero : Scalar.abs (0 : α) = 0
  zero_le_abs {x : α} : x ≤ x → 0 ≤ Scalar.abs x
  of_abs {x : α} : Scalar.abs x ≤ Scalar.abs x → x ≤ x

instance : Scalar.Ordered ℝ where
  trans := le_trans
  left _ := le_rfl
  right _ := le_rfl
  total _ _ := le_total _ _
  lt_iff := lt_iff_le_not_ge
  zero_le_zero := le_rfl
  intCast_zero := Int.cast_zero
  abs_zero := abs_zero (α := ℝ)
  zero_le_abs _ := abs_nonneg (_ : ℝ)
  of_abs _ := le_rfl

namespace Scalar.Ordered

variable {α : Type} [Scalar α] [Ordered α] {x y z : α}

theorem le_of_lt (h : x < y) : x ≤ y := (lt_iff.1 h).1

theorem not_le_of_lt (h : x < y) : ¬ y ≤ x := (lt_iff.1 h).2

theorem lt_of_lt_of_le (xy : x < y) (yz : y ≤ z) : x < z :=
  lt_iff.2 ⟨trans (le_of_lt xy) yz, fun zx => not_le_of_lt xy (trans yz zx)⟩

/-- Of two numbers one is below the other or at least equal to it. -/
theorem le_of_not_lt (hx : x ≤ x) (hy : y ≤ y) (h : ¬ x < y) : y ≤ x := by
  rcases total hx hy with below | above
  · by_contra notAbove
    exact h (lt_iff.2 ⟨below, notAbove⟩)
  · exact above

end Scalar.Ordered

namespace Double

open Float.Model UnpackedFloat

/-- The place of a number in the order of numbers: its sign with infinities apart, then the exponent
and then the mantissa, both negated for negative numbers. -/
def rank : UnpackedFloat → ℤ ×ₗ ℤ ×ₗ ℤ
  | .infinity .negative => toLex (-2, toLex (0, 0))
  | .finite .negative mantissa exponent _ => toLex (-1, toLex (-exponent, -mantissa))
  | .zero _ | .notANumber => toLex (0, toLex (0, 0))
  | .finite .positive mantissa exponent _ => toLex (1, toLex (exponent, mantissa))
  | .infinity .positive => toLex (2, toLex (0, 0))

/-! ## Comparisons -/

theorem isLE_compare_then (a b : ℤ) (m n : ℕ) :
    ((compare a b).then (compare m n)).isLE = true ↔ a < b ∨ a = b ∧ m ≤ n := by
  rcases lt_trichotomy a b with below | rfl | above
  · simp [compare_lt_iff_lt.2 below, below]
  · simp [Nat.isLE_compare]
  · simp [compare_gt_iff_gt.2 above, above.le, above.ne']

theorem compare_then_eq_lt (a b : ℤ) (m n : ℕ) :
    (compare a b).then (compare m n) = .lt ↔ a < b ∨ a = b ∧ m < n := by
  rcases lt_trichotomy a b with below | rfl | above
  · simp [compare_lt_iff_lt.2 below, below]
  · simp [compare_lt_iff_lt]
  · simp [compare_gt_iff_gt.2 above, above.le, above.ne']

theorem swap_compare_then (a b : ℤ) (m n : ℕ) :
    ((compare a b).then (compare m n)).swap = (compare b a).then (compare n m) := by
  rw [Ordering.swap_then, ← Int.compare_swap, ← Nat.compare_swap, Ordering.swap_swap,
    Ordering.swap_swap]

theorem compare_sign (s t : Sign) : compare s t = match s, t with
    | .negative, .positive => .lt
    | .positive, .negative => .gt
    | _, _ => .eq := by
  cases s <;> cases t <;> rfl

section Numbers

variable {u v : UnpackedFloat} (left : u ≠ .notANumber) (right : v ≠ .notANumber)

include left right

theorem le_iff_rank_le : u.le v = true ↔ rank u ≤ rank v := by
  rcases u with ⟨_ | _⟩ | _ | _ | ⟨_ | _⟩ <;> rcases v with ⟨_ | _⟩ | _ | _ | ⟨_ | _⟩ <;>
    simp [UnpackedFloat.le, UnpackedFloat.compare, rank, Prod.Lex.toLex_le_toLex, compare_sign,
      isLE_compare_then, swap_compare_then, -Ordering.isLE_swap] at left right ⊢
  -- two negative numbers
  omega

theorem lt_iff_rank_lt : u.lt v = true ↔ rank u < rank v := by
  rcases u with ⟨_ | _⟩ | _ | _ | ⟨_ | _⟩ <;> rcases v with ⟨_ | _⟩ | _ | _ | ⟨_ | _⟩ <;>
    simp [UnpackedFloat.lt, UnpackedFloat.compare, rank, Prod.Lex.toLex_lt_toLex, compare_sign,
      compare_then_eq_lt, swap_compare_then, -Ordering.swap_eq_lt] at left right ⊢
  omega

end Numbers

theorem ne_notANumber_of_le {u v : UnpackedFloat} (h : u.le v = true) :
    u ≠ .notANumber ∧ v ≠ .notANumber := by
  constructor
  · rintro rfl
    cases h
  · rintro rfl
    cases u <;> cases h

theorem ne_notANumber_of_lt {u v : UnpackedFloat} (h : u.lt v = true) :
    u ≠ .notANumber ∧ v ≠ .notANumber := by
  constructor
  · rintro rfl
    cases h
  · rintro rfl
    cases u <;> cases h

/-! ## Magnitudes -/

variable {spec : Format}

/-- Clearing the sign bit. -/
theorem abs_unpack (b : BitVec spec.numBits) : (unpack spec b).abs =
    unpack spec (packComponents spec .positive (unpackExponent b) (unpackMantissa b)) := by
  simp only [UnpackedFloat.unpack, unpackExponent_packComponents, unpackMantissa_packComponents,
    unpackSign_packComponents]
  split_ifs <;> rfl

theorem unpack_pack_unpack (b : BitVec spec.numBits) (wide : 2 ≤ spec.exponentBits) :
    unpack spec (pack spec (unpack spec b)) = unpack spec b := by
  rw [pack_unpack b wide]
  split
  · rename_i invalid
    simp only [isNaNBits, decide_eq_true_eq] at invalid
    rw [unpack_packedNaN]
    simp [UnpackedFloat.unpack, invalid]
  · rfl

/-- Magnitudes of doubles are doubles. -/
theorem unpack_pack_abs (b : BitVec spec.numBits) (wide : 2 ≤ spec.exponentBits) :
    unpack spec (pack spec (unpack spec b).abs) = (unpack spec b).abs := by
  rw [abs_unpack, unpack_pack_unpack _ wide]

theorem abs_eq_notANumber {u : UnpackedFloat} : u.abs = .notANumber ↔ u = .notANumber := by
  cases u <;> simp [UnpackedFloat.abs]

theorem zero_le_rank_abs (u : UnpackedFloat) : rank (.zero .positive) ≤ rank u.abs := by
  cases u <;> simp [UnpackedFloat.abs, rank, Prod.Lex.toLex_le_toLex]

/-! ## Doubles as scalars -/

/-- Sign, mantissa and exponent of a double. -/
def unpacked (x : Float) : UnpackedFloat := x.toModel.unpack

theorem eq_of_unpacked_eq {x y : Float} (h : unpacked x = unpacked y) : x = y :=
  Float.toBits_inj.1 (UInt64.toBitVec_inj.1
    ((unpack_inj_of_valid x.toModel.valid y.toModel.valid).1 h))

theorem le_iff {x y : Float} : x ≤ y ↔ (unpacked x).le (unpacked y) = true :=
  decide_eq_true_iff

theorem lt_iff {x y : Float} : x < y ↔ (unpacked x).lt (unpacked y) = true :=
  decide_eq_true_iff

theorem le_iff_rank {x y : Float} : x ≤ y ↔ unpacked x ≠ .notANumber ∧ unpacked y ≠ .notANumber ∧
    rank (unpacked x) ≤ rank (unpacked y) := by
  rw [le_iff]
  constructor
  · intro h
    obtain ⟨left, right⟩ := ne_notANumber_of_le h
    exact ⟨left, right, (le_iff_rank_le left right).1 h⟩
  · rintro ⟨left, right, below⟩
    exact (le_iff_rank_le left right).2 below

theorem lt_iff_rank {x y : Float} : x < y ↔ unpacked x ≠ .notANumber ∧ unpacked y ≠ .notANumber ∧
    rank (unpacked x) < rank (unpacked y) := by
  rw [lt_iff]
  constructor
  · intro h
    obtain ⟨left, right⟩ := ne_notANumber_of_lt h
    exact ⟨left, right, (lt_iff_rank_lt left right).1 h⟩
  · rintro ⟨left, right, below⟩
    exact (lt_iff_rank_lt left right).2 below

theorem unpacked_abs (x : Float) : unpacked (Scalar.abs x) = (unpacked x).abs :=
  unpack_pack_abs _ (by decide)

/-- Zero is the number from which magnitudes are counted. -/
theorem zero_le_iff {x : Float} : 0 ≤ x ↔ unpacked x ≠ .notANumber ∧
    rank (.zero .positive) ≤ rank (unpacked x) := by
  have zero : unpacked 0 = .zero .positive := rfl
  rw [le_iff_rank, zero, and_iff_right (by simp)]

end Double

open Double in
instance : Scalar.Ordered Float where
  trans {x y z} xy yz := by
    obtain ⟨hx, hy, xy⟩ := le_iff_rank.1 xy
    obtain ⟨-, hz, yz⟩ := le_iff_rank.1 yz
    exact le_iff_rank.2 ⟨hx, hz, xy.trans yz⟩
  left h := by
    obtain ⟨hx, -, -⟩ := le_iff_rank.1 h
    exact le_iff_rank.2 ⟨hx, hx, le_rfl⟩
  right h := by
    obtain ⟨-, hy, -⟩ := le_iff_rank.1 h
    exact le_iff_rank.2 ⟨hy, hy, le_rfl⟩
  total {x y} hx hy := by
    obtain ⟨hx, -, -⟩ := le_iff_rank.1 hx
    obtain ⟨hy, -, -⟩ := le_iff_rank.1 hy
    rcases le_total (rank (unpacked x)) (rank (unpacked y)) with below | above
    · exact .inl (le_iff_rank.2 ⟨hx, hy, below⟩)
    · exact .inr (le_iff_rank.2 ⟨hy, hx, above⟩)
  lt_iff {x y} := by
    refine lt_iff_rank.trans ?_
    constructor
    · rintro ⟨hx, hy, below⟩
      refine ⟨le_iff_rank.2 ⟨hx, hy, below.le⟩, fun above => ?_⟩
      exact not_le.2 below (le_iff_rank.1 above).2.2
    · rintro ⟨below, notAbove⟩
      obtain ⟨hx, hy, below⟩ := le_iff_rank.1 below
      refine ⟨hx, hy, lt_of_le_not_ge below fun above => ?_⟩
      exact notAbove (le_iff_rank.2 ⟨hy, hx, above⟩)
  zero_le_zero := by decide
  intCast_zero := by decide
  abs_zero := by decide
  zero_le_abs {x} hx := by
    obtain ⟨hx, -, -⟩ := le_iff_rank.1 hx
    refine zero_le_iff.2 ⟨?_, ?_⟩
    · rw [unpacked_abs]
      exact fun absent => hx (abs_eq_notANumber.1 absent)
    · rw [unpacked_abs]
      exact zero_le_rank_abs _
  of_abs {x} h := by
    obtain ⟨hx, -, -⟩ := le_iff_rank.1 h
    rw [unpacked_abs] at hx
    have number := fun absent => hx (abs_eq_notANumber.2 absent)
    exact le_iff_rank.2 ⟨number, number, le_rfl⟩

end ConicScaling
