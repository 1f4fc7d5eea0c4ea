import ConicScaling.Proofs.Absorption

/-!
# Limits on doubles

Entries of a vector and single candidates are limited alike, although they are compared in
different ways. Not-a-number passes, and what is not positive becomes one. A positive number becomes
one of the two bounds or stays, so limits keep the order, change nothing the second time, and may be
taken before or after the larger of two numbers is chosen.
-/
namespace ConicScaling

open Scalar

namespace Limiter

section Outcomes

variable {α : Type} [Scalar α] {l : Limiter α} {x y : α}

/-- Bounds that enclose one, with one for norms that are not positive. -/
structure EnclosesOne (l : Limiter α) : Prop where
  low_pos : 0 < l.low
  low_le_one : l.low ≤ 1
  one_le_high : 1 ≤ l.high
  degenerate_eq_one : l.degenerate = 1

theorem EnclosesOne.limit_of_nonpos (h : l.EnclosesOne) (hx : x ≤ 0) : l.limit x = 1 := by
  rw [limit, if_pos hx, h.degenerate_eq_one]

variable [Ordered α]

theorem limit_of_isNaN (h : isNaN x) : l.limit x = x := by
  have raised : raise x l.low = x := if_neg (not_lt_of_isNaN (.inl h))
  have lowered : lower x l.high = x := if_neg (not_lt_of_isNaN (.inr h))
  rw [limit, if_neg (not_le_of_isNaN (.inl h)), raised, lowered]

namespace EnclosesOne

variable (h : l.EnclosesOne)

include h

theorem low_le_low : l.low ≤ l.low := Ordered.left h.low_le_one

theorem high_le_high : l.high ≤ l.high := Ordered.right h.one_le_high

theorem low_le_high : l.low ≤ l.high := Ordered.trans h.low_le_one h.one_le_high

theorem limitVector_eq_map (v : Array α) : l.limitVector v = v.map l.limit := by
  have low : isNaN l.low = false := isNaN_eq_false_iff.2 h.low_le_low
  have high : isNaN l.high = false := isNaN_eq_false_iff.2 h.high_le_high
  rw [limitVector, funext (limitEntry_eq_limit low high)]

theorem limit_of_lt_low (positive : 0 < x) (below : x < l.low) : l.limit x = l.low := by
  have kept : ¬ l.high < l.low := fun above => Ordered.not_le_of_lt above h.low_le_high
  rw [limit, if_neg (Ordered.not_le_of_lt positive), raise, if_pos below, lower, if_neg kept]

theorem limit_of_high_lt (above : l.high < x) : l.limit x = l.high := by
  have low : l.low ≤ x := Ordered.trans h.low_le_high (Ordered.le_of_lt above)
  have positive := Ordered.lt_of_lt_of_le h.low_pos low
  have kept : ¬ x < l.low := fun below => Ordered.not_le_of_lt below low
  rw [limit, if_neg (Ordered.not_le_of_lt positive), raise, if_neg kept, lower, if_pos above]

theorem limit_of_mem (low : l.low ≤ x) (high : x ≤ l.high) : l.limit x = x := by
  have positive := Ordered.lt_of_lt_of_le h.low_pos low
  have above : ¬ x < l.low := fun below => Ordered.not_le_of_lt below low
  have below : ¬ l.high < x := fun above => Ordered.not_le_of_lt above high
  rw [limit, if_neg (Ordered.not_le_of_lt positive), raise, if_neg above, lower, if_neg below]

/-- A positive number is limited by one of the bounds, or lies between them. -/
theorem limit_cases (positive : 0 < x) : x < l.low ∧ l.limit x = l.low ∨
    l.high < x ∧ l.limit x = l.high ∨ (l.low ≤ x ∧ x ≤ l.high) ∧ l.limit x = x := by
  have number : x ≤ x := Ordered.right (Ordered.le_of_lt positive)
  by_cases below : x < l.low
  · exact .inl ⟨below, h.limit_of_lt_low positive below⟩
  by_cases above : l.high < x
  · exact .inr (.inl ⟨above, h.limit_of_high_lt above⟩)
  have low := Ordered.le_of_not_lt number h.low_le_low below
  have high := Ordered.le_of_not_lt h.high_le_high number above
  exact .inr (.inr ⟨⟨low, high⟩, h.limit_of_mem low high⟩)

theorem limit_within (number : x ≤ x) : l.low ≤ l.limit x ∧ l.limit x ≤ l.high := by
  by_cases positive : 0 < x
  · rcases h.limit_cases positive with ⟨-, same⟩ | ⟨-, same⟩ | ⟨inside, same⟩
    · rw [same]
      exact ⟨h.low_le_low, h.low_le_high⟩
    · rw [same]
      exact ⟨h.low_le_high, h.high_le_high⟩
    · rwa [same]
  · rw [h.limit_of_nonpos (Ordered.le_of_not_lt Ordered.zero_le_zero number positive)]
    exact ⟨h.low_le_one, h.one_le_high⟩

/-- Limits neither remove not-a-number nor bring it in. -/
theorem isNaN_limit_iff (x : α) : isNaN (l.limit x) ↔ isNaN x := by
  by_cases number : x ≤ x
  · have limited := Ordered.right (h.limit_within number).1
    rw [isNaN_iff_not_le, isNaN_iff_not_le]
    exact iff_of_false (not_not_intro limited) (not_not_intro number)
  · rw [limit_of_isNaN (isNaN_iff_not_le.2 number)]

theorem limit_limit (x : α) : l.limit (l.limit x) = l.limit x := by
  by_cases number : x ≤ x
  · obtain ⟨low, high⟩ := h.limit_within number
    exact h.limit_of_mem low high
  · rw [limit_of_isNaN (isNaN_iff_not_le.2 number), limit_of_isNaN (isNaN_iff_not_le.2 number)]

theorem limit_le_limit (positive : 0 < x) (below : x ≤ y) : l.limit x ≤ l.limit y := by
  have later : 0 < y := Ordered.lt_of_lt_of_le positive below
  rcases h.limit_cases positive with ⟨-, first⟩ | ⟨above, first⟩ | ⟨⟨low, high⟩, first⟩
  · rw [first]
    exact (h.limit_within (Ordered.right below)).1
  · rw [first, h.limit_of_high_lt (Ordered.lt_of_lt_of_le above below)]
    exact h.high_le_high
  · rcases h.limit_cases later with ⟨under, -⟩ | ⟨-, last⟩ | ⟨-, last⟩
    · exact absurd (Ordered.trans low below) (Ordered.not_le_of_lt under)
    · rwa [first, last]
    · rwa [first, last]

/-- Where equal numbers are the same, one number may be limited before it is compared, or both. -/
theorem limit_raise_limit (antisymm : ∀ {x y : α}, 0 < x → x ≤ y → y ≤ x → x = y)
    (hx : 0 < x) (hy : 0 < y) : l.limit (raise (l.limit x) y) = raise (l.limit x) (l.limit y) := by
  obtain ⟨low, high⟩ := h.limit_within (Ordered.right (Ordered.le_of_lt hx))
  have number : y ≤ y := Ordered.right (Ordered.le_of_lt hy)
  by_cases less : l.limit x < y
  · rw [raise, if_pos less]
    rcases h.limit_cases hy with ⟨under, -⟩ | ⟨-, top⟩ | ⟨-, own⟩
    · exact absurd (Ordered.trans low (Ordered.le_of_lt less)) (Ordered.not_le_of_lt under)
    · rw [top, raise]
      split
      · rfl
      · -- the first number is as large as the bound itself
        rename_i reached
        have bound := Ordered.le_of_not_lt (Ordered.left high) h.high_le_high reached
        exact (antisymm (Ordered.lt_of_lt_of_le h.low_pos low) high bound).symm
    · rw [own, raise, if_pos less]
  · have below : l.limit y ≤ l.limit x := by
      have above := Ordered.le_of_not_lt (Ordered.left high) number less
      have limited := h.limit_le_limit hy above
      rwa [h.limit_limit] at limited
    have kept : ¬ l.limit x < l.limit y := fun above => Ordered.not_le_of_lt above below
    rw [raise, if_neg less, h.limit_limit, raise, if_neg kept]

end EnclosesOne

end Outcomes

/-- What a limit does: to entries of vectors and to single candidates, to not-a-number, to what is
not positive and to positive numbers. -/
structure Limits {α : Type} [Scalar α] (l : Limiter α) : Prop where
  limitVector : ∀ v, l.limitVector v = v.map l.limit
  isNaN_iff : ∀ x, isNaN (l.limit x) ↔ isNaN x
  within : ∀ x, isNaN x = false → l.low ≤ l.limit x ∧ l.limit x ≤ l.high
  of_nonpos : ∀ x, x ≤ 0 → l.limit x = 1
  mono : ∀ x y, 0 < x → x ≤ y → l.limit x ≤ l.limit y
  idempotent : ∀ x, l.limit (l.limit x) = l.limit x
  limit_raise : ∀ x y, 0 < x → 0 < y →
    l.limit (raise (l.limit x) y) = raise (l.limit x) (l.limit y)

end Limiter

/-! ## Doubles -/

namespace Double

open Float.Model UnpackedFloat

/-- Only zeros share their place in the order. -/
theorem eq_of_rank_eq {u v : UnpackedFloat} (number : v ≠ .notANumber)
    (positive : rank (.zero .positive) < rank u) (same : rank u = rank v) : u = v := by
  rcases u with ⟨_ | _⟩ | _ | _ | ⟨_ | _⟩ <;> rcases v with ⟨_ | _⟩ | _ | _ | ⟨_ | _⟩ <;>
    simp_all [rank, Prod.Lex.toLex_lt_toLex]

theorem eq_of_le_of_le {x y : Float} (positive : 0 < x) (below : x ≤ y) (above : y ≤ x) :
    x = y := by
  obtain ⟨-, -, positive⟩ := lt_iff_rank.1 positive
  obtain ⟨-, number, below⟩ := le_iff_rank.1 below
  obtain ⟨-, -, above⟩ := le_iff_rank.1 above
  exact eq_of_unpacked_eq (eq_of_rank_eq number positive (le_antisymm below above))

end Double

namespace Limiter

/-- Limits with bounds that enclose one behave on all doubles, infinities, both zeros and
not-a-number among them, as factors for scaling rely on. -/
theorem limits_of_enclosesOne {l : Limiter Float} (h : l.EnclosesOne) : l.Limits where
  limitVector := h.limitVector_eq_map
  isNaN_iff := h.isNaN_limit_iff
  within _ number := h.limit_within (isNaN_eq_false_iff.1 number)
  of_nonpos _ := h.limit_of_nonpos
  mono _ _ := h.limit_le_limit
  idempotent := h.limit_limit
  limit_raise _ _ := h.limit_raise_limit Double.eq_of_le_of_le

/-- Bounds of which the upper one is infinite. -/
def unboundedAbove : Limiter Float := ⟨1e-4, infinity, 1⟩

theorem limits_of_enclosesOne_unboundedAbove :
    unboundedAbove.EnclosesOne ∧ unboundedAbove.Limits := by
  have encloses : unboundedAbove.EnclosesOne := ⟨by decide, by decide, by decide, rfl⟩
  exact ⟨encloses, limits_of_enclosesOne encloses⟩

end Limiter

end ConicScaling
