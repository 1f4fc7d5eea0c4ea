import ConicScaling.Limiter
import ConicScaling.Proofs.Evenness
import ConicScaling.Proofs.NormKernels

/-!
# Arithmetic with not-a-number

Not-a-number compares with nothing, and whatever is computed from it is not-a-number again. So it
also passes sums, extremes, limits and means, and a block that contains it counts as uneven. Doubles
behave like that, as far as their exponential and logarithm do.
-/
namespace ConicScaling

open Scalar

/-! ## Sums -/

section Sums

variable {β : Type} {p : β → Prop} {add : β → β → β} {zero : β}
  (absorbs : ∀ {x y}, p x ∨ p y → p (add x y))

include absorbs

theorem foldl_of_exists {start : β} {vs : List β} (h : p start ∨ ∃ v ∈ vs, p v) :
    p (vs.foldl add start) := by
  induction vs generalizing start with
  | nil => simpa using h
  | cons v vs ih =>
    apply ih
    rcases h with h | ⟨w, hw, h⟩
    · exact .inl (absorbs (.inl h))
    · rcases List.mem_cons.1 hw with rfl | later
      · exact .inl (absorbs (.inr h))
      · exact .inr ⟨w, later, h⟩

theorem sumForward_of_exists {vs : List β} (h : ∃ v ∈ vs, p v) : p (sumForward add zero vs) := by
  cases vs with
  | nil => simp at h
  | cons v rest => exact foldl_of_exists absorbs (by simpa using h)

theorem exists_mem_sumNeighbours {vs : List β} (h : ∃ v ∈ vs, p v) :
    ∃ v ∈ sumNeighbours add vs, p v := by
  fun_induction sumNeighbours add vs with
  | case1 v w rest ih =>
    simp only [List.exists_mem_cons_iff, ← or_assoc] at h ⊢
    exact h.imp absorbs ih
  | case2 => exact h

theorem exists_mem_zipWith {vs ws : List β} (size : vs.length = ws.length)
    (h : (∃ v ∈ vs, p v) ∨ ∃ w ∈ ws, p w) : ∃ x ∈ List.zipWith add vs ws, p x := by
  induction vs generalizing ws with
  | nil =>
    obtain rfl := List.length_eq_zero_iff.1 size.symm
    simp at h
  | cons v vs ih =>
    obtain _ | ⟨w, ws⟩ := ws
    · simp at size
    · simp only [List.zipWith_cons_cons, List.exists_mem_cons_iff] at h ⊢
      rcases h with (h | h) | h | h
      · exact .inl (absorbs (.inl h))
      · exact .inr (ih (by simpa using size) (.inl h))
      · exact .inl (absorbs (.inr h))
      · exact .inr (ih (by simpa using size) (.inr h))

theorem exists_mem_sumInTurn {sums vs : List β} (size : sums.length = 8)
    (h : (∃ v ∈ sums, p v) ∨ ∃ v ∈ vs, p v) :
    (∃ v ∈ (sumInTurn add sums vs).1, p v) ∨ ∃ v ∈ (sumInTurn add sums vs).2, p v := by
  fun_induction sumInTurn add sums vs with
  | case1 sums vs long ih =>
    have length : sums.length = (vs.take 8).length := by
      rw [List.length_take]
      omega
    refine ih (by simp; omega) ?_
    -- a value is among the next eight, or left over after them
    rw [← List.take_append_drop 8 vs] at h
    simp only [List.mem_append, or_and_right, exists_or, ← or_assoc] at h
    exact h.imp_left (exists_mem_zipWith absorbs length)
  | case2 => exact h

theorem sumBlock_of_exists {vs : List β} (h : ∃ v ∈ vs, p v) : p (sumBlock add zero vs) := by
  unfold sumBlock
  split
  · exact sumForward_of_exists absorbs h
  · rename_i long
    have split : (∃ v ∈ vs.take 8, p v) ∨ ∃ v ∈ vs.drop 8, p v := by
      rw [← List.take_append_drop 8 vs] at h
      simpa only [List.mem_append, or_and_right, exists_or] using h
    have summed := exists_mem_sumInTurn absorbs (by simp; omega) split
    apply sumForward_of_exists absorbs
    simp only [List.mem_append, or_and_right, exists_or]
    refine summed.imp_left fun h => ?_
    exact exists_mem_sumNeighbours absorbs (exists_mem_sumNeighbours absorbs
      (exists_mem_sumNeighbours absorbs h))

/-- What addition passes on reaches a pairwise sum from any of its values. -/
theorem sumPairwise_of_exists {vs : List β} (h : ∃ v ∈ vs, p v) :
    p (sumPairwise add zero vs) := by
  fun_induction sumPairwise add zero vs with
  | case1 vs short => exact sumBlock_of_exists absorbs h
  | case2 vs long half first second =>
    rw [← List.take_append_drop half vs] at h
    simp only [List.mem_append, or_and_right, exists_or] at h
    exact absorbs (h.imp first second)

end Sums

/-! ## Scalars -/

/-- Arithmetic that passes on not-a-number. -/
class Scalar.Absorbing (α : Type) [Scalar α] : Prop where
  add {x y : α} : isNaN x ∨ isNaN y → isNaN (x + y)
  mul {x y : α} : isNaN x ∨ isNaN y → isNaN (x * y)
  div {x y : α} : isNaN x ∨ isNaN y → isNaN (x / y)
  sqrt {x : α} : isNaN x → isNaN (Scalar.sqrt x)
  exp {x : α} : isNaN x → isNaN (Scalar.exp x)
  log {x : α} : isNaN x → isNaN (Scalar.log x)

namespace Scalar

variable {α : Type} [Scalar α] [Ordered α] {x y : α}

theorem isNaN_abs (h : isNaN x) : isNaN (Scalar.abs x) := by
  rw [isNaN_iff_not_le] at h ⊢
  exact fun number => h (Ordered.of_abs number)

theorem not_le_of_isNaN (h : isNaN x ∨ isNaN y) : ¬ x ≤ y := by
  rw [isNaN_iff_not_le, isNaN_iff_not_le] at h
  exact fun below => h.elim (· (Ordered.left below)) (· (Ordered.right below))

theorem not_lt_of_isNaN (h : isNaN x ∨ isNaN y) : ¬ x < y := fun below =>
  not_le_of_isNaN h (Ordered.lt_iff.1 below).1

theorem same_of_isNaN (h : isNaN x) (y : α) : same x y = false := by
  simp [same, not_le_of_isNaN (.inl h : isNaN x ∨ isNaN y)]

theorem isNaN_larger (h : isNaN x ∨ isNaN y) : isNaN (larger x y) :=
  (isLargest_larger x y).isNaN_iff.2 (by simpa using h)

theorem isNaN_smaller (h : isNaN x) (y : α) : isNaN (smaller x y) := by
  unfold smaller
  split
  · rename_i second
    exact second.resolve_left (not_lt_of_isNaN (.inr h))
  · exact h

end Scalar

/-! ## Limits, extremes and means -/

section Means

variable {α : Type} [Scalar α] [Absorbing α] {e : Array α} (h : ∃ x ∈ e, isNaN x)

include h

theorem isNaN_mean : isNaN (mean e) := by
  obtain ⟨x, hx, absent⟩ := h
  have some : e.isEmpty = false := by
    simpa using Array.ne_empty_of_mem hx
  rw [mean, some, if_neg Bool.false_ne_true]
  exact Absorbing.div (.inl (sumPairwise_of_exists (p := fun x : α => isNaN x) Absorbing.add
    ⟨x, by simpa using hx, absent⟩))

theorem isNaN_of_mem_correction : ∀ x ∈ correction e, isNaN x := by
  obtain ⟨y, hy, absent⟩ := h
  have logs : ∃ x ∈ e.map Scalar.log, isNaN x :=
    ⟨_, Array.mem_map_of_mem hy, Absorbing.log absent⟩
  intro x hx
  obtain ⟨z, -, rfl⟩ := Array.mem_map.1 hx
  exact Absorbing.div (.inl (Absorbing.exp (isNaN_mean logs)))

end Means

section Comparisons

variable {α : Type} [Scalar α] [Ordered α]

namespace Limiter

variable {x : α} (l : Limiter α) (h : isNaN x)

include h

theorem isNaN_limitEntry : isNaN (l.limitEntry x) := by
  rw [limitEntry, if_neg (not_le_of_isNaN (.inl h))]
  exact isNaN_smaller (isNaN_larger (.inl h)) _

theorem isNaN_limit : isNaN (l.limit x) := by
  have raised : raise x l.low = x := if_neg (not_lt_of_isNaN (.inl h))
  have lowered : lower x l.high = x := if_neg (not_lt_of_isNaN (.inr h))
  rwa [limit, if_neg (not_le_of_isNaN (.inl h)), raised, lowered]

end Limiter

variable {e : Array α} (h : ∃ x ∈ e, isNaN x)

include h

theorem isNaN_largest : isNaN (largest e) := by
  rw [largest, ← Array.foldl_toList]
  refine (isLargest_foldl isLargest_larger _ _).isNaN_iff.2 ?_
  obtain ⟨x, hx, absent⟩ := h
  exact ⟨x, .inr (by simpa using hx), absent⟩

theorem isNaN_infNorm : isNaN (infNorm e) := by
  obtain ⟨x, hx, absent⟩ := h
  exact isNaN_largest ⟨_, Array.mem_map_of_mem hx, isNaN_abs absent⟩

/-- No tolerance makes not-a-number even with other entries. -/
theorem isUniform_of_isNaN [Absorbing α] (several : 1 < e.size) : isUniform e = false := by
  -- the tolerated share of the largest entry is not-a-number as well
  rw [isUniform, if_neg (by omega)]
  exact decide_eq_false (not_le_of_isNaN (.inr (Absorbing.mul (.inr (isNaN_largest h)))))

end Comparisons

/-! ## Doubles -/

namespace Double

open Float.Model UnpackedFloat

theorem isNaN_iff {x : Float} : isNaN x ↔ unpacked x = .notANumber := by
  rw [isNaN_iff_not_le, le_iff_rank]
  simp

/-- A rounded operation passes on not-a-number if the exact one does. -/
theorem isNaN_binary {op : Float → Float → Float}
    {exact : UnpackedFloat → UnpackedFloat → UnpackedFloat}
    (rounds : ∀ x y, unpacked (op x y) = (pack (exact (unpacked x) (unpacked y))).unpack)
    (left : ∀ v, exact .notANumber v = .notANumber)
    (right : ∀ u, exact u .notANumber = .notANumber) {x y : Float} (h : isNaN x ∨ isNaN y) :
    isNaN (op x y) := by
  simp only [isNaN_iff] at h ⊢
  have absent : exact (unpacked x) (unpacked y) = .notANumber := by
    rcases h with h | h
    · rw [h, left]
    · rw [h, right]
  rw [rounds, absent]
  exact unpack_packedNaN

theorem isNaN_sqrt {x : Float} (h : isNaN x) : isNaN x.sqrt := by
  rw [isNaN_iff] at h ⊢
  have rounds : unpacked x.sqrt = (pack (UnpackedFloat.sqrt _ (unpacked x))).unpack := rfl
  rw [rounds, h]
  exact unpack_packedNaN

theorem isNaN_add {x y : Float} (h : isNaN x ∨ isNaN y) : isNaN (x + y) :=
  isNaN_binary (fun _ _ => rfl) (fun _ => rfl) (fun u => by cases u <;> rfl) h

theorem isNaN_mul {x y : Float} (h : isNaN x ∨ isNaN y) : isNaN (x * y) :=
  isNaN_binary (fun _ _ => rfl) (fun _ => rfl) (fun u => by cases u <;> rfl) h

theorem isNaN_div {x y : Float} (h : isNaN x ∨ isNaN y) : isNaN (x / y) :=
  isNaN_binary (fun _ _ => rfl) (fun _ => rfl) (fun u => by cases u <;> rfl) h

/-- Doubles pass on not-a-number, if their exponential and their logarithm do. -/
theorem absorbing (exp : ∀ {x : Float}, isNaN x → isNaN x.exp)
    (log : ∀ {x : Float}, isNaN x → isNaN x.log) : Absorbing Float where
  add := isNaN_add
  mul := isNaN_mul
  div := isNaN_div
  sqrt := isNaN_sqrt
  exp := exp
  log := log

/-- A function of numbers that passes on not-a-number. -/
def guard (f : Float → Float) (x : Float) : Float := if isNaN x then x else f x

theorem isNaN_guard {x : Float} (h : isNaN x) (f : Float → Float) : isNaN (guard f x) := by
  rwa [guard, if_pos h]

/-- Doubles whose exponential and logarithm pass on not-a-number. -/
def Guarded : Type := Float

instance : Scalar Guarded :=
  { (inferInstance : Scalar Float) with
    exp := guard Float.exp
    log := guard Float.log }

instance : Standard Guarded := ⟨Standard.admissible (α := Float)⟩

instance : Ordered Guarded where
  trans := Ordered.trans (α := Float)
  left := Ordered.left (α := Float)
  right := Ordered.right (α := Float)
  total := Ordered.total (α := Float)
  lt_iff := Ordered.lt_iff (α := Float)
  zero_le_zero := Ordered.zero_le_zero (α := Float)
  intCast_zero := Ordered.intCast_zero (α := Float)
  abs_zero := Ordered.abs_zero (α := Float)
  zero_le_abs := Ordered.zero_le_abs (α := Float)
  of_abs := Ordered.of_abs (α := Float)

instance : Absorbing Guarded where
  add {x y : Float} h := isNaN_add (x := x) (y := y) h
  mul {x y : Float} h := isNaN_mul (x := x) (y := y) h
  div {x y : Float} h := isNaN_div (x := x) (y := y) h
  sqrt {x : Float} h := isNaN_sqrt (x := x) h
  exp {x : Float} h := isNaN_guard (x := x) h Float.exp
  log {x : Float} h := isNaN_guard (x := x) h Float.log

end Double

end ConicScaling
