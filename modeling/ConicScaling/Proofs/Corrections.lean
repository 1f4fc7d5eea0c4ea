import ConicScaling.Proofs.Exact
import ConicScaling.Proofs.Rectification

/-!
# Corrections in exact arithmetic

The rectification replaces the factors of a block by their geometric mean, which is no smaller than
all of them and no larger than all of them. What relates the factors of every block to its
correction relates the factors of all rows to theirs, however deep the block is nested.
-/
namespace ConicScaling

variable {α β : Type}

/-! ## Sums and means in exact arithmetic -/

theorem sumPairwise_real (vs : List ℝ) : sumPairwise (· + ·) 0 vs = vs.sum := by
  rw [sumPairwise_eq_foldl, List.sum_eq_foldl]

theorem mean_real (v : Array ℝ) : mean v = v.toList.sum / v.size := by
  unfold mean
  split
  · simp_all
  · rw [sumPairwise_real]
    simp [Scalar.ofNat]

/-- A mean lies between bounds of the entries. -/
theorem mean_mem_Icc {v : Array ℝ} {low high : ℝ} (nonempty : v ≠ #[])
    (bounded : ∀ x ∈ v, x ∈ Set.Icc low high) : mean v ∈ Set.Icc low high := by
  have size : (0 : ℝ) < v.size := by
    exact_mod_cast Array.size_pos_iff.2 nonempty
  have below := List.card_nsmul_le_sum v.toList low fun x hx => (bounded x (by simpa using hx)).1
  have above := List.sum_le_card_nsmul v.toList high fun x hx => (bounded x (by simpa using hx)).2
  rw [Array.length_toList, nsmul_eq_mul] at below above
  rw [mean_real]
  exact ⟨(le_div_iff₀' size).2 below, (div_le_iff₀' size).2 above⟩

theorem geometricMean_mem_Icc {e : Array ℝ} {low high : ℝ} (nonempty : e ≠ #[])
    (positive : 0 < low) (bounded : ∀ x ∈ e, x ∈ Set.Icc low high) :
    geometricMean e ∈ Set.Icc low high := by
  obtain ⟨y, hy⟩ := Array.exists_mem_of_ne_empty e nonempty
  have order : 0 < high := positive.trans_le ((bounded y hy).1.trans (bounded y hy).2)
  have logs : ∀ x ∈ e.map Scalar.log, x ∈ Set.Icc (Real.log low) (Real.log high) := by
    intro x hx
    obtain ⟨y, hy, rfl⟩ := Array.mem_map.1 hx
    have inside := bounded y hy
    exact ⟨Real.log_le_log positive inside.1,
      Real.log_le_log (positive.trans_le inside.1) inside.2⟩
  have central := mean_mem_Icc (by simpa using nonempty) logs
  exact ⟨(Real.log_le_iff_le_exp positive).1 central.1, (Real.le_log_iff_exp_le order).1 central.2⟩

/-! ## Entries that belong together -/

namespace RowRange

variable {p : α → β → Prop} (r : RowRange)

theorem toList_read (v : Array α) :
    (r.read v).toList = (v.toList.drop (r.low v)).take (r.high v - r.low v) := by
  simp [read, List.extract]

theorem toList_write (part v : Array α) : (r.write part v).toList =
    v.toList.take (r.low v) ++ part.toList ++ v.toList.drop (max (r.low v) (r.high v)) := by
  simp [write, List.extract, List.take_of_length_le]

theorem forall₂_read {u : Array α} {v : Array β} (h : List.Forall₂ p u.toList v.toList) :
    List.Forall₂ p (r.read u).toList (r.read v).toList := by
  have size : u.size = v.size := by simpa using h.length_eq
  rw [toList_read, toList_read, low, low, high, high, size]
  exact List.forall₂_take _ (List.forall₂_drop _ h)

theorem forall₂_write {u a : Array α} {v b : Array β} (h : List.Forall₂ p u.toList v.toList)
    (part : List.Forall₂ p a.toList b.toList) :
    List.Forall₂ p (r.write a u).toList (r.write b v).toList := by
  have size : u.size = v.size := by simpa using h.length_eq
  rw [toList_write, toList_write, low, low, high, high, size]
  exact List.rel_append (List.rel_append (List.forall₂_take _ h) part) (List.forall₂_drop _ h)

end RowRange

namespace Cone

variable [Scalar α] {p : α → α → Prop}

theorem forall₂_correctedMembers {e work : Array α} (members : List (Cone α)) (rows : List RowRange)
    (old : List.Forall₂ p e.toList work.toList)
    (each : ∀ c ∈ members, ∀ (r : RowRange) {work : Array α},
      List.Forall₂ p (r.read e).toList work.toList →
        List.Forall₂ p (r.read e).toList (c.corrected (r.read e) work).2.toList) :
    List.Forall₂ p e.toList (correctedMembers e work members rows).2.toList := by
  refine correctedMembers_induction (I := fun v => List.Forall₂ p e.toList v.toList) members rows
    old ?_
  intro c hc r v related
  have written := r.forall₂_write related (each c hc r (r.forall₂_read related))
  rwa [RowRange.write_read] at written

/-- What relates the factors to the work vector before a rectification still does after it, if it
relates each block that is not uniform to its correction. -/
theorem forall₂_corrected {c : Cone α} {e work : Array α}
    (old : List.Forall₂ p e.toList work.toList)
    (new : ∀ part : Array α, (∀ x ∈ part, x ∈ e) → isUniform part = false →
      List.Forall₂ p part.toList (correction part).toList) :
    List.Forall₂ p e.toList (c.corrected e work).2.toList := by
  induction c using induction generalizing e work with
  | block b =>
    rw [corrected]
    split
    · rename_i changes
      exact new e (fun _ => id) (by simp_all)
    · exact old
  | product members ih =>
    apply forall₂_correctedMembers members _ old
    intro c hc r work old
    exact ih c hc old fun part within =>
      new part fun x hx => RowRange.mem_of_mem_read (within x hx)

end Cone

theorem forall_mem_times {u v : Array ℝ} {p : ℝ → Prop}
    (h : List.Forall₂ (fun x y => p (x * y)) u.toList v.toList) :
    ∀ x ∈ Diagonal.times v u, p x := by
  intro x hx
  obtain ⟨i, hi, rfl⟩ := Array.mem_iff_getElem.1 hx
  have both : i < u.toList.length ∧ i < v.toList.length := by simpa [Diagonal.times] using hi
  simpa [Diagonal.times] using h.get both.1 both.2

/-- The corrected factors of a block are its geometric mean. -/
theorem mul_correction {e : Array ℝ} (positive : ∀ x ∈ e, 0 < x) :
    List.Forall₂ (fun x y => x * y = geometricMean e) e.toList (correction e).toList := by
  rw [correction, Array.toList_map, List.forall₂_map_right_iff, List.forall₂_same]
  intro x hx
  exact mul_div_cancel₀ _ (positive x (by simpa using hx)).ne'

/-- A rectification keeps the factors within bounds. -/
theorem Cone.times_corrections_mem {c : Cone ℝ} {e : Array ℝ} {low high : ℝ} (positive : 0 < low)
    (bounded : ∀ x ∈ e, x ∈ Set.Icc low high) :
    ∀ x ∈ Diagonal.times (c.corrections e).2 e, x ∈ Set.Icc low high := by
  refine forall_mem_times (p := (· ∈ Set.Icc low high)) (Cone.forall₂_corrected ?_ ?_)
  · rw [← Array.map_const', Array.toList_map, List.forall₂_map_right_iff, List.forall₂_same]
    intro x hx
    simpa using bounded x (by simpa using hx)
  · intro part within uneven
    have inside : ∀ x ∈ part, x ∈ Set.Icc low high := fun x hx => bounded x (within x hx)
    have nonempty : part ≠ #[] := by
      rintro rfl
      cases uneven
    have mean := geometricMean_mem_Icc nonempty positive inside
    refine (mul_correction fun x hx => positive.trans_le (inside x hx).1).imp ?_
    intro x y product
    rwa [product]

end ConicScaling
