import ConicScaling.Proofs.Rescaling
import ConicScaling.Proofs.Stage
import ConicScaling.Proofs.Values

/-!
# Scaling by ones

What is multiplied by one stays, and a block of ones counts as scaled alike. From these laws alone
it follows that scaling by ones changes nothing and that nothing is rectified before the first pass.
-/
namespace ConicScaling

/-- Arithmetic in which one is neutral for products, and told apart from zero but not from
itself. -/
class Scalar.Unital (α : Type) [Scalar α] : Prop where
  mul_one (x : α) : x * 1 = x
  one_div_one : (1 : α) / 1 = 1
  same_one_one : same (1 : α) 1 = true
  same_one_zero : same (1 : α) 0 = false
  one_sub_one_le : (1 : α) - 1 ≤ uniformTolerance

instance : Scalar.Unital ℝ where
  mul_one := mul_one
  one_div_one := div_self one_ne_zero
  same_one_one := by simp
  same_one_zero := by simp
  one_sub_one_le := by
    rw [sub_self]
    simp only [uniformTolerance, Scalar.decimal]
    positivity

variable {α : Type} [Scalar α]

/-- Whether rounding changes nothing that is stored: in single precision only such numbers are. -/
def DataMatrix.Representable (M : DataMatrix α) : Prop :=
  M.storage.map M.precision.round = M.storage

theorem DataMatrix.representable_of_double {M : DataMatrix α} (double : M.precision = .double) :
    M.Representable := by
  simp only [Representable, double]
  exact Storage.mapEntries_self _

structure Data.Representable (d : Data (DataMatrix α) α) : Prop where
  P : d.P.Representable
  A : d.A.Representable

open Scalar

variable [Unital α]

/-! ## Vectors -/

theorem times_of_ones {d v : Array α} (one : ∀ x ∈ d, x = 1) (size : d.size = v.size) :
    Diagonal.times d v = v := by
  apply Array.ext
  · exact Diagonal.size_times size
  · intro i _ inside
    have unit : d[i] = 1 := one _ (Array.getElem_mem (size ▸ inside))
    simp only [Diagonal.times, Array.getElem_zipWith, unit, Unital.mul_one]

theorem times_replicate_one {v : Array α} {n : Nat} (size : v.size = n) :
    Diagonal.times (Array.replicate n 1) v = v :=
  times_of_ones (fun _ member => (Array.mem_replicate.1 member).2) (by simp [size])

theorem map_reciprocal_ones (n : Nat) : (ones n : Array α).map reciprocal = ones n := by
  simp only [ones, Array.map_replicate, reciprocal, Unital.one_div_one]

theorem map_mul_one (v : Array α) : (v.map fun x => x * 1) = v := by
  simp only [Unital.mul_one, Array.map_id']

/-! ## Data -/

theorem DataMatrix.Representable.scaledAlong_ones {M : DataMatrix α} (h : M.Representable)
    (axis : Axis) (n : Nat) : M.scaledAlong axis (.entries (ones n)) = M := by
  have unit (i : Nat) : (ones n : Array α).getD i 1 = 1 := by
    by_cases inside : i < n <;> simp [ones, inside]
  have kept : Diagonal.scaleLines M.precision.round axis (ones n) M.storage = M.storage := by
    simp only [Diagonal.scaleLines, unit, Unital.mul_one]
    exact h
  rw [scaledAlong, kept]

theorem DataMatrix.Representable.scaled_ones {M : DataMatrix α} (h : M.Representable)
    (m n : Nat) : M.scaled (.entries (ones m)) (.entries (ones n)) = M := by
  have side (axis : Axis) : axis.side (.entries (ones m)) (.entries (ones n)) =
      (.entries (ones (axis.select m n)) : Diagonal α) := by
    cases axis <;> rfl
  simp only [scaled, side, h.scaledAlong_ones]

theorem Data.Representable.scaled_ones {d : Data (DataMatrix α) α} (h : d.Representable) {m n : Nat}
    (shaped : d.Shaped m n) : d.scaled (.entries (ones n)) (.entries (ones m)) 1 = d := by
  have q : Diagonal.times (ones n) d.q = d.q := times_replicate_one shaped.sizeq
  have b : Diagonal.times (ones m) d.b = d.b := times_replicate_one shaped.sizeb
  simp only [scaled, h.P.scaled_ones, h.A.scaled_ones, Unital.same_one_one, if_true,
    Diagonal.applied, q, b]

/-! ## Sets -/

theorem Block.rescaled_of_ones {b : Block α} {e : Array α} (one : ∀ x ∈ e, x = 1)
    (balanced : b.Balanced) (fits : b.Fits e.size) : b.rescaled e = b := by
  cases b with
  | box lower upper =>
    have one' : ∀ x ∈ Diagonal.expand lower.size e, x = 1 :=
      fun x hx => one x (Diagonal.mem_of_mem_expand hx)
    have sizeLower : (Diagonal.expand lower.size e).size = lower.size :=
      Diagonal.size_expand_iff.2 fits
    have sizeUpper : (Diagonal.expand lower.size e).size = upper.size :=
      sizeLower.trans (Eq.symm balanced)
    rw [rescaled, dim, scaled, times_of_ones one' sizeLower, times_of_ones one' sizeUpper]
  | _ => rfl

namespace Cone

omit [Unital α] in
theorem scaledMembers_of_ones {e : Array α} (one : ∀ x ∈ e, x = 1) (members : List (Cone α))
    (rows : List RowRange) (fits : FitMembers e.size members rows)
    (each : ∀ c ∈ members, ∀ e : Array α, (∀ x ∈ e, x = 1) → c.Fits e.size → c.scaled e = c) :
    scaledMembers e members rows = members := by
  induction members generalizing rows with
  | nil => cases rows <;> rfl
  | cons c cs ih =>
    cases rows with
    | nil => rfl
    | cons r rest =>
      obtain ⟨first, fits⟩ := fits
      rw [← RowRange.size_read_eq_count] at first
      have head := each c (by simp) (r.read e) (fun x hx => one x (RowRange.mem_of_mem_read hx))
        first
      have tail := ih rest fits fun d hd => each d (by simp [hd])
      rw [scaledMembers, head, tail]

theorem scaled_of_ones {c : Cone α} (balanced : c.Balanced) {e : Array α} (one : ∀ x ∈ e, x = 1)
    (fits : c.Fits e.size) : c.scaled e = c := by
  induction c using induction generalizing e with
  | block b => rw [scaled, Block.rescaled_of_ones one (balanced b (by simp [leaves])) fits]
  | product members ih =>
    refine congrArg product (scaledMembers_of_ones one members _ fits ?_)
    exact fun c hc e one fits => ih c hc (balanced_product.1 balanced c hc) one fits

end Cone

/-! ## Rectification -/

omit [Scalar α] [Unital α] in
theorem foldl_replicate {f : α → α → α} {a : α} (idempotent : f a a = a) (k : Nat) :
    (Array.replicate k a).foldl f a = a := by
  rw [← Array.foldl_toList, Array.toList_replicate]
  induction k with
  | zero => rfl
  | succ k ih => rwa [List.replicate_succ, List.foldl_cons, idempotent]

theorem isUniform_of_ones {e : Array α} (one : ∀ x ∈ e, x = 1) : isUniform e = true := by
  obtain ⟨k, rfl⟩ : ∃ k, e = Array.replicate k 1 := ⟨_, Array.eq_replicate_iff.2 ⟨rfl, one⟩⟩
  unfold isUniform
  split
  · rfl
  · rename_i several
    have inside : 0 < k := by simp_all; omega
    have first : (Array.replicate k (1 : α)).getD 0 0 = 1 := by simp [inside]
    have large : largest (Array.replicate k (1 : α)) = 1 := by
      rw [largest, first, foldl_replicate (f := larger) (ite_self 1)]
    have small : smallest (Array.replicate k (1 : α)) = 1 := by
      rw [smallest, first, foldl_replicate (f := smaller) (ite_self 1)]
    rw [large, small, Unital.mul_one]
    exact decide_eq_true Unital.one_sub_one_le

namespace Stage

/-- Without a pass there is nothing to rectify. -/
theorem correction?_start (cones : Cone α) (d : Data (DataMatrix α) α) :
    (start d).correction? cones = none := by
  have unchanged := Cone.corrected_of_uniform (c := cones) (e := (start d).E)
    (Array.replicate (start d).E.size 1) fun part within =>
      isUniform_of_ones fun x hx => (Array.mem_replicate.1 (within x hx)).2
  simp [correction?, Cone.corrections, unchanged]

theorem finished_zero (l : Limiter α) (cones : Cone α) (d : Data (DataMatrix α) α) :
    (start d).finished l cones 0 = start d := by
  simp [finished, passes, Stage.rectified, correction?_start]

end Stage

end ConicScaling
