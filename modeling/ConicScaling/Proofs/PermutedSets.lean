import ConicScaling.Proofs.Zeros

/-!
# Sets in another order

Rows of a box may trade places if its bounds do. The rows that have to be scaled alike stay where
they are, so a rectification finds the same corrections, and sets that are scaled by factors which
move with the rows agree up to order again.
-/
namespace ConicScaling

variable {m : Nat} {rows : Equiv.Perm (Fin m)}

/-! ## Single sets -/

namespace Block

/-- Two sets from a given row on, where row `rows k` of the first one has become row `k` of the
second one. Only boxes tell their rows apart. -/
inductive Permuted (rows : Equiv.Perm (Fin m)) (start : Nat) : Block ℝ → Block ℝ → Prop
  | box {lower upper lower' upper' : Array ℝ} (sizeLower : lower'.size = lower.size)
      (sizeUpper : upper'.size = upper.size)
      (bounds : ∀ k : Fin m, start ≤ k → k < start + lower.size →
        lower'.getD (k - start) 0 = lower.getD (rows k - start) 0 ∧
          upper'.getD (k - start) 0 = upper.getD (rows k - start) 0) :
      Permuted rows start (box lower upper) (box lower' upper')
  | same {b : Block ℝ} (unbounded : b.bounds? = none) : Permuted rows start b b

variable {start : Nat} {b b' : Block ℝ}

theorem Permuted.dim (h : b.Permuted rows start b') : b'.dim = b.dim := by
  cases h with
  | box sizeLower => exact sizeLower
  | same => rfl

theorem Permuted.uniformScaling (h : b.Permuted rows start b') :
    b'.uniformScaling = b.uniformScaling := by
  cases h <;> rfl

theorem scaled_of_unbounded (unbounded : b.bounds? = none) (e : Array ℝ) : b.scaled e = b := by
  cases b with
  | box => cases unbounded
  | _ => rfl

theorem getD_times (u v : Array ℝ) (k : Nat) :
    (Diagonal.times u v).getD k 0 = v.getD k 0 * u.getD k 0 := by
  by_cases left : k < u.size <;> by_cases right : k < v.size <;>
    simp [Diagonal.times, left, right]

theorem getD_extract {e : Array ℝ} {start stop k : Nat} (low : start ≤ k) (high : k < stop) :
    (e.extract start stop).getD (k - start) 0 = e.getD k 0 := by
  simp only [Array.getD_eq_getD_getElem?, Array.getElem?_extract]
  by_cases inside : k < e.size
  · rw [if_pos (by omega), Nat.add_sub_cancel' low]
  · rw [if_neg (by omega), Array.getElem?_eq_none (by omega)]

/-- Bounds are multiplied by the factors of the rows that they have gone to. -/
theorem Permuted.scaled (h : b.Permuted rows start b') {e e' : Array ℝ}
    (size : e.size = m) (size' : e'.size = m) (moved : toVector e' m = toVector e m ∘ rows)
    (within : ∀ k : Fin m, start ≤ k → k < start + b.dim →
      start ≤ rows k ∧ rows k < start + b.dim) :
    (b.scaled (e.extract start (start + b.dim))).Permuted rows start
      (b'.scaled (e'.extract start (start + b'.dim))) := by
  rw [h.dim]
  cases h with
  | same unbounded =>
    rw [scaled_of_unbounded unbounded, scaled_of_unbounded unbounded]
    exact .same unbounded
  | @box lower upper lower' upper' sizeLower sizeUpper bounds =>
    refine .box (by simp [Diagonal.times, sizeLower, size, size'])
      (by simp [Diagonal.times, sizeUpper, size, size']) fun k low high => ?_
    have own : (k : Nat) < start + lower.size := by
      simp only [Diagonal.times, Array.size_zipWith] at high
      omega
    have inside := within k low own
    have factor : e'.getD k 0 = e.getD (rows k) 0 := congrFun moved k
    have same := bounds k low own
    have before : (e.extract start (start + lower.size)).getD (rows k - start) 0 =
        e.getD (rows k) 0 := getD_extract inside.1 inside.2
    have after : (e'.extract start (start + lower.size)).getD (k - start) 0 = e'.getD k 0 :=
      getD_extract low own
    simp only [getD_times, Block.dim, before, after, same, factor, and_self]

/-- What a rectification leaves depends on the factors of the sets that need their rows scaled
alike, and on no bounds. -/
theorem correctedFrom_of_forall₂ {e e' work : Array ℝ} {start : Nat} {bs bs' : List (Block ℝ)}
    (same : List.Forall₂ (fun b b' => b'.dim = b.dim ∧ b'.uniformScaling = b.uniformScaling) bs bs')
    (tied : ∀ i b, (i, b) ∈ placed start bs → b.uniformScaling = true →
      e'.extract i (i + b.dim) = e.extract i (i + b.dim)) :
    correctedFrom e' work start bs' = correctedFrom e work start bs := by
  induction same generalizing start with
  | nil => rfl
  | @cons b b' bs bs' first _ ih =>
    have own :
        b'.corrected (e'.extract start (start + b.dim)) (work.extract start (start + b.dim)) =
        b.corrected (e.extract start (start + b.dim)) (work.extract start (start + b.dim)) := by
      cases needed : b.uniformScaling with
      | false => simp [corrected, first.2, needed]
      | true => simp [corrected, first.2, needed, tied start b List.mem_cons_self needed]
    have rest :
        correctedFrom e' work (start + b.dim) bs' = correctedFrom e work (start + b.dim) bs :=
      ih fun i c placed => tied i c (List.mem_cons_of_mem _ placed)
    simp only [correctedFrom, first.1, own, rest]

end Block

/-! ## Products of sets -/

namespace Cone

/-- Two products of sets at the same places, where row `rows k` of the first one has become row `k`
of the second one. -/
def Permuted (rows : Equiv.Perm (Fin m)) (c c' : Cone ℝ) : Prop :=
  List.Forall₂ (fun x y => y.1 = x.1 ∧ x.2.Permuted rows x.1 y.2) c.placed c'.placed

/-- Whether rows only move within single sets, and only within such that let every row have its own
factor. -/
structure Confines (c : Cone ℝ) (rows : Equiv.Perm (Fin m)) : Prop where
  within : ∀ i b, (i, b) ∈ c.placed → ∀ k : Fin m, i ≤ k → k < i + b.dim →
    i ≤ rows k ∧ rows k < i + b.dim
  fixed : ∀ k : Fin m, c.Ties k → rows k = k

variable {c c' : Cone ℝ}

/-- The factors that a rectification finds stay where they are: rows that it corrects do not move,
and the others go to rows that it does not correct either. -/
theorem Confines.toVector_corrections (h : c.Confines rows) {e : Array ℝ}
    (small : c.extent < countLimit) (total : c.extent = m) (size : e.size = m)
    (positive : ∀ x ∈ e, 0 < x) :
    toVector (c.corrections e).2 m ∘ rows = toVector (c.corrections e).2 m := by
  funext k
  rw [Function.comp_apply]
  by_cases tied : c.Ties k
  · rw [h.fixed k tied]
  · have tied' : ¬ c.Ties (rows k) := by
      intro there
      have back : rows k = k := rows.injective (h.fixed (rows k) there)
      exact tied (back ▸ there)
    have length : (c.corrections e).2.size = m := by simp [corrections, size]
    rw [toVector_eq_weight length, toVector_eq_weight length,
      weight_corrections small (size.trans total.symm) positive tied,
      weight_corrections small (size.trans total.symm) positive tied']

namespace Permuted

variable (h : c.Permuted rows c')

include h

theorem leaves : List.Forall₂
    (fun b b' => b'.dim = b.dim ∧ b'.uniformScaling = b.uniformScaling) c.leaves c'.leaves := by
  rw [← Block.map_snd_placed 0 c.leaves, ← Block.map_snd_placed 0 c'.leaves,
    List.forall₂_map_left_iff, List.forall₂_map_right_iff]
  exact h.imp fun x y same => ⟨same.2.dim, same.2.uniformScaling⟩

theorem map_leaves {β : Type} {f : Block ℝ → β}
    (same : ∀ b b' : Block ℝ, b'.dim = b.dim ∧ b'.uniformScaling = b.uniformScaling → f b' = f b) :
    c'.leaves.map f = c.leaves.map f := by
  rw [← List.forall₂_eq_eq_eq, List.forall₂_map_left_iff, List.forall₂_map_right_iff]
  exact (h.leaves.imp same).flip

theorem extent : c'.extent = c.extent := by
  rw [Cone.extent, Cone.extent, h.map_leaves fun _ _ same => same.1]

theorem uniformScaling : c'.uniformScaling = c.uniformScaling := by
  have same := congrArg (·.any id) (h.map_leaves fun _ _ same => same.2)
  rw [uniformScaling_eq_any, uniformScaling_eq_any]
  simpa only [List.any_map, Function.id_comp] using same

section Corrections

variable {e e' : Array ℝ} (small : c.extent < countLimit) (total : c.extent = m)
  (size : e.size = m) (size' : e'.size = m) (moved : toVector e' m = toVector e m ∘ rows)
  (confined : c.Confines rows)

include small total size size' moved confined

/-- Both products are rectified alike. -/
theorem corrections : c'.corrections e' = c.corrections e := by
  rw [corrections_eq (h.extent.trans_lt small) (size'.trans (h.extent.trans total).symm),
    corrections_eq small (size.trans total.symm), size, size']
  refine Block.correctedFrom_of_forall₂ h.leaves fun i b placed needed => ?_
  have inside : i + b.dim ≤ m := total ▸ Cone.le_extent_of_placed placed
  refine Array.ext (by simp [size, size']) fun k left right => ?_
  have bound : k < b.dim := by
    simp only [Array.size_extract, size'] at left
    omega
  have row : i + k < m := by omega
  have tied : c.Ties (i + k) :=
    ⟨i, b, placed, needed, Nat.le_add_right _ _, Nat.add_lt_add_left bound i⟩
  have entry := congrFun moved ⟨i + k, row⟩
  rw [Function.comp_apply, confined.fixed ⟨i + k, row⟩ tied] at entry
  simpa [toVector, size, size', row] using entry

end Corrections

/-- Scaling the sets by factors that move with the rows. -/
theorem scaled {e e' : Array ℝ} (small : c.extent < countLimit) (total : c.extent = m)
    (size : e.size = m) (size' : e'.size = m) (moved : toVector e' m = toVector e m ∘ rows)
    (confined : c.Confines rows) : (c.scaled e).Permuted rows (c'.scaled e') := by
  rw [Permuted, placed_scaled (size.trans total.symm) small,
    placed_scaled (size'.trans (h.extent.trans total).symm) (h.extent.trans_lt small),
    List.forall₂_map_left_iff, List.forall₂_map_right_iff]
  obtain ⟨length, each⟩ := List.forall₂_iff_get.1 h
  refine List.forall₂_iff_get.2 ⟨length, fun k inside inside' => ?_⟩
  have within := confined.within _ _ (List.get_mem c.placed ⟨k, inside⟩)
  have same := each k inside inside'
  generalize c.placed.get ⟨k, inside⟩ = own at within same ⊢
  generalize c'.placed.get ⟨k, inside'⟩ = own' at same ⊢
  obtain ⟨i, b⟩ := own
  obtain ⟨i', b'⟩ := own'
  obtain ⟨rfl, moves⟩ := same
  exact ⟨rfl, moves.scaled size size' moved within⟩

end Permuted

end Cone

end ConicScaling
