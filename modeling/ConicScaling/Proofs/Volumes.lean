import ConicScaling.Proofs.Evenness

/-!
# Volumes of blocks

A block that is brought to one factor takes the geometric mean, whose power is the product of the
factors that it had. So the volume of the block does not change, and neither does that of any other
block, as long as blocks do not share rows. They do share rows if the counts of a product wrap.
-/
namespace ConicScaling

/-! ## Geometric means -/

/-- The geometric mean is the root of the product. -/
theorem geometricMean_pow {e : Array ℝ} (positive : ∀ x ∈ e, 0 < x) :
    geometricMean e ^ e.size = e.toList.prod := by
  rcases Nat.eq_zero_or_pos e.size with empty | some
  · simp [Array.size_eq_zero_iff.1 empty]
  · have count : (e.size : ℝ) ≠ 0 := by
      exact_mod_cast some.ne'
    have logs : (e.size : ℝ) * mean (e.map Scalar.log) = (e.toList.map Real.log).sum := by
      rw [mean_real, Array.size_map, Array.toList_map, mul_div_cancel₀ _ count]
      rfl
    calc geometricMean e ^ e.size
        = Real.exp (e.size * mean (e.map Scalar.log)) := (Real.exp_nat_mul _ _).symm
      _ = (e.toList.map fun x => Real.exp (Real.log x)).prod := by
        rw [logs, Real.exp_list_sum, List.map_map]
        rfl
      _ = e.toList.prod := by
        rw [List.map_congr_left fun x hx => Real.exp_log (positive x (Array.mem_toList_iff.1 hx)),
          List.map_id']

/-- The factors of a block that was brought to one factor. -/
theorem eq_geometricMean_of_mem_times {e : Array ℝ} (positive : ∀ x ∈ e, 0 < x) :
    ∀ x ∈ Diagonal.times (correction e) e, x = geometricMean e :=
  forall_mem_times (mul_correction positive)

theorem size_times_correction (e : Array ℝ) : (Diagonal.times (correction e) e).size = e.size :=
  Diagonal.size_times (by simp [correction])

theorem prod_times_correction {e : Array ℝ} (positive : ∀ x ∈ e, 0 < x) :
    (Diagonal.times (correction e) e).toList.prod = e.toList.prod := by
  have level : ∀ x ∈ (Diagonal.times (correction e) e).toList, x = geometricMean e := fun x hx =>
    eq_geometricMean_of_mem_times positive x (Array.mem_toList_iff.1 hx)
  rw [List.prod_eq_pow_card _ _ level, Array.length_toList, size_times_correction,
    geometricMean_pow positive]

/-- The factors `e'` are all `r`, which lies between the smallest and the largest of the factors
`e`, and have the same product. -/
structure Levelled (e e' : Array ℝ) (r : ℝ) : Prop where
  size : e'.size = e.size
  level : ∀ x ∈ e', x = r
  volume : e'.toList.prod = e.toList.prod
  between : ∃ low high, IsLeast {x | x ∈ e} low ∧ IsGreatest {x | x ∈ e} high ∧ low ≤ r ∧ r ≤ high

theorem levelled_correction {e : Array ℝ} (positive : ∀ x ∈ e, 0 < x) (nonempty : 0 < e.size) :
    Levelled e (Diagonal.times (correction e) e) (geometricMean e) where
  size := size_times_correction e
  level := eq_geometricMean_of_mem_times positive
  volume := prod_times_correction positive
  between := by
    have least := isLeast_smallest nonempty
    have greatest := isGreatest_largest nonempty
    have between := geometricMean_mem_Icc (Array.size_pos_iff.1 nonempty) (positive _ least.1)
      fun x hx => ⟨least.2 hx, greatest.2 hx⟩
    exact ⟨_, _, least, greatest, between.1, between.2⟩

/-- A rectification that tells of a change found factors that differ, and left their correction. -/
theorem of_run_rectifyVector {e work : Array ℝ} {journal : Journal ℝ} {d : Draft ℝ}
    (ran : (rectifyVector e).run ⟨work, journal⟩ = .ok true d) :
    1 < e.size ∧ d.work = correction e := by
  cases uniform : isUniform e with
  | true =>
    rw [rectifyVector, uniform] at ran
    cases ran
  | false =>
    constructor
    · by_contra few
      rw [isUniform, if_pos (by omega)] at uniform
      cases uniform
    · by_cases size : e.size = work.size
      · rw [run_rectifyVector size, uniform] at ran
        cases ran
        rfl
      · have refused : (rectifyVector e).run ⟨work, journal⟩ =
            .error .lengthMismatch ⟨work, journal⟩ := by
          rw [rectifyVector, uniform]
          exact bind_of_error (modify?_of_error (if_neg size))
        rw [refused] at ran
        cases ran

/-! ## Parts of a vector -/

namespace Block

variable {β δ : Type}

/-- Within a range, rows are counted from where the range starts. -/
theorem map_placed_extract (v : Array β) (low high start : Nat) (bs : List (Block δ))
    (within : low + start + (bs.map dim).sum ≤ high) :
    (placed start bs).map (fun p => (v.extract low high).extract p.1 (p.1 + p.2.dim)) =
      (placed (low + start) bs).map fun p => v.extract p.1 (p.1 + p.2.dim) := by
  induction bs generalizing start with
  | nil => rfl
  | cons b bs ih =>
    simp only [List.map_cons, List.sum_cons] at within
    have rest := ih (start + b.dim) (by omega)
    have own : (v.extract low high).extract start (start + b.dim) =
        v.extract (low + start) (low + start + b.dim) := by
      rw [Array.extract_extract, Nat.min_eq_left (by omega), Nat.add_assoc]
    rw [placed, placed, List.map_cons, List.map_cons, rest, own, Nat.add_assoc]

end Block

namespace Cone

variable {α β : Type}

mutual

/-- What each elementary set reads of a vector, from left to right. -/
def parts (v : Array β) : Cone α → List (Array β)
  | block _ => [v]
  | product members => partsOf v members (rows members)

def partsOf (v : Array β) : List (Cone α) → List RowRange → List (Array β)
  | c :: cs, rows :: rest => c.parts (rows.read v) ++ partsOf v cs rest
  | _, _ => []

end

theorem partsOf_consecutive {v : Array β} (small : v.size < countLimit) (start : Nat)
    (members : List (Cone α)) (within : start + (members.map extent).sum ≤ v.size)
    (each : ∀ c ∈ members, ∀ v : Array β, v.size = c.extent →
      c.parts v = c.placed.map fun p => v.extract p.1 (p.1 + p.2.dim)) :
    partsOf v members (RowRange.consecutive (Int64.ofNat start)
        ((members.map extent).map Int64.ofNat)) =
      (Block.placed start (leavesOf members)).map fun p => v.extract p.1 (p.1 + p.2.dim) := by
  induction members generalizing start with
  | nil => rfl
  | cons c cs ih =>
    simp only [List.map_cons, List.sum_cons] at within
    have order : start ≤ start + c.extent := Nat.le_add_right _ _
    have size : (v.extract start (start + c.extent)).size = c.extent := by
      rw [Array.size_extract]
      omega
    have own := (each c (by simp) _ size).trans
      (Block.map_placed_extract v start (start + c.extent) 0 c.leaves (by simp [extent]))
    rw [List.map_cons, RowRange.consecutive_ofNat, partsOf,
      RowRange.read_between order (by omega) small, own,
      ih (start + c.extent) (by omega) fun d hd => each d (by simp [hd]), leavesOf,
      Block.placed_append, List.map_append]
    rfl

/-- While no count wraps, elementary sets read the rows that they are placed on. -/
theorem parts_eq_placed {c : Cone α} (small : c.extent < countLimit) {v : Array β}
    (size : v.size = c.extent) :
    c.parts v = c.placed.map fun p => v.extract p.1 (p.1 + p.2.dim) := by
  induction c using induction generalizing v with
  | block b =>
    rw [extent_block] at size
    simp [parts, placed, leaves, Block.placed, ← size]
  | product members ih =>
    rw [parts, rows_eq_consecutive small, placed, leaves]
    refine partsOf_consecutive (size ▸ small) 0 members ?_ fun c hc v size =>
      ih c hc (Nat.lt_of_le_of_lt (extent_le_of_mem hc) small) size
    rw [size, extent_product, Nat.zero_add]

/-- Rectifying the factors `e` succeeds, and applying what it leaves changes the product of the
factors of no elementary set. -/
def KeepsVolumes (c : Cone ℝ) (e : Array ℝ) : Prop :=
  ∀ (work : Array ℝ) (journal : Journal ℝ), work.size = e.size → ∃ changed left after,
    (c.rectifySets e).run ⟨work, journal⟩ = .ok changed ⟨left, after⟩ ∧
    (c.parts (Diagonal.times left e)).map (fun part => part.toList.prod) =
      (c.parts e).map fun part => part.toList.prod

theorem prod_times_corrections {c : Cone ℝ} {e : Array ℝ} (small : c.extent < countLimit)
    (size : e.size = c.extent) (positive : ∀ x ∈ e, 0 < x) {i : Nat} {b : Block ℝ}
    (placed : (i, b) ∈ c.placed) :
    ((Diagonal.times (c.corrections e).2 e).extract i (i + b.dim)).toList.prod =
      (e.extract i (i + b.dim)).toList.prod := by
  rw [extract_times]
  by_cases distorted : c.Distorted e i b
  · rw [extract_corrections_of_distorted small size positive distorted]
    exact prod_times_correction fun x hx => positive x (mem_of_mem_extract hx)
  · rw [extract_corrections_of_not_distorted small size positive placed distorted,
      times_replicate_one (size_extract_of_placed size placed)]

theorem keepsVolumes {c : Cone ℝ} {e : Array ℝ} (small : c.extent < countLimit)
    (size : e.size = c.extent) (positive : ∀ x ∈ e, 0 < x) : c.KeepsVolumes e := by
  intro work journal workSize
  obtain ⟨after, -, ran⟩ := run_rectifySets (c := c) workSize.symm journal
  refine ⟨_, _, after, ran, ?_⟩
  have scaled : (Diagonal.times (c.corrections e).2 e).size = c.extent := by
    rw [Diagonal.size_times (by simp [corrections]), size]
  rw [parts_eq_placed small scaled, parts_eq_placed small size, List.map_map, List.map_map]
  exact List.map_congr_left fun p placed => prod_times_corrections small size positive placed

/-- Rectifying a vector of positive factors leaves one factor with the same volume. Where the vector
holds the factors of a product whose rows can be counted, rectifying them changes the volume of no
elementary set. -/
theorem rectification_keeps_volumes {e : Array ℝ} (positive : ∀ x ∈ e, 0 < x) :
    (∀ (work : Array ℝ) (journal : Journal ℝ) (d : Draft ℝ),
      (rectifyVector e).run ⟨work, journal⟩ = .ok true d →
        ∃ r, Levelled e (Diagonal.times d.work e) r) ∧
    ∀ c : Cone ℝ, c.extent < countLimit → e.size = c.extent → c.KeepsVolumes e := by
  constructor
  · intro work journal d ran
    obtain ⟨several, left⟩ := of_run_rectifyVector ran
    rw [left]
    exact ⟨_, levelled_correction positive (by omega)⟩
  · intro c small size
    exact keepsVolumes small size positive

theorem isUniform_one_four : isUniform (#[1, 4] : Array ℝ) = false := by
  simp only [isUniform, largest, smallest, uniformTolerance_real]
  norm_num

/-- A second-order cone between a row that has to be zero and a box. -/
def stacked : Cone ℝ :=
  product [block (.zero 1), product [block (.secondOrder 2), block (.box #[0] #[1])]]

theorem rectification_keeps_volumes_stacked :
    (∀ x ∈ (#[1, 4] : Array ℝ), 0 < x) ∧
    (rectifyVector #[1, 4]).run ⟨#[0, 0], #[]⟩ = .ok true ⟨correction (#[1, 4] : Array ℝ), #[]⟩ ∧
    (∃ r, Levelled #[1, 4] (Diagonal.times (correction #[1, 4]) #[1, 4]) r) ∧
    stacked.extent < countLimit ∧ (∀ x ∈ (#[7, 1, 4, 3] : Array ℝ), 0 < x) ∧
    stacked.KeepsVolumes #[7, 1, 4, 3] := by
  have positive : ∀ x ∈ (#[1, 4] : Array ℝ), 0 < x := by simp
  have positive' : ∀ x ∈ (#[7, 1, 4, 3] : Array ℝ), 0 < x := by simp
  have sizes : (#[1, 4] : Array ℝ).size = (#[0, 0] : Array ℝ).size := rfl
  have ran := run_rectifyVector sizes #[]
  rw [isUniform_one_four] at ran
  have small : stacked.extent < countLimit := by decide
  exact ⟨positive, ran, (rectification_keeps_volumes positive).1 _ _ _ ran, small, positive',
    (rectification_keeps_volumes positive').2 stacked small rfl⟩

/-! ## Blocks that share rows -/

/-- Sets whose rows, in 64 bits, add up to two. The first one reads both, the last two read one
each. -/
def overlapping : List (Cone ℝ) :=
  block (.secondOrder (2 ^ 63 - 1)) ::
    [block (.zero (2 ^ 63 - 1)), block (.zero 2), block (.zero 1), block (.zero 1)]

theorem rows_overlapping : rows overlapping =
    ⟨0, Int64.maxValue⟩ :: [⟨Int64.maxValue, -2⟩, ⟨-2, 0⟩, ⟨0, 1⟩, ⟨1, 2⟩] := rfl

theorem parts_overlapping (x y : ℝ) :
    (product overlapping).parts #[x, y] = [#[x, y], #[], #[], #[x], #[y]] := by
  rw [parts, rows_overlapping]
  rfl

theorem corrections_overlapping :
    (product overlapping).corrections #[1, 4] = (true, correction #[1, 4]) := by
  have whole : (⟨0, Int64.maxValue⟩ : RowRange).read (#[1, 4] : Array ℝ) = #[1, 4] := rfl
  have written (part : Array ℝ) :
      (⟨0, Int64.maxValue⟩ : RowRange).write part (Array.replicate 2 1) = part := by
    have low : (⟨0, Int64.maxValue⟩ : RowRange).low (Array.replicate 2 (1 : ℝ)) = 0 := rfl
    have high : (⟨0, Int64.maxValue⟩ : RowRange).high (Array.replicate 2 (1 : ℝ)) = 2 := rfl
    simp [RowRange.write, low, high]
  -- the sets after the first one correct nothing
  rw [corrections, corrected, rows_overlapping, overlapping, correctedMembers,
    correctedMembers_of_uniform _ _ (by simp [corrected, Block.uniformScaling]), corrected, whole,
    isUniform_one_four]
  exact congrArg (Prod.mk true) (written _)

/-- What is written for the first set changes the factors of the last two, which need no
correction. -/
theorem not_keepsVolumes_overlapping :
    product? overlapping = .ok (product overlapping) ∧ (product overlapping).dim = 2 ∧
      (∀ x ∈ (#[1, 4] : Array ℝ), 0 < x) ∧ ¬ (product overlapping).KeepsVolumes #[1, 4] := by
  refine ⟨rfl, rfl, by simp, fun keeps => ?_⟩
  obtain ⟨changed, left, after, ran, same⟩ := keeps #[1, 1] #[] rfl
  have sizes : (#[1, 4] : Array ℝ).size = (#[1, 1] : Array ℝ).size := rfl
  obtain ⟨after', -, ran'⟩ := run_rectifySets (c := product overlapping) sizes #[]
  rw [corrections_overlapping, ran] at ran'
  obtain rfl : left = correction #[1, 4] := by grind
  have levelled : Diagonal.times (correction #[1, 4]) #[1, 4] =
      #[geometricMean #[1, 4], geometricMean (#[1, 4] : Array ℝ)] := by
    simp [Diagonal.times, correction]
    field_simp
  rw [levelled, parts_overlapping, parts_overlapping] at same
  simp only [List.map_cons, List.map_nil, List.prod_cons, List.prod_nil, mul_one, List.cons.injEq]
    at same
  -- the two rows would have to keep their factors, and have the same one
  grind

end Cone

end ConicScaling
