import ConicScaling.Proofs.Corrections
import ConicScaling.Proofs.Nesting
import ConicScaling.Proofs.Transform

/-!
# Blocks scaled alike

A rectification changes the rows of those blocks that need them scaled alike and do not have them
so, and no others. Each of these blocks is left with the geometric mean of its factors, so a second
rectification finds nothing to change, and equilibration ends with every block as it needs to be.
-/
namespace ConicScaling

variable {α : Type}

/-! ## Blocks in their places -/

namespace Block

theorem placed_within {start : Nat} {bs : List (Block α)} {i : Nat} {b : Block α}
    (h : (i, b) ∈ placed start bs) : start ≤ i ∧ i + b.dim ≤ start + (bs.map dim).sum := by
  induction bs generalizing start with
  | nil => cases h
  | cons first bs ih =>
    simp only [List.map_cons, List.sum_cons]
    rcases List.mem_cons.1 h with own | rest
    · cases own
      omega
    · have later := ih rest
      omega

theorem mem_of_placed {start : Nat} {bs : List (Block α)} {i : Nat} {b : Block α}
    (h : (i, b) ∈ placed start bs) : b ∈ bs := by
  induction bs generalizing start with
  | nil => cases h
  | cons first bs ih =>
    rcases List.mem_cons.1 h with own | rest
    · cases own
      exact List.mem_cons_self
    · exact List.mem_cons_of_mem _ (ih rest)

/-- Every row is in some block. -/
theorem exists_placed (start : Nat) {k : Nat} {bs : List (Block α)} (low : start ≤ k)
    (high : k < start + (bs.map dim).sum) :
    ∃ i b, (i, b) ∈ placed start bs ∧ i ≤ k ∧ k < i + b.dim := by
  induction bs generalizing start with
  | nil =>
    simp only [List.map_nil, List.sum_nil] at high
    omega
  | cons first bs ih =>
    simp only [List.map_cons, List.sum_cons] at high
    by_cases own : k < start + first.dim
    · exact ⟨start, first, List.mem_cons_self, low, own⟩
    · obtain ⟨i, b, h, inside⟩ := ih (start + first.dim) (by omega) (by omega)
      exact ⟨i, b, List.mem_cons_of_mem _ h, inside⟩

variable [Scalar α]

@[simp] theorem uniformScaling_scaled (e : Array α) (b : Block α) :
    (b.scaled e).uniformScaling = b.uniformScaling := by
  cases b <;> rfl

theorem scaled_of_uniformScaling {b : Block α} (needed : b.uniformScaling = true) (e : Array α) :
    b.scaled e = b := by
  cases b with
  | box => cases needed
  | _ => rfl

@[simp] theorem fst_corrected (e work : Array α) (b : Block α) :
    (b.corrected e work).1 = (b.uniformScaling && !isUniform e) := by
  unfold corrected
  split <;> simp_all

/-- A rectification finds something to change if some block does. -/
theorem fst_correctedFrom (e work : Array α) (start : Nat) (bs : List (Block α)) :
    (correctedFrom e work start bs).1 = true ↔ ∃ i b, (i, b) ∈ placed start bs ∧
      (b.corrected (e.extract i (i + b.dim)) (work.extract i (i + b.dim))).1 = true := by
  induction bs generalizing start with
  | nil => simp [correctedFrom, placed]
  | cons first bs ih => simp [correctedFrom, placed, ih, or_and_right, exists_or]

/-- Each block leaves in its own rows what it leaves alone. -/
theorem extract_correctedFrom {e work : Array α} (size : e.size = work.size) (start : Nat)
    {bs : List (Block α)} (within : start + (bs.map dim).sum ≤ work.size) {i : Nat} {b : Block α}
    (h : (i, b) ∈ placed start bs) :
    (correctedFrom e work start bs).2.extract (i - start) (i - start + b.dim) =
      (b.corrected (e.extract i (i + b.dim)) (work.extract i (i + b.dim))).2 := by
  induction bs generalizing start with
  | nil => cases h
  | cons first bs ih =>
    simp only [List.map_cons, List.sum_cons] at within
    have own : (first.corrected (e.extract start (start + first.dim))
        (work.extract start (start + first.dim))).2.size = first.dim := by
      rw [size_corrected (by simp [size]), Array.size_extract]
      omega
    simp only [correctedFrom, Array.extract_append, own]
    rcases List.mem_cons.1 h with here | later
    · cases here
      rw [Nat.sub_self, Nat.zero_add, Nat.sub_self, Array.extract_eq_self_of_le own.le]
      simp
    · have after := (placed_within later).1
      have rest := ih (start + first.dim) (by omega) later
      rw [Array.extract_empty_of_size_le_start (by omega), Array.empty_append,
        show i - start - first.dim = i - (start + first.dim) by omega,
        show i - start + b.dim - first.dim = i - (start + first.dim) + b.dim by omega]
      exact rest

end Block

/-! ## Vectors with even entries -/

/-- The largest entry exceeds the smallest by no more than the tolerated share of it. -/
def Uniform (e : Array ℝ) : Prop :=
  ∀ high low, IsGreatest {x | x ∈ e} high → IsLeast {x | x ∈ e} low →
    high - low ≤ uniformTolerance * high

theorem isGreatest_foldl {β : Type} [LinearOrder β] (l : List β) (a : β) :
    IsGreatest {x | x ∈ a :: l} (l.foldl max a) := by
  induction l generalizing a with
  | nil => simp
  | cons b l ih =>
    obtain ⟨member, bound⟩ := ih (max a b)
    constructor
    · change l.foldl max (max a b) ∈ a :: b :: l
      rcases List.mem_cons.1 member with first | later
      · rw [first]
        rcases max_choice a b with same | same <;> simp [same]
      · simp [later]
    · intro x hx
      have start : max a b ≤ l.foldl max (max a b) := bound List.mem_cons_self
      rcases List.mem_cons.1 hx with rfl | hx
      · exact (le_max_left _ _).trans start
      · rcases List.mem_cons.1 hx with rfl | later
        · exact (le_max_right _ _).trans start
        · exact bound (List.mem_cons_of_mem _ later)

theorem isLeast_foldl {β : Type} [LinearOrder β] (l : List β) (a : β) :
    IsLeast {x | x ∈ a :: l} (l.foldl min a) :=
  isGreatest_foldl (β := βᵒᵈ) l a

section Extremes

variable {e : Array ℝ} (nonempty : 0 < e.size)

include nonempty

theorem setOf_mem_getD_cons : {x | x ∈ e.getD 0 0 :: e.toList} = {x | x ∈ e} := by
  have first : e.getD 0 0 ∈ e := by simp [nonempty]
  ext x
  simp only [Set.mem_ofPred_eq, List.mem_cons, Array.mem_toList_iff, or_iff_right_iff_imp]
  rintro rfl
  exact first

theorem isGreatest_largest : IsGreatest {x | x ∈ e} (largest e) := by
  have larger : (Scalar.larger : ℝ → ℝ → ℝ) = max := by
    funext x y
    exact Scalar.larger_real x y
  have folded : largest e = e.toList.foldl max (e.getD 0 0) := by
    rw [largest, ← Array.foldl_toList, larger]
  rw [folded, ← setOf_mem_getD_cons nonempty]
  exact isGreatest_foldl _ _

theorem isLeast_smallest : IsLeast {x | x ∈ e} (smallest e) := by
  have smaller : (Scalar.smaller : ℝ → ℝ → ℝ) = min := by
    funext x y
    exact Scalar.smaller_real x y
  have folded : smallest e = e.toList.foldl min (e.getD 0 0) := by
    rw [smallest, ← Array.foldl_toList, smaller]
  rw [folded, ← setOf_mem_getD_cons nonempty]
  exact isLeast_foldl _ _

end Extremes

theorem uniformTolerance_real : (uniformTolerance : ℝ) = 10 ^ (-14 : ℤ) := by
  simp [uniformTolerance, Scalar.decimal]

theorem uniformTolerance_nonneg : (0 : ℝ) ≤ uniformTolerance := by
  rw [uniformTolerance_real]
  positivity

theorem isUniform_iff {e : Array ℝ} (positive : ∀ x ∈ e, 0 < x) :
    isUniform e = true ↔ Uniform e := by
  unfold isUniform
  split
  · rename_i few
    refine iff_of_true rfl fun high low greatest least => ?_
    -- the largest and the smallest of at most one entry are the same
    have same : high = low := by
      obtain ⟨i, hi, rfl⟩ := Array.mem_iff_getElem.1 greatest.1
      obtain ⟨j, hj, rfl⟩ := Array.mem_iff_getElem.1 least.1
      congr 1
      omega
    rw [same, sub_self]
    exact mul_nonneg uniformTolerance_nonneg (positive low least.1).le
  · have nonempty : 0 < e.size := by omega
    rw [decide_eq_true_iff]
    constructor
    · intro near high low greatest least
      rwa [greatest.unique (isGreatest_largest nonempty), least.unique (isLeast_smallest nonempty)]
    · intro uniform
      exact uniform _ _ (isGreatest_largest nonempty) (isLeast_smallest nonempty)

theorem uniform_of_forall_eq {e : Array ℝ} {a : ℝ} (nonneg : 0 ≤ a) (same : ∀ x ∈ e, x = a) :
    Uniform e := by
  intro high low greatest least
  rw [same high greatest.1, same low least.1, sub_self]
  exact mul_nonneg uniformTolerance_nonneg nonneg

/-! ## What a rectification leaves -/

theorem extract_times [Scalar α] (d v : Array α) (i j : Nat) : (Diagonal.times d v).extract i j =
    Diagonal.times (d.extract i j) (v.extract i j) := by
  rw [Diagonal.times, Array.extract_zipWith, Diagonal.times]

namespace Cone

/-- Elementary sets lie within the rows of the set. -/
theorem le_extent_of_placed {c : Cone α} {i : Nat} {b : Block α} (placed : (i, b) ∈ c.placed) :
    i + b.dim ≤ c.extent := by
  have within := (Block.placed_within placed).2
  rwa [Nat.zero_add] at within

theorem size_extract_of_placed {β : Type} {c : Cone α} {v : Array β} (size : v.size = c.extent)
    {i : Nat} {b : Block α} (placed : (i, b) ∈ c.placed) :
    (v.extract i (i + b.dim)).size = b.dim := by
  have within := le_extent_of_placed placed
  rw [Array.size_extract, size]
  omega

section Extracts

variable [Scalar α] {c : Cone α} {e : Array α} (small : c.extent < countLimit)
  (size : e.size = c.extent)

include small size

theorem corrections_eq : c.corrections e =
    Block.correctedFrom e (Array.replicate e.size 1) 0 c.leaves :=
  corrected_eq_correctedFrom size (by simp [size]) small

theorem extract_corrections {i : Nat} {b : Block α} (placed : (i, b) ∈ c.placed) :
    (c.corrections e).2.extract i (i + b.dim) =
      (b.corrected (e.extract i (i + b.dim)) (Array.replicate b.dim 1)).2 := by
  have within : 0 + (c.leaves.map Block.dim).sum ≤ (Array.replicate e.size (1 : α)).size := by
    rw [Array.size_replicate, size, extent, Nat.zero_add]
  have ones : (Array.replicate e.size (1 : α)).extract i (i + b.dim) =
      Array.replicate b.dim 1 := by
    have inside := le_extent_of_placed placed
    rw [Array.extract_replicate]
    congr 1
    omega
  rw [corrections_eq small size, ← ones]
  exact Block.extract_correctedFrom (by simp) 0 within placed

end Extracts

variable {c : Cone ℝ} {e : Array ℝ}

/-- The elementary set `b`, which starts at row `i`, needs its rows scaled alike, and `e` does not
scale them so. -/
def Distorted (c : Cone ℝ) (e : Array ℝ) (i : Nat) (b : Block ℝ) : Prop :=
  (i, b) ∈ c.placed ∧ b.uniformScaling = true ∧ ¬ Uniform (e.extract i (i + b.dim))

/-- Every elementary set that needs its rows scaled alike has them so. -/
def Settled (c : Cone ℝ) (e : Array ℝ) : Prop :=
  ∀ i b, (i, b) ∈ c.placed → b.uniformScaling = true → Uniform (e.extract i (i + b.dim))

/-- A rectification of the factors `e` that tells whether anything changed and leaves `work`. -/
structure Rectifies (c : Cone ℝ) (e : Array ℝ) (changed : Bool) (work : Array ℝ) : Prop where
  size : work.size = e.size
  /-- Rows outside the distorted sets keep their factors. -/
  untouched : ∀ k, (h : k < work.size) →
    (∀ i b, c.Distorted e i b → ¬ (i ≤ k ∧ k < i + b.dim)) → work[k] = 1
  /-- The factors of a distorted set become their geometric mean. -/
  level : ∀ i b, c.Distorted e i b → ∀ x ∈ (Diagonal.times work e).extract i (i + b.dim),
    x = geometricMean (e.extract i (i + b.dim))
  reported : changed = true ↔ ∃ i b, c.Distorted e i b

section Corrections

variable (small : c.extent < countLimit) (size : e.size = c.extent) (positive : ∀ x ∈ e, 0 < x)

include small size positive

omit small size in
theorem isUniform_extract {i j : Nat} :
    isUniform (e.extract i j) = true ↔ Uniform (e.extract i j) :=
  isUniform_iff fun x hx => positive x (mem_of_mem_extract hx)

theorem extract_corrections_of_distorted {i : Nat} {b : Block ℝ} (distorted : c.Distorted e i b) :
    (c.corrections e).2.extract i (i + b.dim) = correction (e.extract i (i + b.dim)) := by
  obtain ⟨placed, needed, uneven⟩ := distorted
  have differs : isUniform (e.extract i (i + b.dim)) = false := by
    rwa [← isUniform_extract positive, Bool.not_eq_true] at uneven
  rw [extract_corrections small size placed, Block.corrected, needed, differs]
  rfl

theorem extract_corrections_of_not_distorted {i : Nat} {b : Block ℝ} (placed : (i, b) ∈ c.placed)
    (kept : ¬ c.Distorted e i b) :
    (c.corrections e).2.extract i (i + b.dim) = Array.replicate b.dim 1 := by
  rw [extract_corrections small size placed, Block.corrected, if_neg]
  simp only [Bool.and_eq_true, Bool.not_eq_true', not_and, Bool.not_eq_false,
    isUniform_extract positive]
  intro needed
  by_contra uneven
  exact kept ⟨placed, needed, uneven⟩

theorem rectifies_corrections : c.Rectifies e (c.corrections e).1 (c.corrections e).2 where
  size := by simp [corrections]
  untouched := by
    intro k inside outside
    have rows : k < 0 + (c.leaves.map Block.dim).sum := by
      rw [Nat.zero_add, ← extent, ← size]
      simpa [corrections] using inside
    obtain ⟨i, b, placed, low, high⟩ := Block.exists_placed 0 (Nat.zero_le k) rows
    have kept := extract_corrections_of_not_distorted small size positive placed
      fun distorted => outside i b distorted ⟨low, high⟩
    have member := getElem_mem_extract inside low high
    rw [kept] at member
    exact (Array.mem_replicate.1 member).2
  level := by
    intro i b distorted
    have positive' : ∀ x ∈ e.extract i (i + b.dim), 0 < x := fun x hx =>
      positive x (mem_of_mem_extract hx)
    rw [extract_times, extract_corrections_of_distorted small size positive distorted]
    exact forall_mem_times (mul_correction positive')
  reported := by
    rw [corrections_eq small size, Block.fst_correctedFrom]
    refine exists₂_congr fun i b => and_congr_right fun _ => ?_
    rw [Block.fst_corrected, Bool.and_eq_true, Bool.not_eq_true', ← Bool.not_eq_true,
      isUniform_extract positive]

/-- A rectified scaling has nothing left to rectify. -/
theorem settled_times : c.Settled (Diagonal.times (c.corrections e).2 e) := by
  intro i b placed needed
  by_cases distorted : c.Distorted e i b
  · exact uniform_of_forall_eq (Real.exp_pos _).le
      ((rectifies_corrections small size positive).level i b distorted)
  · rw [extract_times, extract_corrections_of_not_distorted small size positive placed distorted,
      times_replicate_one (size_extract_of_placed size placed)]
    by_contra uneven
    exact distorted ⟨placed, needed, uneven⟩

end Corrections

theorem Rectifies.eq_of_settled {changed : Bool} {work : Array ℝ}
    (h : c.Rectifies e changed work) (settled : c.Settled e) :
    (changed, work) = (false, Array.replicate e.size 1) := by
  have undistorted (i : Nat) (b : Block ℝ) : ¬ c.Distorted e i b := by
    rintro ⟨placed, needed, uneven⟩
    exact uneven (settled i b placed needed)
  refine Prod.ext ?_ (Array.eq_replicate_iff.2 ⟨h.size, ?_⟩)
  · rw [← Bool.not_eq_true, h.reported]
    rintro ⟨i, b, distorted⟩
    exact undistorted i b distorted
  · intro x hx
    obtain ⟨k, inside, rfl⟩ := Array.mem_iff_getElem.1 hx
    exact h.untouched k inside fun i b distorted => absurd distorted (undistorted i b)

/-- Scaling the boxes does not concern the sets whose rows have to be scaled alike. -/
theorem Settled.scaled (h : c.Settled e) {e' : Array ℝ} (small : c.extent < countLimit)
    (size : e'.size = c.extent) : (c.scaled e').Settled e := by
  intro i b placed needed
  rw [placed_scaled size small, List.mem_map] at placed
  obtain ⟨⟨j, d⟩, placed, same⟩ := placed
  obtain ⟨rfl, rfl⟩ := Prod.mk.inj same
  rw [Block.uniformScaling_scaled] at needed
  rw [Block.scaled_of_uniformScaling needed]
  exact h j d placed needed

end Cone

/-! ## The scaling that equilibration ends with -/

namespace Stage

variable {s : Stage ℝ} {cones : Cone ℝ} (small : cones.extent < countLimit)
  (size : s.E.size = cones.extent) (positive : ∀ x ∈ s.E, 0 < x)

include small size positive

/-- There is something to correct if and only if some set is distorted. -/
theorem isSome_correction?_iff :
    (s.correction? cones).isSome = true ↔ ∃ i b, cones.Distorted s.E i b := by
  have reported := (Cone.rectifies_corrections small size positive).reported
  constructor
  · intro found
    simp only [correction?, Option.isSome_ite, Bool.and_eq_true] at found
    exact reported.1 found.2
  · rintro ⟨i, b, distorted⟩
    have free : cones.uniformScaling = true := by
      rw [Cone.uniformScaling_eq_any, List.any_eq_true]
      exact ⟨b, Block.mem_of_placed distorted.1, distorted.2.1⟩
    simp [correction?, free, reported.2 ⟨i, b, distorted⟩]

theorem settled_rectified : cones.Settled (s.rectified cones).E := by
  unfold rectified
  cases found : s.correction? cones with
  | some e =>
    rw [eq_of_correction? found]
    exact Cone.settled_times small size positive
  | none =>
    intro i b placed needed
    by_contra uneven
    have some := (isSome_correction?_iff small size positive).2 ⟨i, b, placed, needed, uneven⟩
    rw [found] at some
    cases some

end Stage

namespace Workspace

variable {w : Workspace ℝ}

theorem Valid.settled_equilibrated (valid : w.Valid) (small : w.cones.extent < countLimit) :
    w.equilibrated.cones.Settled w.equilibrated.scaling.E := by
  have last := (Stage.composed_start valid.data).passes w.settings.proper w.settings.passes
  have rows : w.lastPass.E.size = w.cones.extent :=
    last.shaped.sizeE.trans (valid.extent small).symm
  have settled := Stage.settled_rectified small rows last.E_pos
  have final : w.final.E = (w.lastPass.rectified w.cones).E := Stage.E_finished ..
  rw [← final] at settled
  exact settled.scaled small (valid.shaped_final.sizeE.trans (valid.extent small).symm)

theorem run_correctionOf [Scalar α] {r : Run α} {work : Array α}
    (size : r.workspace.scaling.E.size = work.size) :
    ∃ after, (correctionOf work).run r =
      .ok (r.workspace.cones.corrections r.workspace.scaling.E) { r with journal := after } := by
  obtain ⟨after, -, ran⟩ := Cone.run_rectifySets (c := r.workspace.cones) size r.journal
  refine ⟨after, bind_of_ok rfl (focus_of_ok (s := r)
    (t := Draft.mk (r.workspace.cones.corrections r.workspace.scaling.E).2 after) ?_)⟩
  exact bind_of_ok ran rfl

/-- Working out the correction of the rows finds the distorted sets and leaves the scaling as it
is. Once the correction is applied nothing is left to be corrected. -/
def CorrectsOnce (r : Run ℝ) (work : Array ℝ) : Prop :=
  ∃ changed left after,
    (correctionOf work).run r = .ok (changed, left) { r with journal := after } ∧
    r.workspace.cones.Rectifies r.workspace.scaling.E changed left ∧
    let corrected : Run ℝ := { r with
      workspace.scaling.E := Diagonal.times left r.workspace.scaling.E, journal := after }
    ∃ last, (correctionOf left).run corrected =
      .ok (false, Array.replicate r.workspace.cones.extent 1) { corrected with journal := last }

theorem correctsOnce {r : Run ℝ} (small : r.workspace.cones.extent < countLimit)
    (size : r.workspace.scaling.E.size = r.workspace.cones.extent)
    (positive : ∀ x ∈ r.workspace.scaling.E, 0 < x) {work : Array ℝ}
    (workSize : work.size = r.workspace.cones.extent) : CorrectsOnce r work := by
  have rectifies := Cone.rectifies_corrections small size positive
  have settled := Cone.settled_times small size positive
  obtain ⟨after, ran⟩ := run_correctionOf (r := r) (size.trans workSize.symm)
  refine ⟨_, _, after, ran, rectifies, ?_⟩
  have positive' := times_pos (Cone.corrections_pos (c := r.workspace.cones) positive) positive
  have size' := Diagonal.size_times rectifies.size
  obtain ⟨last, ran'⟩ := run_correctionOf (r := { r with
    workspace.scaling.E := Diagonal.times (r.workspace.cones.corrections r.workspace.scaling.E).2
      r.workspace.scaling.E, journal := after }) (size'.trans rectifies.size.symm)
  have nothing := (Cone.rectifies_corrections small (size'.trans size) positive').eq_of_settled
    settled
  rw [size', size] at nothing
  refine ⟨last, ran'.trans ?_⟩
  exact congrArg (EStateM.Result.ok · _) nothing

/-- Rectification is exact, local, reported and done once, and equilibration ends with every set
scaled as it needs to be. -/
theorem rectification_settles {r : Run ℝ} (small : r.workspace.cones.extent < countLimit) :
    (r.workspace.scaling.E.size = r.workspace.cones.extent →
      (∀ x ∈ r.workspace.scaling.E, 0 < x) →
      ∀ work : Array ℝ, work.size = r.workspace.cones.extent → CorrectsOnce r work) ∧
    ∀ (given : Option (Source ℝ)) (s : Settings ℝ), r.workspace.Valid →
      r.workspace.phase = .raw → r.workspace.settings.chosen? given = .ok s →
      ∃ report r', (equilibrate given).run r = .ok report r' ∧
        r'.workspace.cones.Settled r'.workspace.scaling.E := by
  constructor
  · intro size positive work workSize
    exact correctsOnce small size positive workSize
  · intro given s valid raw chosen
    have valid' := valid.with_settings s
    obtain ⟨journal, ran⟩ := run_equilibrateChosen_real
      (r := { r with workspace.settings := s }) valid' small
    exact ⟨_, _, (run_equilibrate_of_chosen raw chosen).trans ran,
      valid'.settled_equilibrated small⟩

/-- A workspace whose second-order cone has its rows scaled differently. -/
noncomputable def uneven : Run ℝ :=
  ⟨{ sample 1 with scaling := { Scaling.identity 2 4 with E := #[1, 1, 1 + 1, 1] } }, #[]⟩

theorem rectification_settles_uneven : CorrectsOnce uneven #[0, 5, 0, 5] ∧
    ∃ report r', (equilibrate none).run uneven = .ok report r' ∧
      r'.workspace.cones.Settled r'.workspace.scaling.E := by
  have small : uneven.workspace.cones.extent < countLimit := by decide
  have valid : uneven.workspace.Valid :=
    { valid_sample 1 with scaling := ⟨rfl, rfl, rfl, rfl⟩ }
  have positive : ∀ x ∈ uneven.workspace.scaling.E, 0 < x := by
    simp [uneven]
  obtain ⟨once, ends⟩ := rectification_settles (r := uneven) small
  exact ⟨once rfl positive _ rfl, ends none .standard valid rfl rfl⟩

end Workspace

end ConicScaling
