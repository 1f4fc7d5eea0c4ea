import ConicScaling.Proofs.Transform

/-!
# Extended reals

Exact arithmetic with infinite bounds. Only the bounds of boxes and the upper limit on norms may be
infinite: where the data are real numbers, every norm is one and every factor is a positive one, so
no bound is ever multiplied by zero or by infinity.
-/
namespace ConicScaling

noncomputable instance : Scalar EReal where
  abs x := max x (-x)
  sqrt x := x.rec 0 (fun r => (√r : ℝ)) ⊤
  exp x := (EReal.exp x : ENNReal)
  log x := ENNReal.log x.toENNReal
  single x := x
  decimal mantissa exponent := ((Scalar.decimal mantissa exponent : ℝ) : EReal)
  truncate? x := x.rec none (fun r => Scalar.truncate? r) none
  intCast n := ((n : ℝ) : EReal)
  decidableLT := inferInstance
  decidableLE := inferInstance

instance : Scalar.Standard EReal where
  admissible := by
    obtain ⟨positive, low, high⟩ := Scalar.Standard.admissible (α := ℝ)
    exact ⟨EReal.coe_pos.2 positive, EReal.coe_le_coe_iff.2 low, EReal.coe_le_coe_iff.2 high⟩

/-! ## Real and positive numbers -/

namespace Extended

def IsReal (x : EReal) : Prop := ∃ r : ℝ, (r : EReal) = x

/-- Positive and not infinite. -/
def IsPositive (x : EReal) : Prop := ∃ r : ℝ, 0 < r ∧ (r : EReal) = x

variable {x y : EReal}

theorem IsPositive.isReal (h : IsPositive x) : IsReal x := by
  obtain ⟨r, -, rfl⟩ := h
  exact ⟨r, rfl⟩

theorem isReal_zero : IsReal 0 := ⟨0, rfl⟩

theorem isPositive_one : IsPositive 1 := ⟨1, one_pos, rfl⟩

theorem IsReal.of_between (low : IsReal x) {z : EReal} (xy : x ≤ y) (yz : y ≤ z) (high : IsReal z) :
    IsReal y := by
  obtain ⟨a, rfl⟩ := low
  obtain ⟨b, rfl⟩ := high
  have bot : y ≠ ⊥ := ((EReal.bot_lt_coe a).trans_le xy).ne'
  have top : y ≠ ⊤ := (yz.trans_lt (EReal.coe_lt_top b)).ne
  exact ⟨y.toReal, EReal.coe_toReal top bot⟩

theorem IsReal.isPositive (h : IsReal x) (positive : 0 < x) : IsPositive x := by
  obtain ⟨r, rfl⟩ := h
  exact ⟨r, EReal.coe_pos.1 positive, rfl⟩

theorem IsPositive.of_le (positive : 0 < x) (le : x ≤ y) (h : IsReal y) : IsPositive x :=
  (isReal_zero.of_between positive.le le h).isPositive positive

theorem IsReal.add (hx : IsReal x) (hy : IsReal y) : IsReal (x + y) := by
  obtain ⟨a, rfl⟩ := hx
  obtain ⟨b, rfl⟩ := hy
  exact ⟨a + b, EReal.coe_add a b⟩

theorem IsReal.mul (hx : IsReal x) (hy : IsReal y) : IsReal (x * y) := by
  obtain ⟨a, rfl⟩ := hx
  obtain ⟨b, rfl⟩ := hy
  exact ⟨a * b, EReal.coe_mul a b⟩

theorem IsReal.div (hx : IsReal x) (hy : IsReal y) : IsReal (x / y) := by
  obtain ⟨a, rfl⟩ := hx
  obtain ⟨b, rfl⟩ := hy
  exact ⟨a / b, EReal.coe_div a b⟩

theorem IsReal.abs (h : IsReal x) : IsReal (Scalar.abs x) := by
  obtain ⟨a, rfl⟩ := h
  rcases max_choice (a : EReal) (-a) with same | opposite
  · exact ⟨a, same.symm⟩
  · exact ⟨-a, opposite.symm⟩

theorem IsPositive.mul (hx : IsPositive x) (hy : IsPositive y) : IsPositive (x * y) := by
  obtain ⟨a, ha, rfl⟩ := hx
  obtain ⟨b, hb, rfl⟩ := hy
  exact ⟨a * b, mul_pos ha hb, EReal.coe_mul a b⟩

theorem IsPositive.div (hx : IsPositive x) (hy : IsPositive y) : IsPositive (x / y) := by
  obtain ⟨a, ha, rfl⟩ := hx
  obtain ⟨b, hb, rfl⟩ := hy
  exact ⟨a / b, div_pos ha hb, EReal.coe_div a b⟩

theorem IsPositive.sqrt (h : IsPositive x) : IsPositive (Scalar.sqrt x) := by
  obtain ⟨a, ha, rfl⟩ := h
  exact ⟨√a, Real.sqrt_pos.2 ha, rfl⟩

theorem IsPositive.log (h : IsPositive x) : IsReal (Scalar.log x) := by
  obtain ⟨a, ha, rfl⟩ := h
  exact ⟨Real.log a, (ENNReal.log_ofReal_of_pos ha).symm⟩

theorem IsReal.exp (h : IsReal x) : IsPositive (Scalar.exp x) := by
  obtain ⟨a, rfl⟩ := h
  refine ⟨Real.exp a, Real.exp_pos a, ?_⟩
  change _ = ((EReal.exp a : ENNReal) : EReal)
  rw [EReal.exp_coe, EReal.coe_ennreal_ofReal, max_eq_left (Real.exp_pos a).le]

theorem IsPositive.same_zero (h : IsPositive x) : Scalar.same x 0 = false := by
  obtain ⟨a, ha, rfl⟩ := h
  simp [Scalar.same, ha]

@[simp] theorem isNaN_eq_false (x : EReal) : Scalar.isNaN x = false := by
  simp [Scalar.isNaN]

/-! ## Vectors -/

theorem isReal_sumPairwise {vs : List EReal} (h : ∀ v ∈ vs, IsReal v) :
    IsReal (sumPairwise (· + ·) 0 vs) := by
  rw [sumPairwise_eq_foldl, ← List.sum_eq_foldl]
  exact List.sum_induction IsReal (fun _ _ => IsReal.add) isReal_zero h

theorem isReal_mean {v : Array EReal} (h : ∀ x ∈ v, IsReal x) : IsReal (mean v) := by
  unfold mean
  split
  · exact isReal_zero
  · exact (isReal_sumPairwise fun x hx => h x (by simpa using hx)).div ⟨(v.size : ℤ), rfl⟩

theorem isReal_larger (hx : IsReal x) (hy : IsReal y) : IsReal (Scalar.larger x y) := by
  unfold Scalar.larger
  split <;> assumption

theorem isReal_largerLast (hx : IsReal x) (hy : IsReal y) : IsReal (Scalar.largerLast x y) := by
  unfold Scalar.largerLast
  split <;> assumption

theorem isReal_infNorm {v : Array EReal} (h : ∀ x ∈ v, IsReal x) : IsReal (infNorm v) := by
  have magnitudes : ∀ x ∈ v.map Scalar.abs, IsReal x := by
    intro x hx
    obtain ⟨y, hy, rfl⟩ := Array.mem_map.1 hx
    exact (h y hy).abs
  have first : IsReal ((v.map Scalar.abs).getD 0 0) := by
    by_cases some : 0 < (v.map Scalar.abs).size
    · rw [Array.getD, dif_pos some]
      exact magnitudes _ (Array.getElem_mem some)
    · rw [Array.getD, dif_neg some]
      exact isReal_zero
  exact Array.foldl_induction (fun _ => IsReal) first fun i _ old =>
    isReal_larger old (magnitudes _ (Array.getElem_mem i.isLt))

theorem isPositive_times {d v : Array EReal} (left : ∀ x ∈ d, IsPositive x)
    (right : ∀ x ∈ v, IsPositive x) : ∀ x ∈ Diagonal.times d v, IsPositive x := by
  intro x hx
  obtain ⟨i, hi, rfl⟩ := Array.mem_iff_getElem.1 hx
  simp only [Diagonal.times, Array.getElem_zipWith]
  exact (right _ (Array.getElem_mem _)).mul (left _ (Array.getElem_mem _))

theorem isReal_times {d v : Array EReal} (left : ∀ x ∈ d, IsReal x) (right : ∀ x ∈ v, IsReal x) :
    ∀ x ∈ Diagonal.times d v, IsReal x := by
  intro x hx
  obtain ⟨i, hi, rfl⟩ := Array.mem_iff_getElem.1 hx
  simp only [Diagonal.times, Array.getElem_zipWith]
  exact (right _ (Array.getElem_mem _)).mul (left _ (Array.getElem_mem _))

theorem exists_eq_map {v : Array EReal} (h : ∀ x ∈ v, IsPositive x) :
    ∃ u : Array ℝ, v = u.map Real.toEReal ∧ ∀ x ∈ u, 0 < x := by
  refine ⟨v.map EReal.toReal, ?_, ?_⟩
  · rw [Array.map_map]
    refine (Array.map_id v).symm.trans (Array.map_congr_left fun x hx => ?_)
    obtain ⟨r, -, rfl⟩ := h x hx
    rfl
  · intro x hx
    obtain ⟨y, hy, rfl⟩ := Array.mem_map.1 hx
    obtain ⟨r, positive, rfl⟩ := h y hy
    exact positive

theorem isPositive_ones (k : Nat) : ∀ x ∈ (ones k : Array EReal), IsPositive x := by
  intro x hx
  obtain ⟨-, rfl⟩ := Array.mem_replicate.1 hx
  exact isPositive_one

theorem isPositive_geometricMean {e : Array EReal} (h : ∀ x ∈ e, IsPositive x) :
    IsPositive (geometricMean e) := by
  refine (isReal_mean fun x hx => ?_).exp
  obtain ⟨y, hy, rfl⟩ := Array.mem_map.1 hx
  exact (h y hy).log

theorem isPositive_corrections {c : Cone EReal} {e : Array EReal} (h : ∀ x ∈ e, IsPositive x) :
    ∀ x ∈ (c.corrections e).2, IsPositive x := by
  refine Cone.forall_mem_corrected (isPositive_ones e.size) ?_
  intro part within _ x hx
  obtain ⟨y, hy, rfl⟩ := Array.mem_map.1 hx
  have positive : ∀ z ∈ part, IsPositive z := fun z hz => h z (within z hz)
  exact (isPositive_geometricMean positive).div (positive y hy)

end Extended

/-! ## Limits -/

namespace Settings

open Extended

variable (s : Settings EReal)

/-- A limited real number is positive and real, even if there is no upper limit. -/
theorem isPositive_limit {x : EReal} (hx : IsReal x) : IsPositive (s.limiter.limit x) := by
  have low : IsPositive s.minScaling := .of_le s.admissible.1 s.admissible.2.1 isPositive_one.isReal
  unfold Limiter.limit
  split
  · exact isPositive_one
  · rename_i positive
    have raised : IsPositive (Scalar.raise x s.minScaling) := by
      unfold Scalar.raise
      split
      · exact low
      · exact hx.isPositive (not_le.1 positive)
    unfold Scalar.lower
    split
    · rename_i below
      exact .of_le (zero_lt_one.trans_le s.admissible.2.2) (le_of_lt below) raised.isReal
    · exact raised

theorem isPositive_factors {norms : Array EReal} (hn : ∀ x ∈ norms, IsReal x) :
    ∀ x ∈ Workspace.factors s.limiter norms, IsPositive x := by
  intro x hx
  simp only [Workspace.factors, invSqrt, Limiter.limitVector, Array.mem_map] at hx
  obtain ⟨_, ⟨norm, member, rfl⟩, rfl⟩ := hx
  rw [Limiter.limitEntry_eq_limit (isNaN_eq_false _) (isNaN_eq_false _)]
  exact isPositive_one.div (s.isPositive_limit (hn norm member)).sqrt

theorem isPositive_costFactor {maxNorm meanNorm : EReal} (hm : IsReal maxNorm)
    (hn : IsReal meanNorm) : IsPositive (Workspace.costFactor s.limiter maxNorm meanNorm) := by
  refine isPositive_one.div (s.isPositive_limit ?_)
  unfold Scalar.raise
  split
  · exact hn
  · exact (s.isPositive_limit hm).isReal

end Settings

/-! ## Data -/

namespace Storage

variable {α β γ : Type}

/-- What holds of the norms so far and of all magnitudes holds of the norms. -/
theorem forall_mem_norms [Scalar α] {p : α → Prop} {magnitude : β → α} {axis : Axis}
    {S : Storage β} {out : Array α} (larger : ∀ x y, p x → p y → p (S.larger x y))
    (old : ∀ x ∈ out, p x) (stored : ∀ e ∈ S.entries, p (magnitude e.value)) :
    ∀ x ∈ S.norms magnitude axis out, p x := by
  unfold norms
  generalize S.entries = es at stored
  induction es generalizing out with
  | nil => exact old
  | cons e rest ih =>
    refine ih ?_ fun d hd => stored d (by simp [hd])
    intro x hx
    obtain ⟨i, hi, rfl⟩ := Array.mem_iff_getElem.1 hx
    rw [Array.getElem_modify]
    split
    · exact larger _ _ (old _ (Array.getElem_mem _)) (stored e (by simp))
    · exact old _ (Array.getElem_mem _)

end Storage

@[simp] theorem Precision.round_ereal (p : Precision) (x : EReal) : p.round x = x := by
  cases p <;> rfl

/-- Whether all entries of a diagonal are real numbers. -/
def Diagonal.IsReal : Diagonal EReal → Prop
  | identity => True
  | entries d => ∀ x ∈ d, Extended.IsReal x

theorem Diagonal.isReal_entries {d : Array EReal} (h : ∀ x ∈ d, Extended.IsPositive x) :
    (entries d).IsReal :=
  fun x hx => (h x hx).isReal

namespace DataMatrix

/-- Whether a matrix stores real numbers only. -/
def IsReal (M : DataMatrix EReal) : Prop := ∀ e ∈ M.storage.entries, Extended.IsReal e.value

variable {M : DataMatrix EReal} (h : M.IsReal)

include h

theorem IsReal.scaledAlong (axis : Axis) {d : Diagonal EReal} (hd : d.IsReal) :
    (M.scaledAlong axis d).IsReal := by
  cases d with
  | identity => exact h
  | entries d =>
    intro e he
    simp only [DataMatrix.scaledAlong, Diagonal.scaleLines, Storage.entries_mapEntries,
      List.mem_map] at he
    obtain ⟨e, he, rfl⟩ := he
    have factor : Extended.IsReal (d.getD (axis.select e.row e.col) 1) := by
      by_cases inside : axis.select e.row e.col < d.size
      · simpa [inside] using hd _ (Array.getElem_mem inside)
      · simpa [inside] using Extended.isPositive_one.isReal
    simpa using (h e he).mul factor

theorem IsReal.scaled {L R : Diagonal EReal} (left : L.IsReal) (right : R.IsReal) :
    (M.scaled L R).IsReal := by
  have side (axis : Axis) : (axis.side L R).IsReal := by
    cases axis <;> assumption
  exact (h.scaledAlong _ (side _)).scaledAlong _ (side _)

theorem IsReal.multiplied {c : EReal} (hc : Extended.IsReal c) : (M.multiplied c).IsReal := by
  intro e he
  simp only [DataMatrix.multiplied, Storage.map, Storage.entries_mapEntries, List.mem_map] at he
  obtain ⟨e, he, rfl⟩ := he
  simpa using (h e he).mul hc

theorem IsReal.norms (axis : Axis) {out : Array EReal} (old : ∀ x ∈ out, Extended.IsReal x) :
    ∀ x ∈ M.storage.norms Scalar.abs axis out, Extended.IsReal x := by
  refine Storage.forall_mem_norms ?_ old fun e he => (h e he).abs
  intro x y hx hy
  unfold Storage.larger
  split
  · exact Extended.isReal_largerLast hx hy
  · exact Extended.isReal_larger hx hy

end DataMatrix

namespace Data

/-- Whether `P`, `A` and `q` hold real numbers only. -/
structure IsReal (d : Data (DataMatrix EReal) EReal) : Prop where
  P : d.P.IsReal
  A : d.A.IsReal
  q : ∀ x ∈ d.q, Extended.IsReal x

namespace IsReal

variable {d : Data (DataMatrix EReal) EReal} (h : d.IsReal)

include h

theorem costed {c : EReal} (hc : Extended.IsReal c) : (d.costed c).IsReal where
  P := h.P.multiplied hc
  A := h.A
  q := by
    intro x hx
    obtain ⟨y, hy, rfl⟩ := Array.mem_map.1 hx
    exact (h.q y hy).mul hc

theorem scaled {D E : Diagonal EReal} (hD : D.IsReal) (hE : E.IsReal) {c : EReal}
    (hc : Extended.IsReal c) : (d.scaled D E c).IsReal := by
  have products : IsReal ⟨d.P.scaled D D, d.A.scaled E D, D.applied d.q, E.applied d.b⟩ := by
    refine ⟨h.P.scaled hD hD, h.A.scaled hE hD, ?_⟩
    cases D with
    | identity => exact h.q
    | entries D => exact Extended.isReal_times hD h.q
  unfold Data.scaled
  split
  · exact products
  · exact products.costed hc

omit h in
theorem zeros (k : Nat) : ∀ x ∈ Array.replicate k (0 : EReal), Extended.IsReal x := by
  intro x hx
  obtain ⟨-, rfl⟩ := Array.mem_replicate.1 hx
  exact Extended.isReal_zero

theorem objectiveNorms : ∀ x ∈ d.objectiveNorms, Extended.IsReal x := h.P.norms _ (zeros _)

theorem columnNorms : ∀ x ∈ d.columnNorms, Extended.IsReal x := h.A.norms _ h.objectiveNorms

theorem rowNorms : ∀ x ∈ d.rowNorms, Extended.IsReal x := h.A.norms _ (zeros _)

end IsReal

end Data

/-! ## Stages -/

namespace Stage

/-- A stage whose data are real numbers and whose factors are positive ones. -/
structure Regular (s : Stage EReal) : Prop where
  data : s.data.IsReal
  D : ∀ x ∈ s.D, Extended.IsPositive x
  E : ∀ x ∈ s.E, Extended.IsPositive x
  cost : Extended.IsPositive s.progress.cost

theorem regular_start {d : Data (DataMatrix EReal) EReal} (h : d.IsReal) : (start d).Regular where
  data := h
  D := Extended.isPositive_ones _
  E := Extended.isPositive_ones _
  cost := Extended.isPositive_one

namespace Regular

variable {s : Stage EReal} (h : s.Regular) {t : Settings EReal}

include h

theorem rectified (cones : Cone EReal) : (s.rectified cones).Regular := by
  unfold Stage.rectified
  cases found : s.correction? cones with
  | none => exact h
  | some e =>
    have positive : ∀ x ∈ e, Extended.IsPositive x := by
      rw [eq_of_correction? found]
      exact Extended.isPositive_corrections h.E
    have data := h.data.scaled (D := .identity) trivial (Diagonal.isReal_entries positive)
      Extended.isPositive_one.isReal
    exact ⟨data, h.D, Extended.isPositive_times positive h.E, h.cost⟩

theorem balanced : (s.balanced t.limiter).Regular := by
  have columns : ∀ x ∈ s.columnFactors t.limiter, Extended.IsPositive x :=
    t.isPositive_factors h.data.columnNorms
  have rows : ∀ x ∈ s.rowFactors t.limiter, Extended.IsPositive x :=
    t.isPositive_factors h.data.rowNorms
  have data := h.data.scaled (Diagonal.isReal_entries columns) (Diagonal.isReal_entries rows)
    Extended.isPositive_one.isReal
  exact ⟨data, Extended.isPositive_times columns h.D, Extended.isPositive_times rows h.E, h.cost⟩

theorem recosted : (s.recosted t.limiter).Regular := by
  unfold Stage.recosted
  cases found : s.data.costFactor? t.limiter with
  | none => exact h
  | some factor =>
    have positive : Extended.IsPositive factor := by
      rw [Data.eq_of_costFactor? found]
      exact t.isPositive_costFactor (Extended.isReal_infNorm h.data.q)
        (Extended.isReal_mean h.data.objectiveNorms)
    exact ⟨h.data.costed positive.isReal, h.D, h.E, h.cost.mul positive⟩

theorem pass : (s.pass t.limiter).Regular := h.balanced.recosted

theorem passes (k : Nat) : (s.passes t.limiter k).Regular := by
  induction k generalizing s with
  | zero => exact h
  | succ k ih => exact ih h.pass

end Regular

end Stage

namespace Workspace

variable {w : Workspace EReal} (real : w.data.IsReal)

include real

/-- On real data the factors of the rows are positive real numbers. -/
theorem isPositive_E_final : ∀ x ∈ w.final.E, Extended.IsPositive x := by
  rw [final, Stage.E_finished]
  exact (((Stage.regular_start real).passes _).rectified w.cones).E

theorem isPositive_cost_final : Extended.IsPositive w.final.progress.cost := by
  rw [final, Stage.progress_finished]
  exact ((Stage.regular_start real).passes _).cost

end Workspace

end ConicScaling
