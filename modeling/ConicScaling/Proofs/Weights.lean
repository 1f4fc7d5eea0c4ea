import ConicScaling.Proofs.Stage

/-!
# Weighted data

In exact arithmetic every product that equilibration takes multiplies the stored entries by weights
of their lines, and the weights of successive products multiply. So whatever was done to the data
is told by one weight for each column, one for each row and one for the objective.
-/
namespace ConicScaling

/-! ## Vectors -/

/-- Every entry of a vector multiplied by the weight of its place. -/
noncomputable def weightedVector (f : Nat → ℝ) (v : Array ℝ) : Array ℝ :=
  v.mapIdx fun i x => x * f i

@[simp] theorem size_weightedVector (f : Nat → ℝ) (v : Array ℝ) :
    (weightedVector f v).size = v.size := by
  simp [weightedVector]

theorem weightedVector_weightedVector (f g : Nat → ℝ) (v : Array ℝ) :
    weightedVector g (weightedVector f v) = weightedVector (fun i => f i * g i) v := by
  simp [weightedVector, Function.comp_def, mul_assoc]

theorem weightedVector_one {f : Nat → ℝ} (h : ∀ i, f i = 1) (v : Array ℝ) :
    weightedVector f v = v := by
  simp [weightedVector, h, Storage.mapIdx_self]

theorem getD_weightedVector (f : Nat → ℝ) (v : Array ℝ) (i : Nat) :
    (weightedVector f v).getD i 0 = v.getD i 0 * f i := by
  by_cases h : i < v.size <;> simp [weightedVector, h]

theorem map_mul_eq_weightedVector (c : ℝ) (v : Array ℝ) :
    (v.map fun x => x * c) = weightedVector (fun _ => c) v := by
  apply Array.ext <;> simp [weightedVector]

namespace Diagonal

theorem weight_identity : weight (identity : Diagonal ℝ) = fun _ => 1 := rfl

theorem weight_eq (d : Array ℝ) {i : Nat} (h : i < d.size) : weight (entries d) i = d[i] := by
  simp [weight, h]

theorem times_eq_weightedVector {d v : Array ℝ} (size : d.size = v.size) :
    times d v = weightedVector (weight (entries d)) v := by
  apply Array.ext
  · simp [times, size]
  · intro i hi _
    have hv : i < v.size := by simpa [times, size] using hi
    simp [times, weightedVector, weight, size, hv]

theorem applied_real {d : Diagonal ℝ} {v : Array ℝ} (spans : d.Spans v.size) :
    d.applied v = weightedVector d.weight v := by
  cases d with
  | identity => exact (weightedVector_one (fun _ => rfl) v).symm
  | entries d => exact times_eq_weightedVector spans

/-- The weights of a product of diagonals are the products of the weights. -/
theorem weight_times {d e : Array ℝ} (size : d.size = e.size) :
    weight (entries (times d e)) = fun i => weight (entries e) i * weight (entries d) i := by
  funext i
  by_cases h : i < e.size <;> simp [weight, times, h, size]

theorem weight_map_reciprocal (v : Array ℝ) (i : Nat) :
    weight (entries (v.map Scalar.reciprocal)) i = (weight (entries v) i)⁻¹ := by
  by_cases h : i < v.size <;> simp [weight, h]

/-- A diagonal undoes another one where their weights are inverse. -/
theorem times_times_of_inverse {d e v : Array ℝ} (inner : e.size = v.size) (outer : d.size = v.size)
    (inverse : ∀ i, weight (entries e) i * weight (entries d) i = 1) : times d (times e v) = v := by
  rw [times_eq_weightedVector (outer.trans (size_times inner).symm), times_eq_weightedVector inner,
    weightedVector_weightedVector]
  exact weightedVector_one inverse v

end Diagonal

/-! ## Matrices -/

namespace DataMatrix

/-- Every stored entry multiplied by the weight of its position. -/
noncomputable def weighted (f : Nat → Nat → ℝ) (M : DataMatrix ℝ) : DataMatrix ℝ :=
  { M with storage := M.storage.weighted f }

theorem weighted_weighted (f g : Nat → Nat → ℝ) (M : DataMatrix ℝ) :
    (M.weighted f).weighted g = M.weighted fun i j => f i j * g i j := by
  simp [weighted, Storage.weighted_weighted]

theorem weighted_one {f : Nat → Nat → ℝ} (h : ∀ i j, f i j = 1) (M : DataMatrix ℝ) :
    M.weighted f = M := by
  simp [weighted, Storage.weighted_one h]

theorem scaledAlong_real (axis : Axis) (d : Diagonal ℝ) (M : DataMatrix ℝ) :
    M.scaledAlong axis d = M.weighted fun i j => d.weight (axis.select i j) := by
  cases d with
  | identity => exact (weighted_one (fun _ _ => rfl) M).symm
  | entries d =>
    simp [scaledAlong, weighted, Diagonal.scaleLines, Storage.weighted, Diagonal.weight]

/-- Both sides of a product are weights, in whichever order they are taken. -/
theorem scaled_real (L R : Diagonal ℝ) (M : DataMatrix ℝ) :
    M.scaled L R = M.weighted fun i j => L.weight i * R.weight j := by
  simp only [scaled, scaledAlong_real, weighted_weighted]
  congr 1
  funext i j
  rcases M with ⟨_, _ | ⟨_ | _, _, _⟩⟩ <;>
    simp [Storage.productOrder, Axis.side, Axis.select, mul_comm]

theorem multiplied_real (c : ℝ) (M : DataMatrix ℝ) :
    M.multiplied c = M.weighted fun _ _ => c := by
  simp [multiplied, weighted, Storage.map, Storage.weighted]

end DataMatrix

/-! ## Problem data -/

namespace Data

/-- The data under weights for columns, rows and the objective. -/
noncomputable def weighted (D E : Nat → ℝ) (c : ℝ) (d : Data (DataMatrix ℝ) ℝ) :
    Data (DataMatrix ℝ) ℝ where
  P := d.P.weighted fun i j => c * D i * D j
  A := d.A.weighted fun i j => E i * D j
  q := weightedVector (fun j => c * D j) d.q
  b := weightedVector E d.b

theorem weighted_weighted (D E D' E' : Nat → ℝ) (c c' : ℝ) (d : Data (DataMatrix ℝ) ℝ) :
    (d.weighted D E c).weighted D' E' c' =
      d.weighted (fun j => D j * D' j) (fun i => E i * E' i) (c * c') := by
  simp only [weighted, DataMatrix.weighted_weighted, weightedVector_weightedVector]
  congr 3 <;> funext <;> ring

theorem weighted_one {D E : Nat → ℝ} (hD : ∀ j, D j = 1) (hE : ∀ i, E i = 1)
    (d : Data (DataMatrix ℝ) ℝ) : d.weighted D E 1 = d := by
  simp [weighted, DataMatrix.weighted_one, weightedVector_one, hD, hE]

theorem costed_real (c : ℝ) (d : Data (DataMatrix ℝ) ℝ) :
    d.costed c = d.weighted (fun _ => 1) (fun _ => 1) c := by
  simp [costed, weighted, DataMatrix.multiplied_real, map_mul_eq_weightedVector,
    DataMatrix.weighted_one, weightedVector_one]

theorem scaled_real {d : Data (DataMatrix ℝ) ℝ} {m n : Nat} (shaped : d.Shaped m n)
    {D E : Diagonal ℝ} (spansD : D.Spans n) (spansE : E.Spans m) (c : ℝ) :
    d.scaled D E c = d.weighted D.weight E.weight c := by
  have products : (⟨d.P.scaled D D, d.A.scaled E D, D.applied d.q, E.applied d.b⟩ :
      Data (DataMatrix ℝ) ℝ) = d.weighted D.weight E.weight 1 := by
    rw [Diagonal.applied_real (shaped.sizeq ▸ spansD),
      Diagonal.applied_real (shaped.sizeb ▸ spansE)]
    simp [weighted, DataMatrix.scaled_real]
  simp only [scaled, products, Scalar.same_real, decide_eq_true_eq]
  split
  · rename_i one
    rw [one]
  · rw [costed_real, weighted_weighted]
    simp

end Data

end ConicScaling
