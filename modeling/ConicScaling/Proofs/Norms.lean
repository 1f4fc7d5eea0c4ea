import ConicScaling.Proofs.Transform

/-!
# Norms of stored matrices

Measuring raises the norm of a line to the magnitude of each entry that is stored in it. Where no
position is stored twice this is the infinity norm of the line that is denoted, whatever the layout:
what is not stored is zero, and the largest magnitude does not depend on the order of entries.
-/
namespace ConicScaling

variable {β γ : Type}

/-! ## Canonical storage -/

namespace Storage

/-- Replacing values leaves slices canonical, whatever the values are. -/
theorem IsCanonical.mapEntries {S : Storage β} (h : S.IsCanonical) (f : Nat → Nat → β → γ) :
    (S.mapEntries f).IsCanonical := by
  cases S with
  | dense cols rows => trivial
  | sparse major minor slices =>
    intro slice hslice
    obtain ⟨k, hk, rfl⟩ := Array.mem_mapIdx.1 hslice
    exact List.pairwise_map.2 (h slices[k] (Array.getElem_mem hk))

/-- Canonical slices are merged in order. -/
theorem IsCanonical.symmetrized {S : Storage β} (h : S.IsCanonical) (add : β → β → β) (zero : β)
    (isZero : β → Bool) (finish : β → γ) : (S.symmetrized add zero isZero finish).IsCanonical := by
  cases S with
  | dense cols rows => trivial
  | sparse major minor slices =>
    intro slice hslice
    obtain ⟨k, -, rfl⟩ := Array.mem_map.1 hslice
    rw [transposeSumSlice, sumIndices, if_pos h]
    refine List.Pairwise.filterMap _ ?_ List.pairwise_lt_range
    intro i j below d hd e he
    simp only [Option.ite_none_left_eq_some, Option.some.injEq] at hd he
    obtain ⟨-, rfl⟩ := hd
    obtain ⟨-, rfl⟩ := he
    exact below

/-- No position is stored twice. -/
def StoresOnce : Storage β → Prop
  | dense .. => True
  | sparse _ _ slices => ∀ slice ∈ slices, slice.Pairwise fun d e => d.1 ≠ e.1

theorem IsCanonical.storesOnce {S : Storage β} (h : S.IsCanonical) : S.StoresOnce := by
  cases S with
  | dense cols rows => trivial
  | sparse major minor slices => exact fun slice hslice => (h slice hslice).imp Nat.ne_of_lt

section Once

variable {add : β → β → β} {zero : β} (left : ∀ v, add zero v = v)

include left

/-- At an index that a slice stores once, it holds what is stored there. -/
theorem sliceEntry_of_mem_once {slice : Slice β} (once : slice.Pairwise fun d e => d.1 ≠ e.1)
    {e : Nat × β} (he : e ∈ slice) : sliceEntry add zero slice e.1 = e.2 := by
  obtain ⟨before, after, rfl⟩ := List.append_of_mem he
  obtain ⟨-, later, earlier⟩ := List.pairwise_append.1 once
  have first : sliceEntry add zero before e.1 = zero :=
    sliceEntry_of_not_mem fun d hd => earlier d hd e List.mem_cons_self
  have last : sliceEntry add e.2 after e.1 = e.2 :=
    sliceEntry_of_not_mem fun d hd => ((List.pairwise_cons.1 later).1 d hd).symm
  calc sliceEntry add zero (before ++ e :: after) e.1
      = sliceEntry add (add (sliceEntry add zero before e.1) e.2) after e.1 := by simp [sliceEntry]
    _ = e.2 := by rw [first, left, last]

/-- A position that is stored once has the value that is stored there. -/
theorem StoresOnce.entry_of_mem {S : Storage β} (once : S.StoresOnce) {e : Entry β}
    (he : e ∈ S.entries) : S.entry add zero e.row e.col = e.value := by
  cases S with
  | dense cols rows =>
    simp only [entries, List.mem_flatMap, List.mem_map, Prod.exists,
      List.mem_zipIdx_iff_getElem?] at he
    obtain ⟨row, i, hi, v, j, hj, rfl⟩ := he
    simp only [Array.getElem?_toList] at hi hj
    simp [entry, hi, hj]
  | sparse major minor slices =>
    simp only [entries, List.mem_flatMap, List.mem_map, Prod.exists,
      List.mem_zipIdx_iff_getElem?] at he
    obtain ⟨slice, k, hk, l, v, hv, rfl⟩ := he
    simp only [Array.getElem?_toList] at hk
    have stored : sliceEntry add zero slice l = v :=
      sliceEntry_of_mem_once left (once slice (Array.mem_of_getElem? hk)) hv
    cases major <;> simpa [entry, Axis.position, hk] using stored

end Once

/-- A canonical slice holds one value at each index that it stores. -/
theorem sliceEntry_of_mem {add : β → β → β} {zero : β} [Std.LawfulIdentity add zero]
    {slice : Slice β} (canonical : Slice.Canonical slice) {e : Nat × β} (he : e ∈ slice) :
    sliceEntry add zero slice e.1 = e.2 :=
  sliceEntry_of_mem_once Std.LawfulLeftIdentity.left_id (canonical.imp Nat.ne_of_lt) he

theorem IsCanonical.value_of_mem {S : Storage ℝ} (h : S.IsCanonical) {e : Entry ℝ}
    (he : e ∈ S.entries) : S.value e.row e.col = e.value :=
  h.storesOnce.entry_of_mem zero_add he

/-! ## Norms of lines -/

@[simp] theorem larger_real (S : Storage β) (x y : ℝ) : S.larger x y = max x y := by
  cases S <;> simp [larger]

theorem getD_modify {v : Array β} {l : Nat} (hl : l < v.size) (i : Nat) (f : β → β) (z : β) :
    (v.modify i f).getD l z = if i = l then f (v.getD l z) else v.getD l z := by
  simp only [Array.getD_eq_getD_getElem?, Array.getElem?_modify]
  split
  · simp [hl]
  · rfl

/-- A norm is below a bound if it was so before and all entries of its line are. -/
theorem norms_le_iff (S : Storage ℝ) (axis : Axis) {out : Array ℝ} {l : Nat} (hl : l < out.size)
    (bound : ℝ) : (S.norms Scalar.abs axis out).getD l 0 ≤ bound ↔
      out.getD l 0 ≤ bound ∧ ∀ e ∈ S.entries, e.along axis = l → |e.value| ≤ bound := by
  simp only [norms, larger_real]
  induction S.entries generalizing out with
  | nil => simp
  | cons e rest ih =>
    rw [List.foldl_cons, ih (by simpa using hl), getD_modify hl, List.forall_mem_cons]
    by_cases own : e.along axis = l
    · simp only [own, if_true, forall_const, max_le_iff, and_assoc]
      rfl
    · simp only [own, if_false, false_imp_iff, true_and]

/-- Where no position is stored twice, the norms are those of the lines that are denoted. -/
theorem IsCanonical.norms_le_iff {S : Storage ℝ} (h : S.IsCanonical) (axis : Axis) {out : Array ℝ}
    {l : Nat} (hl : l < out.size) (nonneg : 0 ≤ out.getD l 0) (bound : ℝ) :
    (S.norms Scalar.abs axis out).getD l 0 ≤ bound ↔
      out.getD l 0 ≤ bound ∧ ∀ i j, axis.select i j = l → |S.value i j| ≤ bound := by
  rw [Storage.norms_le_iff S axis hl]
  refine and_congr_right fun start => ⟨fun stored i j line => ?_, fun all e he line => ?_⟩
  · by_cases there : ∃ e ∈ S.entries, e.row = i ∧ e.col = j
    · obtain ⟨e, he, rfl, rfl⟩ := there
      rw [h.value_of_mem he]
      exact stored e he line
    · rw [value_of_not_stored (by grind), abs_zero]
      exact nonneg.trans start
  · rw [← h.value_of_mem he]
    exact all e.row e.col line

section Within

variable {S : Storage ℝ} (h : S.WellFormed) {n : Nat} {p : ℝ → Prop} (zero : p 0)

include h zero

/-- What holds of zero holds of a column if it holds within the matrix. -/
theorem WellFormed.forall_row_iff (rows : S.count .row = n) (j : Nat) :
    (∀ i, p (S.value i j)) ↔ ∀ i : Fin n, p (S.value i j) := by
  refine ⟨fun all i => all i, fun inside i => ?_⟩
  by_cases hi : i < n
  · exact inside ⟨i, hi⟩
  · rw [h.value_of_le (.inl (by omega))]
    exact zero

theorem WellFormed.forall_column_iff (columns : S.count .column = n) (i : Nat) :
    (∀ j, p (S.value i j)) ↔ ∀ j : Fin n, p (S.value i j) := by
  refine ⟨fun all j => all j, fun inside j => ?_⟩
  by_cases hj : j < n
  · exact inside ⟨j, hj⟩
  · rw [h.value_of_le (.inr (by omega))]
    exact zero

end Within

end Storage

theorem DataMatrix.isCanonical_symmetrized {α : Type} [Scalar α] {M : DataMatrix α}
    (h : M.storage.IsCanonical) : M.symmetrized.storage.IsCanonical :=
  h.symmetrized M.precision.add 0 (fun v => Scalar.same v 0)
    fun v => M.precision.round (Scalar.half v)

namespace Data

theorem Canonical.weighted {d : Data (DataMatrix ℝ) ℝ} (h : d.Canonical) (D E : Nat → ℝ) (c : ℝ) :
    (d.weighted D E c).Canonical :=
  ⟨h.P.mapEntries _, h.A.mapEntries _⟩

theorem Canonical.of_composed {s : Stage ℝ} {d : Data (DataMatrix ℝ) ℝ} {m n : Nat}
    (h : d.Canonical) (composed : s.Composed d m n) : s.data.Canonical := by
  rw [composed.data]
  exact h.weighted _ _ _

/-- Numbers that are not negative are told by the bounds above them. -/
theorem eq_of_nonneg_of_forall_le_iff {x y : ℝ} (hx : 0 ≤ x) (hy : 0 ≤ y)
    (h : ∀ bound, 0 ≤ bound → (x ≤ bound ↔ y ≤ bound)) : x = y :=
  le_antisymm ((h y hy).2 le_rfl) ((h x hx).1 le_rfl)

/-- The infinity norm of a column of `P` on top of `A`. -/
noncomputable def columnNorm (d : Data (DataMatrix ℝ) ℝ) (m n : Nat) (j : Fin n) : ℝ :=
  ‖(Matrix.fromRows (d.P.storage.toMatrix n n) (d.A.storage.toMatrix m n)).col j‖

/-- The infinity norm of a row of `A`. -/
noncomputable def rowNorm (d : Data (DataMatrix ℝ) ℝ) (m n : Nat) (i : Fin m) : ℝ :=
  ‖(d.A.storage.toMatrix m n).row i‖

section Norms

variable {d : Data (DataMatrix ℝ) ℝ} {m n : Nat} (shaped : d.Shaped m n) (canonical : d.Canonical)

include shaped canonical

theorem objectiveNorms_le_iff (j : Nat) (bound : ℝ) : d.objectiveNorms.getD j 0 ≤ bound ↔
    0 ≤ bound ∧ ∀ i, |d.P.storage.value i j| ≤ bound := by
  by_cases hj : j < n
  · have columns := shaped.columnsP
    have zero : (Array.replicate n (0 : ℝ)).getD j 0 = 0 := by simp [hj]
    rw [objectiveNorms, columns, canonical.P.norms_le_iff .column (by simpa using hj) zero.ge, zero]
    simp only [Axis.select, forall_eq]
  · have beyond (i : Nat) : d.P.storage.value i j = 0 :=
      shaped.wellFormedP.value_of_le (.inr (by rw [shaped.columnsP]; omega))
    have size := shaped.size_objectiveNorms
    simp +contextual [beyond, size, hj]

theorem columnNorms_le_iff (j : Nat) (bound : ℝ) : d.columnNorms.getD j 0 ≤ bound ↔
    0 ≤ bound ∧ ∀ i, |d.P.storage.value i j| ≤ bound ∧ |d.A.storage.value i j| ≤ bound := by
  by_cases hj : j < n
  · have nonneg : 0 ≤ d.objectiveNorms.getD j 0 :=
      ((objectiveNorms_le_iff shaped canonical j _).1 le_rfl).1
    have size := shaped.size_objectiveNorms
    rw [columnNorms, canonical.A.norms_le_iff .column (size ▸ hj) nonneg,
      objectiveNorms_le_iff shaped canonical]
    simp [Axis.select, forall_and, and_assoc]
  · have beyondP (i : Nat) : d.P.storage.value i j = 0 :=
      shaped.wellFormedP.value_of_le (.inr (by rw [shaped.columnsP]; omega))
    have beyondA (i : Nat) : d.A.storage.value i j = 0 :=
      shaped.wellFormedA.value_of_le (.inr (by rw [shaped.columnsA]; omega))
    have size := shaped.size_columnNorms
    simp +contextual [beyondP, beyondA, size, hj]

theorem rowNorms_le_iff (i : Nat) (bound : ℝ) : d.rowNorms.getD i 0 ≤ bound ↔
    0 ≤ bound ∧ ∀ j, |d.A.storage.value i j| ≤ bound := by
  by_cases hi : i < m
  · have rows := shaped.rowsA
    have zero : (Array.replicate m (0 : ℝ)).getD i 0 = 0 := by simp [hi]
    rw [rowNorms, rows, canonical.A.norms_le_iff .row (by simpa using hi) zero.ge, zero]
    simp only [Axis.select]
    grind
  · have beyond (j : Nat) : d.A.storage.value i j = 0 :=
      shaped.wellFormedA.value_of_le (.inl (by rw [shaped.rowsA]; omega))
    have size := shaped.size_rowNorms
    simp +contextual [beyond, size, hi]

theorem objectiveNorms_nonneg (j : Nat) : 0 ≤ d.objectiveNorms.getD j 0 :=
  ((objectiveNorms_le_iff shaped canonical j _).1 le_rfl).1

theorem columnNorms_nonneg (j : Nat) : 0 ≤ d.columnNorms.getD j 0 :=
  ((columnNorms_le_iff shaped canonical j _).1 le_rfl).1

theorem rowNorms_nonneg (i : Nat) : 0 ≤ d.rowNorms.getD i 0 :=
  ((rowNorms_le_iff shaped canonical i _).1 le_rfl).1

/-- Measuring finds the infinity norms of the columns. -/
theorem toVector_columnNorms (j : Fin n) : toVector d.columnNorms n j = d.columnNorm m n j := by
  refine eq_of_nonneg_of_forall_le_iff (columnNorms_nonneg shaped canonical j) (norm_nonneg _) ?_
  intro bound nonneg
  have zero : |(0 : ℝ)| ≤ bound := by simpa using nonneg
  have inP := shaped.wellFormedP.forall_row_iff (p := fun x => |x| ≤ bound) zero shaped.rowsP j
  have inA := shaped.wellFormedA.forall_row_iff (p := fun x => |x| ≤ bound) zero shaped.rowsA j
  rw [toVector, columnNorms_le_iff shaped canonical, columnNorm, pi_norm_le_iff_of_nonneg nonneg,
    forall_and, inP, inA, Sum.forall]
  simp [nonneg, Storage.toMatrix]

/-- Measuring finds the infinity norms of the rows. -/
theorem toVector_rowNorms (i : Fin m) : toVector d.rowNorms m i = d.rowNorm m n i := by
  refine eq_of_nonneg_of_forall_le_iff (rowNorms_nonneg shaped canonical i) (norm_nonneg _) ?_
  intro bound nonneg
  have zero : |(0 : ℝ)| ≤ bound := by simpa using nonneg
  have inA := shaped.wellFormedA.forall_column_iff (p := fun x => |x| ≤ bound) zero
    shaped.columnsA i
  rw [toVector, rowNorms_le_iff shaped canonical, rowNorm, pi_norm_le_iff_of_nonneg nonneg, inA]
  simp [nonneg, Storage.toMatrix]

end Norms

end Data

end ConicScaling
