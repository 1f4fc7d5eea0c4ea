import ConicScaling.Proofs.Values

/-!
# Symmetric parts

The test for symmetry looks at stored positions only, and the sum with the transpose is formed along
the indices that either slice stores. Both miss nothing: what is not stored is zero.
-/
namespace ConicScaling

namespace Storage

variable {β γ : Type}

/-! ## Indices along which the sum is formed -/

theorem lt_size_of_mem {slices : Array (Slice β)} {k : Nat} {e : Nat × β}
    (he : e ∈ slices.getD k []) : k < slices.size := by
  by_contra hk
  simp [hk] at he

theorem WellFormed.lt_minor {major : Axis} {minor : Nat} {slices : Array (Slice β)}
    (h : (sparse major minor slices).WellFormed) {k : Nat} {e : Nat × β}
    (he : e ∈ slices.getD k []) : e.1 < minor := by
  have hk := lt_size_of_mem he
  exact h slices[k] (by simp) e (by simpa [hk] using he)

theorem nodup_eraseDups (ls : List Nat) : ls.eraseDups.Nodup := by
  match ls with
  | [] => simp
  | l :: rest =>
    rw [List.eraseDups_cons]
    refine List.nodup_cons.2 ⟨?_, nodup_eraseDups _⟩
    simp [List.mem_eraseDups]
termination_by ls.length
decreasing_by exact Nat.lt_succ_of_le (List.length_filter_le _ _)

theorem nodup_sumIndices (S : Storage β) (k : Nat) : (S.sumIndices k).Nodup := by
  cases S with
  | dense cols rows => exact List.nodup_range
  | sparse major minor slices =>
    simp only [sumIndices]
    split
    · exact List.nodup_range
    · exact List.nodup_reverse.2 (nodup_eraseDups _)

/-- What slice `k` of a matrix or of its transpose stores is met. -/
theorem mem_metIndices {slices : Array (Slice β)} {k l : Nat} :
    l ∈ metIndices slices k ↔
      (∃ e ∈ slices.getD k [], e.1 = l) ∨ ∃ e ∈ slices.getD l [], e.1 = k := by
  simp only [metIndices, List.mem_eraseDups, List.mem_append, List.mem_map, List.mem_filter,
    List.mem_range, List.any_eq_true, beq_iff_eq]
  apply or_congr Iff.rfl
  constructor
  · rintro ⟨-, stored⟩
    exact stored
  · rintro ⟨e, he, hk⟩
    exact ⟨lt_size_of_mem he, e, he, hk⟩

section Shape

variable (add : β → β → β) (zero : β) (isZero : β → Bool) (finish : β → γ)

@[simp] theorem count_symmetrized (S : Storage β) (axis : Axis) :
    (S.symmetrized add zero isZero finish).count axis = S.count axis := by
  cases S <;> simp [symmetrized, count]

theorem lt_of_mem_sumIndices {major : Axis} {minor : Nat} {slices : Array (Slice β)}
    (h : (sparse major minor slices).WellFormed) (square : slices.size = minor) {k l : Nat}
    (hl : l ∈ (sparse major minor slices).sumIndices k) : l < minor := by
  simp only [sumIndices] at hl
  split at hl
  · exact List.mem_range.1 hl
  · rcases mem_metIndices.1 (List.mem_reverse.1 hl) with ⟨e, he, rfl⟩ | ⟨e, he, -⟩
    · exact h.lt_minor he
    · exact square ▸ lt_size_of_mem he

theorem size_slices {major : Axis} {minor : Nat} {slices : Array (Slice β)}
    (square : (sparse major minor slices).count .row = (sparse major minor slices).count .column) :
    slices.size = minor := by
  cases major with
  | row => exact square
  | column => exact square.symm

theorem WellFormed.symmetrized {S : Storage β} (h : S.WellFormed)
    (square : S.count .row = S.count .column) :
    (S.symmetrized add zero isZero finish).WellFormed := by
  cases S with
  | dense cols rows => exact h.mapEntries fun i j _ => _
  | sparse major minor slices =>
    intro slice hslice e he
    obtain ⟨k, -, rfl⟩ := Array.mem_map.1 hslice
    obtain ⟨l, hl, he⟩ := List.mem_filterMap.1 he
    have within := lt_of_mem_sumIndices h (size_slices square) hl
    simp only [Option.ite_none_left_eq_some, Option.some.injEq] at he
    obtain ⟨-, rfl⟩ := he
    exact within

end Shape

/-! ## The test for symmetry -/

theorem isSymmetric_iff (S : Storage ℝ) :
    S.isSymmetric (· + ·) 0 Scalar.same = true ↔ ∀ i j, S.value i j = S.value j i := by
  simp only [isSymmetric, List.all_eq_true, Scalar.same_real, decide_eq_true_eq]
  constructor
  · intro h i j
    by_cases hij : ∃ e ∈ S.entries, e.row = i ∧ e.col = j
    · obtain ⟨e, he, rfl, rfl⟩ := hij
      exact h e he
    · by_cases hji : ∃ e ∈ S.entries, e.row = j ∧ e.col = i
      · obtain ⟨e, he, rfl, rfl⟩ := hji
        exact (h e he).symm
      · rw [value_of_not_stored (by grind), value_of_not_stored (by grind)]
  · intro h e _
    exact h e.row e.col

/-- A matrix has no entry beyond its lines. -/
theorem WellFormed.value_of_le {S : Storage ℝ} (h : S.WellFormed) {i j : Nat}
    (outside : S.count .row ≤ i ∨ S.count .column ≤ j) : S.value i j = 0 := by
  apply value_of_not_stored
  intro e he hi hj
  have row := h.along_lt_count .row he
  have column := h.along_lt_count .column he
  simp only [Entry.along, Axis.select] at row column
  omega

/-! ## The sum with the transpose -/

theorem sliceEntry_filterMap {ls : List Nat} (distinct : ls.Nodup) (g : Nat → ℝ) (h : ℝ → ℝ)
    (l : Nat) :
    sliceEntry (· + ·) 0 (ls.filterMap fun l => if g l = 0 then none else some (l, h (g l))) l =
      if l ∈ ls ∧ g l ≠ 0 then h (g l) else 0 := by
  induction ls with
  | nil => simp
  | cons k ks ih =>
    obtain ⟨fresh, distinct⟩ := List.nodup_cons.1 distinct
    by_cases hk : g k = 0
    · rw [List.filterMap_cons_none (by simp [hk]), ih distinct]
      by_cases hl : l = k <;> simp_all
    · rw [List.filterMap_cons_some (b := (k, h (g k))) (by simp [hk]), sliceEntry_cons, ih distinct]
      by_cases hl : k = l
      · subst hl
        simp [hk, fresh]
      · simp [hl, Ne.symm hl]

theorem sliceEntry_of_le {major : Axis} {minor : Nat} {slices : Array (Slice ℝ)}
    (h : (sparse major minor slices).WellFormed) (k : Nat) {l : Nat} (beyond : minor ≤ l) :
    sliceEntry (· + ·) 0 (slices.getD k []) l = 0 := by
  apply sliceEntry_of_not_mem
  intro e he
  have within := h.lt_minor he
  omega

/-- Where the sum with the transpose is not formed, it is zero. -/
theorem sum_of_not_mem_sumIndices {major : Axis} {minor : Nat} {slices : Array (Slice ℝ)}
    (h : (sparse major minor slices).WellFormed) (square : slices.size = minor) {k l : Nat}
    (absent : l ∉ (sparse major minor slices).sumIndices k) :
    sliceEntry (· + ·) 0 (slices.getD k []) l + sliceEntry (· + ·) 0 (slices.getD l []) k = 0 := by
  simp only [sumIndices] at absent
  split at absent
  · have beyond : minor ≤ l := by simpa using absent
    have empty : slices.getD l [] = [] := by simp [square, beyond]
    rw [sliceEntry_of_le h k beyond, empty, sliceEntry_nil, add_zero]
  · rw [List.mem_reverse, mem_metIndices] at absent
    push Not at absent
    rw [sliceEntry_of_not_mem absent.1, sliceEntry_of_not_mem absent.2, add_zero]

theorem transposeSum_sparse (add : β → β → β) (zero : β) (major : Axis) (minor : Nat)
    (slices : Array (Slice β)) (k l : Nat) :
    (sparse major minor slices).transposeSum add zero (major.position k l).1
        (major.position k l).2 =
      add (sliceEntry add zero (slices.getD k []) l)
        (sliceEntry add zero (slices.getD l []) k) := by
  cases major <;> rfl

theorem sliceEntry_transposeSumSlice {major : Axis} {minor : Nat} {slices : Array (Slice ℝ)}
    (h : (sparse major minor slices).WellFormed) (square : slices.size = minor) (k l : Nat) :
    sliceEntry (· + ·) 0 ((sparse major minor slices).transposeSumSlice (· + ·) 0
        (fun v => Scalar.same v 0) Scalar.half major k) l =
      (sliceEntry (· + ·) 0 (slices.getD k []) l +
        sliceEntry (· + ·) 0 (slices.getD l []) k) / 2 := by
  have distinct := nodup_sumIndices (sparse major minor slices) k
  simp only [transposeSumSlice, transposeSum_sparse, Scalar.same_real, decide_eq_true_eq,
    Scalar.half_real]
  rw [sliceEntry_filterMap distinct (fun l => sliceEntry (· + ·) 0 (slices.getD k []) l +
    sliceEntry (· + ·) 0 (slices.getD l []) k) (· / 2)]
  by_cases hl : l ∈ (sparse major minor slices).sumIndices k
  · simp only [hl, true_and]
    split <;> simp_all
  · rw [sum_of_not_mem_sumIndices h square hl, if_neg (by simp [hl]), zero_div]

/-- In exact arithmetic the symmetric part is half the sum with the transpose. -/
theorem value_symmetrized {S : Storage ℝ} (h : S.WellFormed)
    (square : S.count .row = S.count .column) (i j : Nat) :
    (S.symmetrized (· + ·) 0 (fun v => Scalar.same v 0) Scalar.half).value i j =
      (S.value i j + S.value j i) / 2 := by
  cases S with
  | dense cols rows =>
    have square : rows.size = cols := square
    have size (k : Nat) (hk : k < rows.size) : rows[k].size = rows.size :=
      (h rows[k] (by simp)).trans square.symm
    by_cases hi : i < rows.size <;> by_cases hj : j < rows.size <;>
      simp [value, entry, symmetrized, transposeSum, hi, hj, size]
  | sparse major minor slices =>
    have square := size_slices square
    -- beyond the last slice both sides are zero, by the square shape
    have slice (k l : Nat) : sliceEntry (· + ·) 0 (((Array.range slices.size).map
        ((sparse major minor slices).transposeSumSlice (· + ·) 0 (fun v => Scalar.same v 0)
          Scalar.half major)).getD k []) l =
        (sliceEntry (· + ·) 0 (slices.getD k []) l +
          sliceEntry (· + ·) 0 (slices.getD l []) k) / 2 := by
      by_cases hk : k < slices.size
      · simpa [hk] using sliceEntry_transposeSumSlice h square k l
      · have beyond := sliceEntry_of_le h l (square ▸ Nat.not_lt.1 hk)
        simp only [Array.getD_eq_getD_getElem?] at beyond ⊢
        simp [hk, beyond]
    cases major
    · exact slice i j
    · exact slice j i

end Storage

/-! ## Matrices in double or single precision -/

namespace DataMatrix

theorem wellFormed_symmetrized {α : Type} [Scalar α] {M : DataMatrix α}
    (h : M.storage.WellFormed) (square : M.storage.count .row = M.storage.count .column) :
    M.symmetrized.storage.WellFormed :=
  Storage.WellFormed.symmetrized M.precision.add 0 (fun v => Scalar.same v 0)
    (fun v => M.precision.round (Scalar.half v)) h square

variable {M : DataMatrix ℝ}

theorem isSymmetric_iff : M.isSymmetric = true ↔
    ∀ i j, M.storage.value i j = M.storage.value j i := by
  rw [isSymmetric, Precision.add_eq_add]
  exact M.storage.isSymmetric_iff

/-- In exact arithmetic the precision of the entries does not matter. -/
theorem storage_symmetrized (M : DataMatrix ℝ) : M.symmetrized.storage =
    M.storage.symmetrized (· + ·) 0 (fun v => Scalar.same v 0) Scalar.half := by
  have halved : (fun v => M.precision.round (Scalar.half v)) = (Scalar.half : ℝ → ℝ) := by
    funext v
    exact Precision.round_real _ _
  rw [symmetrized, Precision.add_eq_add, halved]

theorem value_symmetrized (h : M.storage.WellFormed)
    (square : M.storage.count .row = M.storage.count .column) (i j : Nat) :
    M.symmetrized.storage.value i j = (M.storage.value i j + M.storage.value j i) / 2 := by
  rw [storage_symmetrized]
  exact Storage.value_symmetrized h square i j

end DataMatrix

end ConicScaling
