import ConicScaling.Proofs.DiagonalProducts
import ConicScaling.Proofs.Norms

/-!
# Taking the symmetric part

A square matrix is replaced by half the sum with its transpose, in the layout that it has. Dense
rows are overwritten. Compressed slices are formed anew from the positions that the matrix or its
transpose stores, and entries that cancel are left out. What is denoted is the same in all layouts,
and doing it again changes nothing.
-/
namespace ConicScaling

open Matrix

/-! ## Symmetric parts of matrices -/

section Matrices

variable {n : Nat} (M : Matrix (Fin n) (Fin n) ℝ)

noncomputable def symmetricPart : Matrix (Fin n) (Fin n) ℝ := (1 + 1 : ℝ)⁻¹ • (M + Mᵀ)

theorem symmetricPart_apply (i j : Fin n) : symmetricPart M i j = (M i j + M j i) / 2 := by
  simp [symmetricPart, div_eq_inv_mul, one_add_one_eq_two]

theorem isSymm_symmetricPart : (symmetricPart M).IsSymm := by
  ext i j
  rw [transpose_apply, symmetricPart_apply, symmetricPart_apply, add_comm]

variable {M}

theorem symmetricPart_of_isSymm (h : M.IsSymm) : symmetricPart M = M := by
  ext i j
  rw [symmetricPart_apply, h.apply i j, add_self_div_two]

variable (M)

/-- A quadratic form only depends on the symmetric part. -/
theorem dotProduct_symmetricPart_mulVec (x : Fin n → ℝ) :
    x ⬝ᵥ (symmetricPart M *ᵥ x) = x ⬝ᵥ (M *ᵥ x) := by
  have transposed : x ⬝ᵥ (Mᵀ *ᵥ x) = x ⬝ᵥ (M *ᵥ x) := by
    rw [mulVec_transpose, dotProduct_comm, dotProduct_mulVec]
  rw [symmetricPart, smul_mulVec, dotProduct_smul, add_mulVec, dotProduct_add, transposed,
    smul_eq_mul]
  ring

end Matrices

/-! ## Compressed sums -/

namespace Storage

variable {β γ : Type}

section Formed

variable (add : β → β → β) (zero : β) (isZero : β → Bool) (finish : β → γ)

/-- Each index of a slice of the sum is met once. -/
theorem storesOnce_symmetrized (S : Storage β) :
    (S.symmetrized add zero isZero finish).StoresOnce := by
  cases S with
  | dense cols rows => trivial
  | sparse major minor slices =>
    intro slice member
    obtain ⟨k, -, rfl⟩ := Array.mem_map.1 member
    refine List.Pairwise.filterMap _ ?_ (nodup_sumIndices _ k)
    grind

theorem forall_entries_symmetrized {S : Storage β} (sparse : S.layout ≠ .dense) {q : γ → Prop}
    (kept : ∀ v, isZero v = false → q (finish v)) :
    ∀ e ∈ (S.symmetrized add zero isZero finish).entries, q e.value := by
  cases S with
  | dense cols rows => exact absurd rfl sparse
  | sparse major minor slices =>
    intro e stored
    simp only [symmetrized, entries, List.mem_flatMap, List.mem_map, Prod.exists] at stored
    obtain ⟨slice, k, place, l, v, member, rfl⟩ := stored
    obtain ⟨k, -, rfl⟩ :=
      Array.mem_map.1 (Array.mem_toList_iff.1 (List.fst_mem_of_mem_zipIdx place))
    obtain ⟨l, -, made⟩ := List.mem_filterMap.1 member
    grind

end Formed

section Square

variable {S : Storage β} {n : Nat} (h : S.Sized n n)

include h

theorem lt_of_mem_indices : ∀ l ∈ S.indices, l < n := by
  intro l member
  obtain ⟨slice, inside, listed⟩ := List.mem_flatMap.1 member
  obtain ⟨e, stored, rfl⟩ := List.mem_map.1 listed
  cases S with
  | dense cols rows => cases inside
  | sparse major minor slices =>
    have within := h.wellFormed slice (Array.mem_toList_iff.1 inside) e stored
    cases major
    · exact h.columns ▸ within
    · exact h.rows ▸ within

theorem length_offsets (sparse : S.layout ≠ .dense) : S.offsets.length = n + 1 := by
  rw [offsets, List.length_map, List.length_range, Nat.succ_inj]
  cases S with
  | dense cols rows => exact absurd rfl sparse
  | sparse major minor slices =>
    cases major
    · exact h.rows
    · exact h.columns

end Square

/-- What is promised of a compressed matrix that was formed anew. -/
structure Tidy (S : Storage ℝ) (n : Nat) : Prop where
  /-- One offset for each slice, and one for the end. -/
  length : S.offsets.length = n + 1
  first : S.offsets.head? = some 0
  increasing : S.offsets.Pairwise (· ≤ ·)
  last : S.offsets.getLast? = some S.indices.length
  range : ∀ l ∈ S.indices, l < n
  once : S.StoresOnce
  nonzero : ∀ e ∈ S.entries, e.value ≠ 0

/-- The second matrix is stored as the first one is, and denotes its symmetric part. -/
structure Symmetrizes (S T : Storage ℝ) (n : Nat) : Prop where
  sized : T.Sized n n
  layout : T.layout = S.layout
  denotes : T.toMatrix n n = symmetricPart (S.toMatrix n n)
  tidy : T.layout ≠ .dense → T.Tidy n

end Storage

namespace DataMatrix

variable {M : DataMatrix ℝ} {n : Nat}

theorem sized_symmetrized (h : M.storage.Sized n n) : M.symmetrized.storage.Sized n n := by
  refine ⟨wellFormed_symmetrized h.wellFormed (h.rows.trans h.columns.symm), ?_⟩
  simp [symmetrized, Storage.shape, h.rows, h.columns]

theorem tidy_symmetrized (h : M.storage.Sized n n) (sparse : M.storage.layout ≠ .dense) :
    M.symmetrized.storage.Tidy n where
  length := Storage.length_offsets (sized_symmetrized h) (by simpa [symmetrized] using sparse)
  first := Storage.head?_offsets _
  increasing := Storage.pairwise_offsets _
  last := Storage.getLast?_offsets _
  range := Storage.lt_of_mem_indices (sized_symmetrized h)
  once := by
    rw [storage_symmetrized]
    exact Storage.storesOnce_symmetrized _ _ _ _ _
  nonzero := by
    rw [storage_symmetrized]
    refine Storage.forall_entries_symmetrized _ _ _ _ sparse (q := (· ≠ 0)) fun v kept => ?_
    -- half of what is not zero is not zero
    simpa using kept

theorem symmetrizes_symmetrized (h : M.storage.Sized n n) :
    M.storage.Symmetrizes M.symmetrized.storage n where
  sized := sized_symmetrized h
  layout := by simp [symmetrized]
  denotes := by
    ext i j
    rw [symmetricPart_apply, Storage.toMatrix_apply]
    exact value_symmetrized h.wellFormed (h.rows.trans h.columns.symm) i j
  tidy sparse := tidy_symmetrized h (by simpa [symmetrized] using sparse)

end DataMatrix

namespace Operand

section Square

variable {p : Precision} {S : Storage ℝ} {n : Nat} (h : S.Sized n n)

include h

theorem isSymmetric?_stored : ∃ symmetric, isSymmetric? (stored (.real p S)) = .ok symmetric ∧
    (symmetric = true ↔ (S.toMatrix n n).IsSymm) := by
  refine ⟨(DataMatrix.mk p S).isSymmetric, ?_, ?_⟩
  · have square : S.shape.1 = S.shape.2 := h.rows.trans h.columns.symm
    simp only [isSymmetric?, shape?, Numbers.shape, bind, Except.bind, square]
    rfl
  · rw [DataMatrix.isSymmetric_iff, Storage.isSymm_toMatrix h.wellFormed h.rows h.columns]

theorem run_symmetrize : ∃ T, symmetrize.run (stored (.real p S)) = .ok () (stored (.real p T)) ∧
    S.Symmetrizes T n := by
  refine ⟨_, bind_of_ok rfl (focus_of_ok (modify?_of_ok ?_)),
    DataMatrix.symmetrizes_symmetrized (M := ⟨p, S⟩) h⟩
  exact if_pos (h.rows.trans h.columns.symm)

/-- The test for symmetry decides whether a square matrix equals its transpose. Taking the symmetric
part succeeds, and leaves a matrix that passes the test, has the same quadratic form, is the same if
the matrix was symmetric, and is denoted by what doing it again leaves. -/
theorem symmetrize_denotes :
    (∃ symmetric, isSymmetric? (stored (.real p S)) = .ok symmetric ∧
      (symmetric = true ↔ (S.toMatrix n n).IsSymm)) ∧
    ∃ T, symmetrize.run (stored (.real p S)) = .ok () (stored (.real p T)) ∧
      S.Symmetrizes T n ∧
      isSymmetric? (stored (.real p T)) = .ok true ∧
      (∀ x : Fin n → ℝ, x ⬝ᵥ (T.toMatrix n n *ᵥ x) = x ⬝ᵥ (S.toMatrix n n *ᵥ x)) ∧
      ((S.toMatrix n n).IsSymm → T.toMatrix n n = S.toMatrix n n) ∧
      ∃ U, symmetrize.run (stored (.real p T)) = .ok () (stored (.real p U)) ∧
        U.toMatrix n n = T.toMatrix n n := by
  refine ⟨isSymmetric?_stored h, ?_⟩
  obtain ⟨T, ran, first⟩ := run_symmetrize (p := p) h
  obtain ⟨U, again, second⟩ := run_symmetrize (p := p) first.sized
  obtain ⟨symmetric, tested, correct⟩ := isSymmetric?_stored (p := p) first.sized
  have isSymm : (T.toMatrix n n).IsSymm := first.denotes ▸ isSymm_symmetricPart _
  rw [correct.2 isSymm] at tested
  refine ⟨T, ran, first, tested, fun x => ?_, fun already => ?_, U, again, ?_⟩
  · rw [first.denotes, dotProduct_symmetricPart_mulVec]
  · rw [first.denotes, symmetricPart_of_isSymm already]
  · rw [second.denotes, symmetricPart_of_isSymm isSymm]

end Square

/-- Two entries that cancel, in columns that are out of order. -/
noncomputable def skewed : Storage ℝ := .sparse .column 2 #[[(1, 1), (0, 1)], [(0, -1)]]

theorem symmetrize_denotes_skewed : skewed.Sized 2 2 ∧
    (∃ symmetric, isSymmetric? (stored (.real .double skewed)) = .ok symmetric ∧
      (symmetric = true ↔ (skewed.toMatrix 2 2).IsSymm)) ∧
    ∃ T, symmetrize.run (stored (.real .double skewed)) = .ok () (stored (.real .double T)) ∧
      skewed.Symmetrizes T 2 ∧
      isSymmetric? (stored (.real .double T)) = .ok true ∧
      (∀ x : Fin 2 → ℝ, x ⬝ᵥ (T.toMatrix 2 2 *ᵥ x) = x ⬝ᵥ (skewed.toMatrix 2 2 *ᵥ x)) ∧
      ((skewed.toMatrix 2 2).IsSymm → T.toMatrix 2 2 = skewed.toMatrix 2 2) ∧
      ∃ U, symmetrize.run (stored (.real .double T)) = .ok () (stored (.real .double U)) ∧
        U.toMatrix 2 2 = T.toMatrix 2 2 := by
  have sized : skewed.Sized 2 2 := by
    refine ⟨?_, rfl⟩
    simp only [skewed, Storage.WellFormed]
    grind
  exact ⟨sized, symmetrize_denotes sized⟩

end Operand

end ConicScaling
