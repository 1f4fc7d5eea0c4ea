import ConicScaling.Proofs.Denotation
import ConicScaling.Proofs.Indices

/-!
# Canonical storage

Norms are taken over stored entries, so they rely on every position being stored once. Setting up
sees to that, whatever form a matrix comes in, and denotes the same matrix. No call breaks it: the
index arrays of `A` are never replaced, and those of `P` only when it is made symmetric.
-/
namespace ConicScaling

variable {α : Type}

/-- Whether both matrices are told by index arrays in order. -/
structure Data.Indexed (d : Data (DataMatrix α) α) : Prop where
  P : d.P.storage.Indexed
  A : d.A.storage.Indexed

theorem Data.Kept.indexed {d : Data (DataMatrix α) α} (h : d.Kept) : d.Indexed :=
  ⟨Storage.indexed_of_canonical h.P.wellFormed h.P.canonical,
    Storage.indexed_of_canonical h.A.wellFormed h.A.canonical⟩

theorem DataMatrix.sameIndices_of_form {M N : DataMatrix α} (same : N.form = M.form) :
    N.storage.SameIndices M.storage :=
  Storage.sameIndices_of_pattern (pattern_eq_of_form same)

variable [Scalar α]

/-- What a call may do to the index arrays of `P`: nothing, unless it takes the symmetric part of a
matrix that has the same ones. -/
inductive Reindexes (call : Call α) (P N : DataMatrix α) : Prop
  | kept (same : N.storage.SameIndices P.storage)
  | symmetrized {settings : Option (Source α)} {L : DataMatrix α}
      (equilibrates : call = .equilibrate settings) (before : L.storage.SameIndices P.storage)
      (differs : L.isSymmetric = false) (after : N.storage.SameIndices L.symmetrized.storage)
      (old : ∀ p ∈ N.storage.positions, p ∈ P.storage.positions ∨ p.swap ∈ P.storage.positions)

/-- What a step keeps of the matrices of the workspace that was set up. -/
structure Step.KeepsStorage (w : Workspace α) (step : Step α) : Prop where
  indexed : step.after.data.Indexed
  P : Reindexes step.call step.before.data.P step.after.data.P
  A : step.after.data.A.storage.SameIndices w.data.A.storage

namespace Workspace

/-- What is promised of the matrices of a workspace that was set up, whatever is called then. -/
structure StoresCanonically (p : Submission α) (r : Run α) : Prop where
  layoutP : r.workspace.data.P.storage.layout = p.P.intakeLayout
  layoutA : r.workspace.data.A.storage.layout = p.A.intakeLayout
  indexed : r.workspace.data.Indexed
  keeps : ∀ calls, ∀ step ∈ history calls r, step.KeepsStorage r.workspace

/-- Whether the matrices of a workspace denote those that were handed over. -/
structure Denotes (w : Workspace ℝ) (p : Submission ℝ) : Prop where
  P : p.P.StandsFor w.data.P.storage
  A : p.A.StandsFor w.data.A.storage

section Calls

variable (zeros : ∀ p : Precision, Scalar.same (p.add (0 : α) 0) 0 = true)

include zeros

theorem reindexes_of_evolves {P N : DataMatrix α} (evolves : P.Evolves N)
    (settings : Option (Source α)) : Reindexes (.equilibrate settings) P N := by
  cases evolves with
  | kept same => exact .kept (DataMatrix.sameIndices_of_form same)
  | @symmetrized L _ before differs square after =>
    refine .symmetrized rfl (DataMatrix.sameIndices_of_form before) differs
      (DataMatrix.sameIndices_of_form after) fun p stored => ?_
    rw [Storage.positions_eq_of_pattern (DataMatrix.pattern_eq_of_form after)] at stored
    rw [← Storage.positions_eq_of_pattern (DataMatrix.pattern_eq_of_form before)]
    exact Storage.positions_symmetrized L.precision.add 0 (fun v => Scalar.same v 0)
      (fun v => L.precision.round (Scalar.half v)) (zeros L.precision) stored

theorem reindexes_perform (call : Call α) (r : Run α) :
    Reindexes call r.workspace.data.P (ended (call.perform.run r)).2.workspace.data.P := by
  cases call with
  | warmStart x s mu =>
    have forms := keeps_warmStart x s mu r ⟨rfl, rfl⟩
    exact .kept (DataMatrix.sameIndices_of_form forms.1)
  | equilibrate settings =>
    exact reindexes_of_evolves zeros (evolves_perform (.equilibrate settings) r).P settings
  | reverse =>
    have forms := keeps_reverse r ⟨rfl, rfl⟩
    exact .kept (DataMatrix.sameIndices_of_form forms.1)

/-- Every call keeps what holds of the matrices. -/
theorem keepsStorage_of_mem_history {r : Run α} (kept : r.workspace.data.Kept)
    {calls : List (Call α)} {step : Step α} (made : step ∈ history calls r) :
    step.KeepsStorage r.workspace := by
  have invariant (call : Call α) (r' : Run α)
      (h : r'.workspace.data.Kept ∧ r'.workspace.data.A.form = r.workspace.data.A.form) :
      (ended (call.perform.run r')).2.workspace.data.Kept ∧
        (ended (call.perform.run r')).2.workspace.data.A.form = r.workspace.data.A.form := by
    have evolves := evolves_perform call r'
    exact ⟨h.1.evolves evolves, evolves.A.trans h.2⟩
  obtain ⟨r', holds, before, after⟩ := exists_run_of_mem_history invariant ⟨kept, rfl⟩ made
  obtain ⟨kept', form⟩ := invariant step.call r' holds
  refine ⟨?_, ?_, ?_⟩
  · rw [after]
    exact kept'.indexed
  · rw [before, after]
    exact reindexes_perform zeros step.call r'
  · rw [after]
    exact DataMatrix.sameIndices_of_form form

theorem storesCanonically_setUp {p : Submission α} {journal after : Journal α} {w : Workspace α}
    (ran : (setUp p).run journal = .ok w after) (wellFormed : p.WellFormed) :
    StoresCanonically p ⟨w, after⟩ := by
  have kept := kept_setUp ran wellFormed
  obtain ⟨data, cones, settings, iterates, taken, -, rfl, -⟩ := setUp_eq_ok ran
  obtain ⟨_, _, readP⟩ := taken.P
  obtain ⟨_, _, readA⟩ := taken.A
  exact {
    layoutP := (Operand.becomes_of_run readP).layout
    layoutA := (Operand.becomes_of_run readA).layout
    indexed := kept.indexed
    keeps := fun _ _ made => keepsStorage_of_mem_history zeros kept made }

end Calls

theorem denotes_setUp {p : Submission ℝ} {journal after : Journal ℝ} {w : Workspace ℝ}
    (ran : (setUp p).run journal = .ok w after) (wellFormed : p.WellFormed) (exactP : p.P.Exact)
    (exactA : p.A.Exact) : w.Denotes p := by
  obtain ⟨data, cones, settings, iterates, taken, -, rfl, -⟩ := setUp_eq_ok ran
  obtain ⟨_, _, readP⟩ := taken.P
  obtain ⟨_, _, readA⟩ := taken.A
  exact ⟨(Operand.becomes_of_run readP).standsFor wellFormed.P exactP,
    (Operand.becomes_of_run readA).standsFor wellFormed.A exactA⟩

/-- Whatever form the matrices come in, a workspace stores every position once and denotes the same
matrices, and equilibrating and mapping back leave it so. -/
theorem canonical_storage (zeros : ∀ p : Precision, Scalar.same (p.add (0 : α) 0) 0 = true) :
    (∀ (M : Operand α) (input : Input) (journal : Journal α),
      (∃ N after, (M.intakeMatrix input).run journal = .ok N after) ↔ M.IsMatrix) ∧
    (∀ (p : Submission α) (journal after : Journal α) (w : Workspace α), p.WellFormed →
      (setUp p).run journal = .ok w after → StoresCanonically p ⟨w, after⟩) ∧
    ∀ (p : Submission ℝ) (journal after : Journal ℝ) (w : Workspace ℝ), p.WellFormed →
      p.P.Exact → p.A.Exact → (setUp p).run journal = .ok w after → w.Denotes p := by
  refine ⟨fun _ _ _ => Operand.exists_run_iff, ?_, ?_⟩
  · exact fun _ _ _ _ wellFormed ran => storesCanonically_setUp zeros ran wellFormed
  · exact fun _ _ _ _ wellFormed exactP exactA ran => denotes_setUp ran wellFormed exactP exactA

/-- Integers out of order, two of which cancel. -/
def cancelling : Triplets Int64 := ⟨2, 2, [⟨1, 1, 1⟩, ⟨1, 0, 3⟩, ⟨0, 1, 2⟩, ⟨1, 0, -3⟩]⟩

/-- A problem whose `P` is given by coordinates and whose `A` has duplicates. -/
noncomputable def scattered (a : ℝ) : Submission ℝ :=
  { inSlices a with
    P := .triplets .coordinates (.integer cancelling)
    x := none }

theorem wellFormed_cancelling : cancelling.WellFormed := by
  simp [cancelling, Triplets.WellFormed]

theorem wellFormed_scattered (a : ℝ) : (scattered a).WellFormed :=
  { wellFormed_inSlices a with P := wellFormed_cancelling }

theorem exact_scattered (a : ℝ) : (scattered a).P.Exact := by
  intro i j
  by_cases inside : i < 2 ∧ j < 2
  · obtain ⟨hi, hj⟩ := inside
    interval_cases i <;> interval_cases j <;> decide
  · have empty : cancelling.valuesAt i j = [] := by
      simp only [cancelling, Triplets.valuesAt]
      grind
    rw [empty]
    decide

theorem exists_run_scattered (a : ℝ) : ∃ w after, (setUp (scattered a)).run #[] = .ok w after := by
  have matrixA : (scattered a).A.IsMatrix := ⟨⟨_, _, rfl⟩, fun _ same => nomatch same⟩
  have matrixP : (scattered a).P.IsMatrix := ⟨⟨_, _, rfl⟩, fun _ same => nomatch same⟩
  obtain ⟨A, afterA, ranA⟩ := matrixA.exists_run .A #[]
  obtain ⟨P, afterP, ranP⟩ := matrixP.exists_run .P afterA
  have square {S : Storage ℝ} (h : some [2, 2] = some [S.shape.1, S.shape.2]) :
      S.shape = (2, 2) := by grind
  have shapeA := square (Operand.becomes_of_run ranA).extents
  have shapeP := square (Operand.becomes_of_run ranP).extents
  let sets : List (Cone ℝ) := [.block (.box #[-1] #[1]), .block (.nonnegative 1)]
  have taken : (intakeData (scattered a)).run #[] =
      .ok (⟨P, A, #[1, -1], #[0, 1]⟩, .product sets) afterP := by
    refine bind_of_ok ranA ?_
    simp only [shapeA]
    refine bind_of_ok ranP ?_
    simp only [shapeP]
    rfl
  refine ⟨fresh ⟨P, A, #[1, -1], #[0, 1]⟩ (.product sets) .standard, afterP, ?_⟩
  exact bind_of_ok taken (bind_of_ok (ofExcept_of_ok rfl _) rfl)

theorem canonical_storage_scattered :
    (∀ p : Precision, Scalar.same (p.add (0 : ℝ) 0) 0 = true) ∧ (scattered 4).WellFormed ∧
      (scattered 4).P.Exact ∧ (scattered 4).A.Exact ∧
        ∃ w after, (setUp (scattered 4)).run #[] = .ok w after ∧
          StoresCanonically (scattered 4) ⟨w, after⟩ ∧ w.Denotes (scattered 4) := by
  have zeros (p : Precision) : Scalar.same (p.add (0 : ℝ) 0) 0 = true := by simp
  obtain ⟨w, after, ran⟩ := exists_run_scattered 4
  obtain ⟨-, stores, denotes⟩ := canonical_storage zeros
  exact ⟨zeros, wellFormed_scattered 4, exact_scattered 4, trivial, w, after, ran,
    stores _ _ _ _ (wellFormed_scattered 4) ran,
    denotes _ _ _ _ (wellFormed_scattered 4) (exact_scattered 4) trivial ran⟩

end Workspace

end ConicScaling
