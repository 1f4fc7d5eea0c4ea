import ConicScaling.Proofs.Indices
import ConicScaling.Proofs.Transform

/-!
# Products with diagonals

A product with diagonals goes through the stored entries, each of which is multiplied by the weights
of its row and column. A position may be stored several times or not at all, but every entry there
has the same weights. So what the matrix stands for is multiplied from both sides, whatever its
layout, and the index arrays stay as they are.
-/
namespace ConicScaling

open Matrix

variable {m n : Nat}

/-! ## What is denoted -/

namespace Diagonal

/-- The matrix that a diagonal stands for among `n` lines. -/
noncomputable def toMatrix (d : Diagonal ℝ) (n : Nat) : Matrix (Fin n) (Fin n) ℝ :=
  match d with
  | identity => 1
  | entries d => diagonal (toVector d n)

variable {d : Diagonal ℝ}

theorem toMatrix_eq_weight (spans : d.Spans n) :
    d.toMatrix n = diagonal fun i : Fin n => d.weight i := by
  cases d with
  | identity => exact diagonal_one.symm
  | entries d => exact congrArg diagonal (funext (toVector_eq_weight spans))

theorem toVector_applied {v : Array ℝ} (size : v.size = n) (spans : d.Spans n) :
    toVector (d.applied v) n = d.toMatrix n *ᵥ toVector v n := by
  subst size
  funext i
  rw [applied_real spans, toVector_weightedVector, toMatrix_eq_weight spans, mulVec_diagonal,
    mul_comm]

end Diagonal

namespace Storage

/-- A matrix with `m` rows and `n` columns whose stored positions are within it. -/
structure Sized {β : Type} (S : Storage β) (m n : Nat) : Prop where
  wellFormed : S.WellFormed
  shape : S.shape = (m, n)

theorem Sized.rows {β : Type} {S : Storage β} (h : S.Sized m n) : S.count .row = m :=
  congrArg Prod.fst h.shape

theorem Sized.columns {β : Type} {S : Storage β} (h : S.Sized m n) : S.count .column = n :=
  congrArg Prod.snd h.shape

/-- The second matrix is stored at the positions of the first one, and denotes `M`. -/
structure Revalued (S T : Storage ℝ) (M : Matrix (Fin m) (Fin n) ℝ) : Prop where
  sized : T.Sized m n
  indices : T.SameIndices S
  denotes : T.toMatrix m n = M

variable {S T U : Storage ℝ}

theorem Sized.revalued_weighted (h : S.Sized m n) {f : Nat → Nat → ℝ}
    {M : Matrix (Fin m) (Fin n) ℝ} (denotes : (S.weighted f).toMatrix m n = M) :
    S.Revalued (S.weighted f) M where
  sized := ⟨h.wellFormed.mapEntries _, (shape_mapEntries _ S).trans h.shape⟩
  indices := sameIndices_of_pattern (pattern_mapEntries _ S)
  denotes := denotes

theorem Revalued.trans {M N : Matrix (Fin m) (Fin n) ℝ} (h : S.Revalued T M)
    (g : T.Revalued U N) : S.Revalued U N :=
  ⟨g.sized, g.indices.trans h.indices, g.denotes⟩

end Storage

/-! ## Matrices of real numbers -/

namespace DataMatrix

variable {M : DataMatrix ℝ}

theorem revalued_scaled (h : M.storage.Sized m n) {L R : Diagonal ℝ} (left : L.Spans m)
    (right : R.Spans n) : M.storage.Revalued (M.scaled L R).storage
      (L.toMatrix m * M.storage.toMatrix m n * R.toMatrix n) := by
  rw [scaled_real, Diagonal.toMatrix_eq_weight left, Diagonal.toMatrix_eq_weight right]
  exact h.revalued_weighted (Storage.toMatrix_weighted _ _ _ fun _ _ => rfl)

theorem revalued_multiplied (h : M.storage.Sized m n) (c : ℝ) :
    M.storage.Revalued (M.multiplied c).storage (c • M.storage.toMatrix m n) := by
  rw [multiplied_real]
  refine h.revalued_weighted ?_
  ext i j
  rw [Storage.toMatrix_apply, Storage.value_weighted, mul_comm]
  rfl

end DataMatrix

namespace Operand

variable {p : Precision} {S : Storage ℝ}

/-- What succeeds on a matrix of real numbers does so where such a matrix is handed over. -/
theorem run_onReal {act : EStateM (Fault ℝ) (DataMatrix ℝ) Unit}
    {other : {β : Type} → Storage β → Except (Fault ℝ) Unit} {M : DataMatrix ℝ}
    (ran : act.run ⟨p, S⟩ = .ok () M) :
    (onStorage (Numbers.onReal act other)).run (stored (.real p S)) =
      .ok () (stored (.real M.precision M.storage)) := by
  refine bind_of_ok rfl (bind_of_ok rfl (focus_of_ok ?_))
  exact bind_of_ok rfl (focus_of_ok ran)

variable (h : S.Sized m n)

include h

theorem run_scale {L R : Diagonal ℝ} (left : L.Spans m) (right : R.Spans n) :
    ∃ T, (Scalable.scale L R).run (stored (.real p S)) = .ok () (stored (.real p T)) ∧
      S.Revalued T (L.toMatrix m * S.toMatrix m n * R.toMatrix n) := by
  have ran := DataMatrix.scale_of_spans (M := ⟨p, S⟩) h.wellFormed (h.rows ▸ left)
    (h.columns ▸ right)
  have revalued := DataMatrix.revalued_scaled (M := ⟨p, S⟩) h left right
  rw [DataMatrix.scaled_real] at ran revalued
  exact ⟨_, run_onReal ran, revalued⟩

theorem run_multiply (c : ℝ) :
    ∃ T, (Scalable.multiply c).run (stored (.real p S)) = .ok () (stored (.real p T)) ∧
      S.Revalued T (c • S.toMatrix m n) :=
  ⟨_, run_onReal (M := DataMatrix.multiplied c ⟨p, S⟩) rfl,
    DataMatrix.revalued_multiplied (M := ⟨p, S⟩) h c⟩

end Operand

/-! ## Problem data -/

/-- Products with diagonals and scalars succeed where the lengths agree, keep the positions that are
stored, and give what they are named for. -/
theorem products_denote :
    (∀ (p : Precision) (S : Storage ℝ) (m n : Nat), S.Sized m n →
      (∀ L R : Diagonal ℝ, L.Spans m → R.Spans n → ∃ T,
        (Scalable.scale L R).run (Operand.stored (.real p S)) = .ok () (.stored (.real p T)) ∧
          S.Revalued T (L.toMatrix m * S.toMatrix m n * R.toMatrix n)) ∧
      ∀ c : ℝ, ∃ T,
        (Scalable.multiply c).run (Operand.stored (.real p S)) = .ok () (.stored (.real p T)) ∧
          S.Revalued T (c • S.toMatrix m n)) ∧
    ∀ (p p' : Precision) (P A : Storage ℝ) (q b : Array ℝ) (m n : Nat), P.Sized n n →
      A.Sized m n → q.size = n → b.size = m →
      ∀ D E : Diagonal ℝ, D.Spans n → E.Spans m → ∀ c : ℝ, ∃ P' A' q' b',
        (Data.scale D E c).run ⟨Operand.stored (.real p P), .stored (.real p' A), q, b⟩ =
            .ok () ⟨.stored (.real p P'), .stored (.real p' A'), q', b'⟩ ∧
          P.Revalued P' (c • (D.toMatrix n * P.toMatrix n n * D.toMatrix n)) ∧
          A.Revalued A' (E.toMatrix m * A.toMatrix m n * D.toMatrix n) ∧
          q'.size = n ∧ toVector q' n = c • (D.toMatrix n *ᵥ toVector q n) ∧
          b'.size = m ∧ toVector b' m = E.toMatrix m *ᵥ toVector b m := by
  constructor
  · intro p S m n h
    exact ⟨fun L R left right => Operand.run_scale h left right, Operand.run_multiply h⟩
  · intro p p' P A q b m n hP hA sizeq sizeb D E spansD spansE c
    obtain ⟨P₁, scaleP, firstP⟩ := Operand.run_scale (p := p) hP spansD spansD
    obtain ⟨P₂, multiplied, secondP⟩ := Operand.run_multiply (p := p) firstP.sized c
    obtain ⟨A₁, scaleA, revaluedA⟩ := Operand.run_scale (p := p') hA spansE spansD
    have scaleq := Diagonal.scaleVector_of_spans (sizeq ▸ spansD : D.Spans q.size)
    have scaleb := Diagonal.scaleVector_of_spans (sizeb ▸ spansE : E.Spans b.size)
    have size₁ := (Diagonal.size_applied (sizeq ▸ spansD : D.Spans q.size)).trans sizeq
    have size₂ := (Diagonal.size_applied (sizeb ▸ spansE : E.Spans b.size)).trans sizeb
    have onq := Diagonal.toVector_applied sizeq spansD
    have onb := Diagonal.toVector_applied sizeb spansE
    have ran := Data.run_scale c scaleP scaleA scaleq scaleb multiplied
    by_cases one : c = 1
    · -- a factor of one is not multiplied by
      subst one
      simp only [Scalar.same_real, decide_true, if_true] at ran
      simp only [one_smul]
      exact ⟨_, _, _, _, ran, firstP, revaluedA, size₁, onq, size₂, onb⟩
    · simp only [Scalar.same_real, one, decide_false, Bool.false_eq_true, if_false] at ran
      refine ⟨_, _, _, _, ran, ?_, revaluedA, ?_, ?_, size₂, onb⟩
      · rw [← firstP.denotes]
        exact firstP.trans secondP
      · simpa using size₁
      · rw [toVector_map_mul, onq]

/-- A column that stores a position twice and out of order, an empty one, and one with a zero. -/
noncomputable def jumbled : Storage ℝ :=
  .sparse .column 2 #[[(1, -1), (0, 1), (1, -1)], [], [(0, 0)]]

/-- Rows of a square matrix, one of them out of order. -/
noncomputable def jumbledRows : Storage ℝ := .sparse .row 3 #[[(2, 1)], [(1, 0), (0, 5)], []]

theorem sized_jumbled : jumbled.Sized 2 3 := by
  refine ⟨?_, rfl⟩
  simp only [jumbled, Storage.WellFormed]
  grind

theorem sized_jumbledRows : jumbledRows.Sized 3 3 := by
  refine ⟨?_, rfl⟩
  simp only [jumbledRows, Storage.WellFormed]
  grind

theorem products_denote_jumbled :
    (jumbled.Sized 2 3 ∧ ∃ T,
      (Scalable.scale (.entries #[2, 3]) .identity).run
          (Operand.stored (.real .single jumbled)) = .ok () (.stored (.real .single T)) ∧
        jumbled.Revalued T ((Diagonal.entries #[2, 3]).toMatrix 2 * jumbled.toMatrix 2 3 *
          Diagonal.identity.toMatrix 3)) ∧
    jumbledRows.Sized 3 3 ∧ ∃ P A q b,
      (Data.scale (.entries #[1, 2, 3]) .identity 7).run
          ⟨Operand.stored (.real .double jumbledRows), .stored (.real .double jumbled),
            #[1, -1, 0], #[1, 0]⟩ =
          .ok () ⟨.stored (.real .double P), .stored (.real .double A), q, b⟩ ∧
        jumbledRows.Revalued P ((7 : ℝ) • ((Diagonal.entries #[1, 2, 3]).toMatrix 3 *
          jumbledRows.toMatrix 3 3 * (Diagonal.entries #[1, 2, 3]).toMatrix 3)) ∧
        jumbled.Revalued A (Diagonal.identity.toMatrix 2 * jumbled.toMatrix 2 3 *
          (Diagonal.entries #[1, 2, 3]).toMatrix 3) ∧
        q.size = 3 ∧ toVector q 3 = (7 : ℝ) • ((Diagonal.entries #[1, 2, 3]).toMatrix 3 *ᵥ
          toVector #[1, -1, 0] 3) ∧
        b.size = 2 ∧ toVector b 2 = Diagonal.identity.toMatrix 2 *ᵥ toVector #[1, 0] 2 :=
  ⟨⟨sized_jumbled, (products_denote.1 .single jumbled 2 3 sized_jumbled).1 _ _ rfl trivial⟩,
    sized_jumbledRows, products_denote.2 .double .double jumbledRows jumbled _ _ 2 3
      sized_jumbledRows sized_jumbled rfl rfl (.entries #[1, 2, 3]) .identity rfl trivial 7⟩

end ConicScaling
