import ConicScaling.Problem

/-!
# Products that succeed

A product with a diagonal can only fail because lengths disagree. Where every diagonal has an entry
for each line it scales, products are functions, and the data keep their shape.
-/
namespace ConicScaling

variable {α : Type}

namespace Diagonal

/-- The identity spans any number of lines, other diagonals as many as they have entries. -/
def Spans (n : Nat) : Diagonal α → Prop
  | identity => True
  | entries d => d.size = n

theorem spans_entries {d : Array α} {n : Nat} (h : d.size = n) : (entries d).Spans n := h

variable [Scalar α]

def applied (d : Diagonal α) (v : Array α) : Array α :=
  match d with
  | identity => v
  | entries d => times d v

@[simp] theorem size_applied {d : Diagonal α} {v : Array α} (h : d.Spans v.size) :
    (d.applied v).size = v.size := by
  cases d with
  | identity => rfl
  | entries d => exact size_times h

theorem scaleVector_of_spans {d : Diagonal α} {v : Array α} (h : d.Spans v.size) :
    d.scaleVector.run v = .ok () (d.applied v) := by
  cases d with
  | identity => rfl
  | entries d =>
    refine modify?_of_ok ?_
    rw [expand_of_size h]
    exact if_pos h

end Diagonal

variable [Scalar α]

namespace DataMatrix

def scaledAlong (axis : Axis) (d : Diagonal α) (M : DataMatrix α) : DataMatrix α :=
  match d with
  | .identity => M
  | .entries d => { M with storage := Diagonal.scaleLines M.precision.round axis d M.storage }

/-- `diag L · M · diag R`. -/
def scaled (L R : Diagonal α) (M : DataMatrix α) : DataMatrix α :=
  let order := M.storage.productOrder
  (M.scaledAlong order.1 (order.1.side L R)).scaledAlong order.2 (order.2.side L R)

variable {M : DataMatrix α}

@[simp] theorem count_scaledAlong (axis : Axis) (d : Diagonal α) (other : Axis) :
    (M.scaledAlong axis d).storage.count other = M.storage.count other := by
  cases d <;> simp [scaledAlong, Diagonal.scaleLines]

@[simp] theorem count_scaled (L R : Diagonal α) (axis : Axis) :
    (M.scaled L R).storage.count axis = M.storage.count axis := by
  simp [scaled]

@[simp] theorem count_multiplied (c : α) (axis : Axis) :
    (M.multiplied c).storage.count axis = M.storage.count axis := by
  simp [multiplied, Storage.map]

theorem wellFormed_scaledAlong (h : M.storage.WellFormed) (axis : Axis) (d : Diagonal α) :
    (M.scaledAlong axis d).storage.WellFormed := by
  cases d with
  | identity => exact h
  | entries d => exact h.mapEntries _

theorem wellFormed_scaled (h : M.storage.WellFormed) (L R : Diagonal α) :
    (M.scaled L R).storage.WellFormed :=
  wellFormed_scaledAlong (wellFormed_scaledAlong h _ _) _ _

theorem wellFormed_multiplied (h : M.storage.WellFormed) (c : α) :
    (M.multiplied c).storage.WellFormed :=
  h.mapEntries _

theorem scaleAlong_of_spans (h : M.storage.WellFormed) (axis : Axis) {d : Diagonal α}
    (spans : d.Spans (M.storage.count axis)) :
    (scaleAlong axis d).run M = .ok () (M.scaledAlong axis d) := by
  cases d with
  | identity => rfl
  | entries d =>
    have accepted := Diagonal.check_count (α := α) h axis
    rw [← show d.size = _ from spans] at accepted
    refine modify?_of_ok ?_
    rw [accepted, Diagonal.expand_of_size spans]
    rfl

theorem scale_of_spans (h : M.storage.WellFormed) {L R : Diagonal α}
    (left : L.Spans (M.storage.count .row)) (right : R.Spans (M.storage.count .column)) :
    (scale L R).run M = .ok () (M.scaled L R) := by
  have side (axis : Axis) : (axis.side L R).Spans (M.storage.count axis) := by
    cases axis <;> assumption
  unfold scale
  refine bind_of_ok (EStateM.run_get M) ?_
  refine bind_of_ok (scaleAlong_of_spans h _ (side _)) ?_
  exact scaleAlong_of_spans (wellFormed_scaledAlong h _ _) _ (by simpa using side _)

end DataMatrix

namespace Data

/-- `P` is square, `A` has as many columns, and the vectors have an entry for each line. -/
structure Shaped (d : Data (DataMatrix α) α) (m n : Nat) : Prop where
  wellFormedP : d.P.storage.WellFormed
  rowsP : d.P.storage.count .row = n
  columnsP : d.P.storage.count .column = n
  wellFormedA : d.A.storage.WellFormed
  rowsA : d.A.storage.count .row = m
  columnsA : d.A.storage.count .column = n
  sizeq : d.q.size = n
  sizeb : d.b.size = m

/-- Whether `P` and `A` store no position twice. -/
structure Canonical (d : Data (DataMatrix α) α) : Prop where
  P : d.P.storage.IsCanonical
  A : d.A.storage.IsCanonical

/-- The objective multiplied by `c`. -/
def costed (c : α) (d : Data (DataMatrix α) α) : Data (DataMatrix α) α :=
  { d with P := d.P.multiplied c, q := d.q.map (· * c) }

def scaled (D E : Diagonal α) (c : α) (d : Data (DataMatrix α) α) : Data (DataMatrix α) α :=
  let scaled := ⟨d.P.scaled D D, d.A.scaled E D, D.applied d.q, E.applied d.b⟩
  if Scalar.same c 1 then scaled else scaled.costed c

variable {d : Data (DataMatrix α) α} {m n : Nat}

theorem Shaped.costed (h : d.Shaped m n) (c : α) : (d.costed c).Shaped m n where
  wellFormedP := DataMatrix.wellFormed_multiplied h.wellFormedP c
  rowsP := by simp [Data.costed, h.rowsP]
  columnsP := by simp [Data.costed, h.columnsP]
  wellFormedA := h.wellFormedA
  rowsA := h.rowsA
  columnsA := h.columnsA
  sizeq := by simp [Data.costed, h.sizeq]
  sizeb := h.sizeb

variable {D E : Diagonal α}

theorem Shaped.scaled (h : d.Shaped m n) (spansD : D.Spans n) (spansE : E.Spans m) (c : α) :
    (d.scaled D E c).Shaped m n := by
  have products : Shaped ⟨d.P.scaled D D, d.A.scaled E D, D.applied d.q, E.applied d.b⟩ m n :=
    { wellFormedP := DataMatrix.wellFormed_scaled h.wellFormedP D D
      rowsP := by simp [h.rowsP]
      columnsP := by simp [h.columnsP]
      wellFormedA := DataMatrix.wellFormed_scaled h.wellFormedA E D
      rowsA := by simp [h.rowsA]
      columnsA := by simp [h.columnsA]
      sizeq := (Diagonal.size_applied (h.sizeq ▸ spansD)).trans h.sizeq
      sizeb := (Diagonal.size_applied (h.sizeb ▸ spansE)).trans h.sizeb }
  unfold Data.scaled
  split
  · exact products
  · exact products.costed c

/-- Scaling goes through, on matrices of whatever kind, if each of its products does. -/
theorem run_scale {μ : Type} [Scalable μ α] {P P' P'' A A' : μ} {q q' b b' : Array α} (c : α)
    (scaleP : (Scalable.scale D D).run P = .ok () P')
    (scaleA : (Scalable.scale E D).run A = .ok () A') (scaleq : D.scaleVector.run q = .ok () q')
    (scaleb : E.scaleVector.run b = .ok () b')
    (multiplied : (Scalable.multiply c).run P' = .ok () P'') :
    (scale D E c).run ⟨P, A, q, b⟩ = .ok () (if Scalar.same c 1 then ⟨P', A', q', b'⟩
      else ⟨P'', A', q'.map (· * c), b'⟩) := by
  unfold scale
  refine bind_of_ok (focus_of_ok scaleP) ?_
  refine bind_of_ok (focus_of_ok scaleA) ?_
  refine bind_of_ok (focus_of_ok scaleq) ?_
  refine bind_of_ok (focus_of_ok scaleb) ?_
  cases Scalar.same c 1 with
  | true => rfl
  | false => exact bind_of_ok (focus_of_ok multiplied) rfl

theorem scale_of_shaped (h : d.Shaped m n) (spansD : D.Spans n) (spansE : E.Spans m) (c : α) :
    (scale D E c).run d = .ok () (d.scaled D E c) := by
  have scaleP : (Scalable.scale D D).run d.P = .ok () (d.P.scaled D D) :=
    DataMatrix.scale_of_spans h.wellFormedP (h.rowsP ▸ spansD) (h.columnsP ▸ spansD)
  have scaleA : (Scalable.scale E D).run d.A = .ok () (d.A.scaled E D) :=
    DataMatrix.scale_of_spans h.wellFormedA (h.rowsA ▸ spansE) (h.columnsA ▸ spansD)
  have scaleq := Diagonal.scaleVector_of_spans (h.sizeq ▸ spansD : D.Spans d.q.size)
  have scaleb := Diagonal.scaleVector_of_spans (h.sizeb ▸ spansE : E.Spans d.b.size)
  exact run_scale c scaleP scaleA scaleq scaleb rfl

end Data

end ConicScaling
