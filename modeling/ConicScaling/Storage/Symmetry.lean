import ConicScaling.Storage.Canonical

/-!
# Symmetric matrices

Comparing a matrix with its transpose, and taking the symmetric part.
-/
namespace ConicScaling.Storage

variable {β γ : Type}

/-- Whether a square matrix equals its transpose. It is enough to look at stored positions. -/
def isSymmetric (add : β → β → β) (zero : β) (same : β → β → Bool) (S : Storage β) : Bool :=
  S.entries.all fun e =>
    same (S.entry add zero e.row e.col) (S.entry add zero e.col e.row)

/-- The sum with the transpose, at one position. -/
def transposeSum (add : β → β → β) (zero : β) (S : Storage β) (i j : Nat) : β :=
  add (S.entry add zero i j) (S.entry add zero j i)

/-- The indices that slice `k` of the matrix or of its transpose stores, as they are first met: the
slice's own, then one for each slice that stores `k`. -/
def metIndices (slices : Array (Slice β)) (k : Nat) : List Nat :=
  let own := (slices.getD k []).map (·.1)
  let crossing := (List.range slices.size).filter fun l =>
    (slices.getD l []).any fun e => e.1 == k
  (own ++ crossing).eraseDups

/-- The indices along which slice `k` of the sum with the transpose is formed. Canonical slices are
merged in increasing order. Otherwise the index met last comes first. -/
def sumIndices (S : Storage β) (k : Nat) : List Nat :=
  match S with
  | dense cols _ => List.range cols
  | sparse _ minor slices =>
    if S.IsCanonical then List.range minor else (metIndices slices k).reverse

/-- One slice of the sum with the transpose. Only what is not zero is stored. -/
def transposeSumSlice (add : β → β → β) (zero : β) (isZero : β → Bool) (finish : β → γ)
    (S : Storage β) (major : Axis) (k : Nat) : Slice γ :=
  (S.sumIndices k).filterMap fun l =>
    let sum := S.transposeSum add zero (major.position k l).1 (major.position k l).2
    if isZero sum then none else some (l, finish sum)

/-- The sum of a square matrix with its transpose, in the same layout, with each entry finished
by `finish`. -/
def symmetrized (add : β → β → β) (zero : β) (isZero : β → Bool) (finish : β → γ)
    (S : Storage β) : Storage γ :=
  match S with
  | dense cols rows =>
    dense cols (rows.mapIdx fun i row => row.mapIdx fun j _ => finish (S.transposeSum add zero i j))
  | sparse major minor slices =>
    sparse major minor ((Array.range slices.size).map
      (S.transposeSumSlice add zero isZero finish major))

end ConicScaling.Storage
