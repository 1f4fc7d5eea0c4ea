import ConicScaling.Fault
import ConicScaling.Focus
import ConicScaling.Scalar
import ConicScaling.Storage

/-!
# Diagonals

A diagonal matrix is its list of entries, or the identity, which leaves the side it stands on
untouched. Products are checked first: a diagonal has to offer an entry for every line it scales.
Where lines are multiplied as a whole, in dense rows and in vectors, a single entry does for all.
-/
namespace ConicScaling

inductive Diagonal (α : Type)
  | identity
  | entries (d : Array α)
  deriving DecidableEq, Repr

namespace Diagonal

variable {α β : Type}

def isIdentity : Diagonal α → Bool
  | identity => true
  | entries _ => false

/-- Entries for `n` values. A single entry stands for all of them. -/
def expand (n : Nat) (d : Array α) : Array α :=
  if h : d.size = 1 then Array.replicate n d[0] else d

theorem expand_of_size {n : Nat} {d : Array α} (h : d.size = n) : expand n d = d := by
  unfold expand
  split
  next one =>
    obtain ⟨x, rfl⟩ := Array.size_eq_one_iff.1 one
    simp [← h]
  next => rfl

theorem size_expand_iff {n : Nat} {d : Array α} :
    (expand n d).size = n ↔ d.size = n ∨ d.size = 1 := by
  unfold expand
  split <;> simp_all

theorem expand_map (n : Nat) (d : Array α) (f : α → β) :
    expand n (d.map f) = (expand n d).map f := by
  by_cases one : d.size = 1 <;> simp [expand, one]

theorem mem_of_mem_expand {n : Nat} {d : Array α} {x : α} (h : x ∈ expand n d) : x ∈ d := by
  unfold expand at h
  split at h
  · obtain ⟨-, rfl⟩ := Array.mem_replicate.1 h
    exact Array.getElem_mem _
  · exact h

/-- Whether each stored value along `axis` finds its entry among `n`, before any product is taken.
Lines that are slices have to match in number, unless there is a single one; across the slices only
the stored indices count. Dense rows wait for the product. -/
def gather (axis : Axis) (n : Nat) : Storage β → Except (Fault α) Unit
  | .dense .. => .ok ()
  | .sparse major minor slices =>
    if axis = major then
      if n = slices.size ∨ slices.size = 1 then .ok () else .error .lengthMismatch
    else if (Storage.sparse major minor slices).entries.all fun e => e.along axis < n then .ok ()
    else .error .indexOutOfRange

/-- Whether a diagonal of `n` entries that has been gathered meets the stored values one by one. A
wrong length passes for a single slice only if that is empty, and for dense rows only if there is a
single entry, which meets all lines. -/
def Meets (axis : Axis) (n : Nat) (S : Storage β) : Prop :=
  match S with
  | .dense .. => n = S.count axis ∨ n = 1
  | .sparse major .. => axis = major → n = S.count axis ∨ S.entries.isEmpty

instance (axis : Axis) (n : Nat) (S : Storage β) : Decidable (Meets axis n S) := by
  unfold Meets
  split <;> infer_instance

/-- Whether a diagonal of `n` entries can scale the lines of `S` along `axis`. -/
def check (axis : Axis) (n : Nat) (S : Storage β) : Except (Fault α) Unit := do
  gather axis n S
  if Meets axis n S then return else throw .lengthMismatch

/-- A diagonal with an entry for every line is gathered. -/
theorem gather_count {S : Storage β} (h : S.WellFormed) (axis : Axis) :
    gather (α := α) axis (S.count axis) S = .ok () := by
  cases S with
  | dense cols rows => rfl
  | sparse major minor slices =>
    have within := fun e => h.along_lt_count axis (e := e)
    by_cases same : axis = major <;> simp_all [gather, Storage.count]

/-- A diagonal with an entry for every line is accepted. -/
theorem check_count {S : Storage β} (h : S.WellFormed) (axis : Axis) :
    check (α := α) axis (S.count axis) S = .ok () := by
  have meets : Meets axis (S.count axis) S := by
    cases S <;> simp [Meets]
  simp only [check, gather_count h, meets, if_true]
  rfl

variable [Scalar α]

/-- Entrywise product. -/
def times (d v : Array α) : Array α := Array.zipWith (fun a b => a * b) v d

theorem size_times {d v : Array α} (h : d.size = v.size) : (times d v).size = v.size := by
  simp [times, h]

/-- Multiplies a vector by a diagonal. -/
def scaleVector : Diagonal α → EStateM (Fault α) (Array α) Unit
  | identity => pure ()
  | entries d =>
    modify? fun v =>
      let d := expand v.size d
      if d.size = v.size then .ok (times d v) else .error .lengthMismatch

/-- Multiplies each line along an axis by its entry of `d`, rounding each product. -/
def scaleLines (round : α → α) (axis : Axis) (d : Array α) (S : Storage α) : Storage α :=
  S.mapEntries fun i j v => round (v * d.getD (axis.select i j) 1)

end Diagonal

/-- The axes along which a two-sided product is taken, in order: across the slices before along
them, and in dense rows from the left before from the right. -/
def Storage.productOrder {β : Type} : Storage β → Axis × Axis
  | .sparse .row .. => (.column, .row)
  | _ => (.row, .column)

/-- Of a left and a right diagonal, the one that scales lines along an axis. -/
def Axis.side {α : Type} (axis : Axis) (L R : Diagonal α) : Diagonal α :=
  match axis with
  | .row => L
  | .column => R

end ConicScaling
