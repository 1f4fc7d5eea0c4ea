import ConicScaling.Decimal.Digits

/-!
# Row counts and row ranges

How many rows the members of a product have, the runs of consecutive rows that these counts lead to,
and reading and writing the entries of a vector in one of them.

A product counts the rows of its members in 64 bits. Counts that fit are exact. Where all members
are too large the counts wrap; where only some are, all are rounded to doubles first, and those that
still do not fit become the least integer. Bounds of a run may therefore lie outside the vector or
be negative.
-/
namespace ConicScaling

/-- The least number of rows that is too large for a signed count. -/
def countLimit : Nat := 9223372036854775808

/-- The number nearest to `n` that 53 binary digits write, a half going to the even neighbour. -/
def significant (n : Nat) : Nat :=
  let unit := Nat.pow 2 (n.log2 - 52)
  Decimal.Fraction.round ⟨n, unit⟩ * unit

/-- A count that was rounded to a double. -/
def roundedCount (n : Nat) : Int64 :=
  if significant n < countLimit then Int64.ofNat (significant n) else Int64.minValue

/-- The counts of members with the given dimensions. -/
def rowCounts (dims : List Nat) : List Int64 :=
  if dims.all (· < countLimit) ∨ dims.all (countLimit ≤ ·) then dims.map Int64.ofNat
  else dims.map roundedCount

@[simp] theorem length_rowCounts (dims : List Nat) : (rowCounts dims).length = dims.length := by
  unfold rowCounts
  split <;> simp

/-- Counts that fit are exact. -/
theorem rowCounts_of_lt {dims : List Nat} (h : ∀ d ∈ dims, d < countLimit) :
    rowCounts dims = dims.map Int64.ofNat := by
  have small : dims.all (· < countLimit) := by simpa using h
  simp [rowCounts, small]

/-- Consecutive rows, from `start` to before `stop`. -/
structure RowRange where
  start : Int64
  stop : Int64
  deriving DecidableEq, Repr

namespace RowRange

variable {β : Type}

/-- One range after the other, each with as many rows as its count says. Bounds may wrap. -/
def consecutive (start : Int64) : List Int64 → List RowRange
  | [] => []
  | count :: counts => ⟨start, start + count⟩ :: consecutive (start + count) counts

@[simp] theorem length_consecutive (start : Int64) (counts : List Int64) :
    (consecutive start counts).length = counts.length := by
  induction counts generalizing start with
  | nil => rfl
  | cons count counts ih => simp [consecutive, ih]

/-- The position that a bound means among `n` rows. A negative bound counts from the end, and
bounds beyond either end stop there. -/
def clamp (n : Nat) (bound : Int64) : Nat :=
  if bound.toInt < 0 then (bound.toInt + n).toNat else min bound.toInt.toNat n

theorem clamp_le (n : Nat) (bound : Int64) : clamp n bound ≤ n := by
  unfold clamp
  split <;> omega

def low (r : RowRange) (v : Array β) : Nat := clamp v.size r.start

def high (r : RowRange) (v : Array β) : Nat := clamp v.size r.stop

/-- The entries of `v` in these rows. -/
def read (r : RowRange) (v : Array β) : Array β := v.extract (r.low v) (r.high v)

/-- Replaces the entries of `v` in these rows. -/
def write (r : RowRange) (part v : Array β) : Array β :=
  v.extract 0 (r.low v) ++ part ++ v.extract (max (r.low v) (r.high v)) v.size

theorem size_read (r : RowRange) (v : Array β) : (r.read v).size = r.high v - r.low v := by
  have := clamp_le v.size r.stop
  simp only [read, Array.size_extract, high, low]
  omega

/-- Writing as many entries as were read keeps the length. -/
theorem size_write (r : RowRange) {part v : Array β} (h : part.size = (r.read v).size) :
    (r.write part v).size = v.size := by
  have hl := clamp_le v.size r.start
  have hh := clamp_le v.size r.stop
  rw [size_read] at h
  simp only [write, Array.size_append, Array.size_extract, high, low] at *
  omega

/-- Writing back what was read changes nothing. -/
theorem write_read (r : RowRange) (v : Array β) : r.write (r.read v) v = v := by
  have hl := clamp_le v.size r.start
  have hh := clamp_le v.size r.stop
  apply Array.ext
  · exact size_write r rfl
  · intro i _ _
    simp only [write, read, low, high, Array.getElem_append, Array.getElem_extract,
      Array.size_append, Array.size_extract] at *
    split
    · split
      · congr 1
        omega
      · congr 1
        omega
    · congr 1
      omega

end RowRange

end ConicScaling
