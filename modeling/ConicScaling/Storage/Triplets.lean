import ConicScaling.Storage.Canonical
import ConicScaling.Summation

/-!
# Triplets

Entries given one by one, in any order, and their conversion to compressed columns. The formats that
list entries differ in the order in which they add the values of one position.
-/
namespace ConicScaling

/-- Sparse formats that are only converted from. -/
inductive TripletFormat
  | coordinates
  | rowLists
  | keyed
  | diagonals
  deriving DecidableEq, Repr

def TripletFormat.label : TripletFormat → String
  | coordinates => "coo"
  | rowLists => "lil"
  | keyed => "dok"
  | diagonals => "dia"

variable {β : Type}

structure Triplets (β : Type) where
  rows : Nat
  cols : Nat
  entries : List (Entry β)
  deriving DecidableEq, Repr

/-- The values of a slice at each index, in stored order. -/
def Slice.grouped (slice : Slice β) : Slice (List β) :=
  Slice.canonical (· ++ ·) (slice.map fun (k, v) => (k, [v]))

/-- Adds up the values at each index of a slice. -/
def Slice.totalled (total : List β → β) (slice : Slice β) : Slice β :=
  (Slice.grouped slice).map fun (k, vs) => (k, total vs)

namespace Triplets

/-- Slices along an axis, each in the order given. -/
def compress (major : Axis) (T : Triplets β) : Storage β :=
  .sparse major (major.other.select T.rows T.cols) <|
    (Array.range (major.select T.rows T.cols)).map fun k =>
      (T.entries.filter (·.along major == k)).map fun e => (e.along major.other, e.value)

/-- The triplets in the order in which slices along an axis are rearranged for sorting. -/
def arranged (major : Axis) (T : Triplets β) : Triplets β :=
  { T with entries := (T.compress major).arranged.entries }

/-- Canonical columns, where `total` adds the values of a position. -/
def collect (total : List β → β) (T : Triplets β) : Storage β :=
  (T.compress .column).mapSlices (Slice.totalled total)

/-- Converts to canonical columns. Coordinates are sorted along columns, row lists along rows, and
duplicates are then added from left to right. The formats that hold every position once add its
values before they sort. The diagonal format cannot tell a stored zero from an absent one, so it
loses them. -/
def toStorage (format : TripletFormat) (add : β → β → β) (zero : β) (isZero : β → Bool)
    (T : Triplets β) : Storage β :=
  match format with
  | .coordinates => (T.arranged .column).collect (sumForward add zero)
  | .rowLists => (T.arranged .row).collect (sumForward add zero)
  | .keyed => T.collect (sumRestFirst add zero)
  | .diagonals => (T.collect (sumRestFirst add zero)).filterEntries fun v => !isZero v

end Triplets

end ConicScaling
