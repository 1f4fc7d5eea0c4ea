import ConicScaling.Cone.Rescale
import Mathlib

/-!
# Placement of sets

Sets occupy consecutive rows. Where they count fewer rows in all than a signed 64-bit number can
hold, no bound wraps: slices of slices are plain ranges of rows, and a nested product places its
elementary sets as if they were listed one after the other.
-/
namespace ConicScaling

variable {α β : Type}

theorem mem_of_mem_extract {v : Array β} {i j : Nat} {x : β} (h : x ∈ v.extract i j) : x ∈ v := by
  obtain ⟨k, _, rfl⟩ := Array.mem_extract_iff_getElem.1 h
  exact Array.getElem_mem _

theorem getElem_mem_extract {v : Array β} {i j k : Nat} (inside : k < v.size) (low : i ≤ k)
    (high : k < j) : v[k] ∈ v.extract i j :=
  Array.mem_extract_iff_getElem.2 ⟨k - i, by omega, by simp [Nat.add_sub_cancel' low]⟩

namespace RowRange

/-- How many of `n` rows are in the range. -/
def count (n : Nat) (r : RowRange) : Nat := clamp n r.stop - clamp n r.start

theorem size_read_eq_count (r : RowRange) (v : Array β) : (r.read v).size = r.count v.size :=
  size_read r v

def between (start stop : Nat) : RowRange := ⟨Int64.ofNat start, Int64.ofNat stop⟩

theorem clamp_ofNat (n : Nat) {k : Nat} (h : k < countLimit) :
    clamp n (Int64.ofNat k) = min k n := by
  have exact := Int64.toInt_ofNat_of_lt h
  rw [clamp, exact, if_neg (by omega), Int.toNat_natCast]

theorem count_between {n start stop : Nat} (low : start ≤ stop) (high : stop ≤ n)
    (small : n < countLimit) : (between start stop).count n = stop - start := by
  simp only [count, between, clamp_ofNat n (show start < countLimit by omega),
    clamp_ofNat n (show stop < countLimit by omega)]
  omega

theorem read_between {v : Array β} {start stop : Nat} (low : start ≤ stop) (high : stop ≤ v.size)
    (small : v.size < countLimit) : (between start stop).read v = v.extract start stop := by
  simp only [read, between, RowRange.low, RowRange.high,
    clamp_ofNat v.size (show start < countLimit by omega),
    clamp_ofNat v.size (show stop < countLimit by omega)]
  rw [Nat.min_eq_left high, Nat.min_eq_left (by omega)]

theorem consecutive_ofNat (start k : Nat) (counts : List Nat) :
    consecutive (Int64.ofNat start) ((k :: counts).map Int64.ofNat) =
      between start (start + k) ::
        consecutive (Int64.ofNat (start + k)) (counts.map Int64.ofNat) := by
  simp [consecutive, between]

theorem read_map {γ : Type} (r : RowRange) (f : β → γ) (v : Array β) :
    r.read (v.map f) = (r.read v).map f := by
  simp [read, low, high]

theorem mem_of_mem_read {r : RowRange} {v : Array β} {x : β} (h : x ∈ r.read v) : x ∈ v :=
  mem_of_mem_extract h

end RowRange

namespace Cone

/-- What holds of elementary sets, and of products if it holds of their members, holds of all. -/
theorem induction {motive : Cone α → Prop} (block : ∀ b, motive (block b))
    (product : ∀ members, (∀ c ∈ members, motive c) → motive (product members)) :
    ∀ c, motive c
  | .block b => block b
  | .product members => product members fun c _ => induction block product c

/-! ## How many rows a set takes -/

/-- The number of rows of all elementary sets, which unlike `dim` never wraps. -/
def extent (c : Cone α) : Nat := (c.leaves.map Block.dim).sum

theorem leavesOf_eq_flatMap (members : List (Cone α)) :
    leavesOf members = members.flatMap leaves := by
  induction members with
  | nil => rfl
  | cons c cs ih => simp [leavesOf, ih]

theorem uniformScaling_eq_any (c : Cone α) :
    c.uniformScaling = c.leaves.any Block.uniformScaling := by
  induction c using induction with
  | block b => simp [uniformScaling, leaves]
  | product members ih =>
    rw [uniformScaling, leaves]
    induction members with
    | nil => rfl
    | cons c cs ihs =>
      rw [someUniform, leavesOf, List.any_append, ih c (by simp),
        ihs fun d hd => ih d (by simp [hd])]

@[simp] theorem extent_block (b : Block α) : (block b).extent = b.dim := by
  simp [extent, leaves]

theorem extent_product (members : List (Cone α)) :
    (product members).extent = (members.map extent).sum := by
  simp only [extent, leaves]
  induction members with
  | nil => rfl
  | cons c cs ih => simp [leavesOf, ih, extent]

theorem extent_le_of_mem {c : Cone α} {members : List (Cone α)} (h : c ∈ members) :
    c.extent ≤ (product members).extent := by
  rw [extent_product]
  induction members with
  | nil => simp at h
  | cons d ds ih =>
    rcases List.mem_cons.1 h with rfl | h
    · simp
    · have := ih h
      simp only [List.map_cons, List.sum_cons]
      omega

theorem foldl_ofNat (counts : List Nat) (start : Nat) :
    (counts.map Int64.ofNat).foldl (· + ·) (Int64.ofNat start) =
      Int64.ofNat (start + counts.sum) := by
  induction counts generalizing start with
  | nil => rfl
  | cons k counts ih =>
    rw [List.map_cons, List.foldl_cons, ← Int64.ofNat_add, ih, List.sum_cons, Nat.add_assoc]

theorem rowCounts_of_extents {members : List (Cone α)}
    (small : (product members).extent < countLimit) (exact : ∀ c ∈ members, c.dim = c.extent) :
    rowCounts (dims members) = (members.map extent).map Int64.ofNat := by
  have dims_eq : dims members = members.map extent := by
    rw [dims_eq_map]
    exact List.map_congr_left exact
  rw [dims_eq, rowCounts_of_lt]
  intro d hd
  obtain ⟨c, hc, rfl⟩ := List.mem_map.1 hd
  exact Nat.lt_of_le_of_lt (extent_le_of_mem hc) small

/-- A set has as many rows as its elementary sets, as long as their number fits. -/
theorem dim_eq_extent {c : Cone α} (small : c.extent < countLimit) : c.dim = c.extent := by
  induction c using induction with
  | block b => simp [dim]
  | product members ih =>
    have exact c (hc : c ∈ members) : c.dim = c.extent :=
      ih c hc (Nat.lt_of_le_of_lt (extent_le_of_mem hc) small)
    have zero : (0 : Int64) = Int64.ofNat 0 := rfl
    rw [dim, rowCounts_of_extents small exact, zero, foldl_ofNat, Nat.zero_add, ← extent_product,
      Int64.toNatClampNeg_ofNat_of_lt small]

theorem rows_eq_consecutive {members : List (Cone α)}
    (small : (product members).extent < countLimit) :
    rows members =
      RowRange.consecutive (Int64.ofNat 0) ((members.map extent).map Int64.ofNat) := by
  have exact c (hc : c ∈ members) : c.dim = c.extent :=
    dim_eq_extent (Nat.lt_of_le_of_lt (extent_le_of_mem hc) small)
  rw [rows, rowCounts_of_extents small exact]
  rfl

end Cone

end ConicScaling
