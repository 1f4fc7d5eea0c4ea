import ConicScaling.Proofs.SetUp

/-!
# Partitions of the rows

The blocks of a product follow each other, and a workspace only takes a product whose last block
ends at its last row. Bounds are 64-bit sums, so this is not enough: dimensions that are too large
may wrap around to the number of rows. The blocks partition the rows exactly if none of them wraps.
-/
namespace ConicScaling

variable {α β : Type}

namespace RowRange

/-- Whether row `k` out of `n` is in the range. -/
def Takes (n k : Nat) (r : RowRange) : Prop := clamp n r.start ≤ k ∧ k < clamp n r.stop

/-- Ranges one after the other from row `o` on. -/
def spans (o : Nat) : List Nat → List RowRange
  | [] => []
  | d :: ds => between o (o + d) :: spans (o + d) ds

theorem consecutive_eq_spans (o : Nat) (ds : List Nat) :
    consecutive (Int64.ofNat o) (ds.map Int64.ofNat) = spans o ds := by
  induction ds generalizing o with
  | nil => rfl
  | cons d ds ih => rw [consecutive_ofNat, ih, spans]

theorem mem_spans {o : Nat} {ds : List Nat} {r : RowRange} (h : r ∈ spans o ds) :
    ∃ a b, o ≤ a ∧ a ≤ b ∧ b ≤ o + ds.sum ∧ r = between a b := by
  induction ds generalizing o with
  | nil => cases h
  | cons d ds ih =>
    rw [List.sum_cons]
    rcases List.mem_cons.1 h with rfl | h
    · exact ⟨o, o + d, by omega, by omega, by omega, rfl⟩
    · obtain ⟨a, b, low, order, high, rfl⟩ := ih h
      exact ⟨a, b, by omega, order, by omega, rfl⟩

theorem takes_between {n a b k : Nat} (high : b ≤ n) (order : a ≤ b) (small : n < countLimit) :
    (between a b).Takes n k ↔ a ≤ k ∧ k < b := by
  simp only [Takes, between, clamp_ofNat n (show a < countLimit by omega),
    clamp_ofNat n (show b < countLimit by omega)]
  omega

/-! ## Bounds -/

theorem toInt_le_stop {o : Nat} {ds : List Nat} (small : o + ds.sum < countLimit)
    {r : RowRange} (h : r ∈ spans o ds) : (Int64.ofNat o).toInt ≤ r.stop.toInt := by
  obtain ⟨a, b, low, order, high, rfl⟩ := mem_spans h
  rw [between, Int64.toInt_ofNat_of_lt (Nat.lt_of_le_of_lt high small),
    Int64.toInt_ofNat_of_lt (show o < countLimit by omega)]
  omega

theorem pairwise_bounds {o : Nat} {ds : List Nat} (small : o + ds.sum < countLimit) :
    ((Int64.ofNat o :: (spans o ds).map stop).map Int64.toInt).Pairwise (· ≤ ·) := by
  induction ds generalizing o with
  | nil => simp [spans]
  | cons d ds ih =>
    have rest := ih (o := o + d) (by simpa [Nat.add_assoc] using small)
    refine List.pairwise_cons.2 ⟨?_, rest⟩
    intro bound hbound
    rw [List.map_map] at hbound
    obtain ⟨r, hr, rfl⟩ := List.mem_map.1 hbound
    exact toInt_le_stop small hr

theorem getLast?_bounds (o : Nat) (ds : List Nat) :
    (Int64.ofNat o :: (spans o ds).map stop).getLast? =
      some (Int64.ofNat (o + ds.sum)) := by
  induction ds generalizing o with
  | nil => rfl
  | cons d ds ih =>
    rw [spans, List.map_cons, List.getLast?_cons_cons, List.sum_cons, ← Nat.add_assoc]
    exact ih (o + d)

/-! ## Rows -/

section Rows

variable {n o : Nat} {ds : List Nat} (within : o + ds.sum ≤ n) (small : n < countLimit)

include within small

theorem map_count_spans : (spans o ds).map (count n) = ds := by
  induction ds generalizing o with
  | nil => rfl
  | cons d ds ih =>
    rw [List.sum_cons] at within
    have rest := ih (o := o + d) (by omega)
    rw [spans, List.map_cons, rest, count_between (by omega) (by omega) small,
      Nat.add_sub_cancel_left]

theorem le_of_takes {r : RowRange} (h : r ∈ spans o ds) {k : Nat} (takes : r.Takes n k) :
    o ≤ k := by
  obtain ⟨a, b, low, order, high, rfl⟩ := mem_spans h
  exact low.trans ((takes_between (high.trans within) order small).1 takes).1

/-- A row within the ranges is in one of them only. -/
theorem existsUnique_takes {k : Nat} (low : o ≤ k) (high : k < o + ds.sum) :
    ∃! i : Nat, ∃ r : RowRange, (spans o ds)[i]? = some r ∧ r.Takes n k := by
  induction ds generalizing o with
  | nil =>
    rw [List.sum_nil] at high
    omega
  | cons d ds ih =>
    rw [List.sum_cons] at within high
    have own := takes_between (n := n) (a := o) (b := o + d) (k := k)
      (by omega) (by omega) small
    by_cases first : k < o + d
    · refine ⟨0, ⟨_, rfl, own.2 ⟨low, first⟩⟩, ?_⟩
      rintro (_ | i) ⟨r, hr, takes⟩
      · rfl
      · have later := le_of_takes (o := o + d) (by omega) small
          (List.mem_of_getElem? hr) takes
        omega
    · obtain ⟨i, ⟨r, hr, takes⟩, only⟩ := ih (o := o + d) (by omega) (by omega) (by omega)
      refine ⟨i + 1, ⟨r, hr, takes⟩, ?_⟩
      rintro (_ | j) ⟨s, hs, takes⟩
      · cases hs
        exact absurd (own.1 takes).2 first
      · rw [only j ⟨s, hs, takes⟩]

end Rows

/-- The parts of a vector along the ranges, one after the other. -/
theorem flatten_map_read {v : Array β} (small : v.size < countLimit) {o : Nat} {ds : List Nat}
    (within : o + ds.sum ≤ v.size) :
    ((spans o ds).map fun r => (r.read v).toList).flatten =
      (v.extract o (o + ds.sum)).toList := by
  induction ds generalizing o with
  | nil => simp [spans]
  | cons d ds ih =>
    rw [List.sum_cons] at within ⊢
    have rest := ih (o := o + d) (by omega)
    rw [spans, List.map_cons, List.flatten_cons, rest,
      read_between (by omega) (by omega) small, ← Array.toList_append, Array.extract_append_extract]
    congr 2 <;> omega

end RowRange

namespace Cone

/-- What makes the blocks of a product a partition of `m` rows. -/
structure Partitions (members : List (Cone α)) (m : Nat) : Prop where
  first : (offsets members).head? = some 0
  increasing : ((offsets members).map Int64.toInt).Pairwise (· ≤ ·)
  last : (offsets members).getLast?.map Int64.toInt = some (m : Int)
  /-- Each block has as many rows as its set constrains. -/
  counts : (rows members).map (RowRange.count m) = dims members
  /-- Each row is in one block. -/
  unique : ∀ k < m, ∃! i : Nat, ∃ r : RowRange, (rows members)[i]? = some r ∧ r.Takes m k
  /-- Each vector splits into parts with as many entries as the sets have rows. -/
  split : ∀ v : Array α, v.size = m → ∃ parts, split? v (product members) = .ok parts ∧
    parts.map Array.size = dims members ∧ (parts.map Array.toList).flatten = v.toList

/-- Block `i` stands between the offsets `i` and `i + 1`. -/
theorem rows_eq_zipWith_offsets (members : List (Cone α)) :
    rows members = List.zipWith RowRange.mk (offsets members) (offsets members).tail := by
  have general (start : Int64) (counts : List Int64) : RowRange.consecutive start counts =
      List.zipWith RowRange.mk (start :: (RowRange.consecutive start counts).map RowRange.stop)
        ((RowRange.consecutive start counts).map RowRange.stop) := by
    induction counts generalizing start with
    | nil => rfl
    | cons count counts ih => exact congrArg (_ :: ·) (ih _)
  exact general 0 _

theorem dim_lt_countLimit (members : List (Cone α)) : (product members).dim < countLimit := by
  rw [dim]
  have := Int64.toInt_lt ((rowCounts (dims members)).foldl (· + ·) 0)
  simp only [countLimit, Int64.toNatClampNeg]
  omega

theorem rows_eq_spans {members : List (Cone α)} (small : (dims members).sum < countLimit) :
    rows members = RowRange.spans 0 (dims members) := by
  have exact : rowCounts (dims members) = (dims members).map Int64.ofNat :=
    rowCounts_of_lt fun d hd => Nat.lt_of_le_of_lt (List.le_sum_of_mem hd) small
  rw [rows, exact]
  exact RowRange.consecutive_eq_spans 0 _

theorem dim_eq_sum {members : List (Cone α)} (small : (dims members).sum < countLimit) :
    (product members).dim = (dims members).sum := by
  have exact : rowCounts (dims members) = (dims members).map Int64.ofNat :=
    rowCounts_of_lt fun d hd => Nat.lt_of_le_of_lt (List.le_sum_of_mem hd) small
  have zero : (0 : Int64) = Int64.ofNat 0 := rfl
  rw [dim, exact, zero, foldl_ofNat, Nat.zero_add, Int64.toNatClampNeg_ofNat_of_lt small]

/-- Blocks whose bounds do not wrap partition the rows. -/
theorem partitions_of_lt {members : List (Cone α)} (small : (dims members).sum < countLimit) :
    Partitions members (dims members).sum where
  first := rfl
  increasing := by
    rw [offsets, rows_eq_spans small]
    exact RowRange.pairwise_bounds (o := 0) (by simpa using small)
  last := by
    have last := RowRange.getLast?_bounds 0 (dims members)
    rw [Nat.zero_add] at last
    rw [offsets, rows_eq_spans small, show (0 : Int64) = Int64.ofNat 0 from rfl, last,
      Option.map_some, Int64.toInt_ofNat_of_lt small]
  counts := by
    rw [rows_eq_spans small]
    exact RowRange.map_count_spans (by simp) small
  unique := by
    intro k inside
    rw [rows_eq_spans small]
    exact RowRange.existsUnique_takes (by simp) small (Nat.zero_le k) (by simpa using inside)
  split := by
    intro v size
    have within : 0 + (dims members).sum ≤ v.size := by omega
    refine ⟨(rows members).map fun r => r.read v, ?_, ?_, ?_⟩
    · rw [split?, if_pos (size.trans (dim_eq_sum small).symm)]
    · rw [rows_eq_spans small, List.map_map]
      simp only [Function.comp_def, RowRange.size_read_eq_count]
      exact RowRange.map_count_spans within (size ▸ small)
    · rw [rows_eq_spans small, List.map_map]
      refine (RowRange.flatten_map_read (size ▸ small) within).trans ?_
      rw [Nat.zero_add, ← size, Array.extract_size]

/-- Only a vector with as many entries as the sets have rows can be split along them. -/
theorem Partitions.sum_dims [Inhabited α] {members : List (Cone α)} {m : Nat}
    (h : Partitions members m) : (dims members).sum = m := by
  obtain ⟨parts, -, sizes, joined⟩ := h.split (Array.replicate m default) Array.size_replicate
  have length := congrArg List.length joined
  rw [List.length_flatten, List.map_map] at length
  rw [← sizes]
  simpa [Function.comp_def] using length

/-- The blocks of a product partition as many rows as it counts exactly if nothing wraps. -/
theorem partitions_dim_iff [Inhabited α] {members : List (Cone α)} :
    Partitions members (product members).dim ↔ (dims members).sum < countLimit := by
  constructor
  · intro partitions
    rw [partitions.sum_dims]
    exact dim_lt_countLimit members
  · intro small
    rw [dim_eq_sum small]
    exact partitions_of_lt small

end Cone

namespace Workspace

variable [Scalar α]

/-- The blocks of a product that a workspace accepts, as a product or as a sequence of its members,
partition the rows exactly if the dimensions of the members add up without wrapping. -/
theorem partitions_iff_of_setUp {p : Submission α} {members : List (Cone α)}
    (handed : p.cones.toProduct? = .ok (.product members)) {journal after : Journal α}
    {w : Workspace α} (accepted : (setUp p).run journal = .ok w after) :
    Cone.Partitions members w.m ↔ (Cone.dims members).sum < countLimit := by
  obtain ⟨read, dim⟩ := cones_setUp accepted
  have same : Cone.product members = w.cones := Except.ok.inj (handed.symm.trans read)
  have : Inhabited α := ⟨0⟩
  rw [← dim, ← same]
  exact Cone.partitions_dim_iff

/-- A problem without variables whose rows are constrained by given sets. -/
def constrained (members : List (Cone Float)) (m : Nat) : Submission Float where
  P := .stored (.real .double (.dense 0 #[]))
  q := .ofVector #[]
  A := .stored (.real .double (.dense 0 (Array.replicate m #[])))
  b := .ofVector (Array.replicate m 0)
  cones := .set (.product members)
  settings := .settings .standard
  x := none
  s := none
  mu := none

/-- A nested product and an empty block among four rows. -/
def nested : List (Cone Float) :=
  [.block (.box #[0] #[1]), .product [.block (.zero 0), .block (.secondOrder 2)],
    .block (.nonnegative 1)]

theorem partitions_iff_of_setUp_nested :
    (constrained nested 4).cones.toProduct? = .ok (.product nested) ∧
      ∃ w after, (setUp (constrained nested 4)).run #[] = .ok w after ∧
        (Cone.Partitions nested w.m ↔ (Cone.dims nested).sum < countLimit) :=
  ⟨rfl, _, _, rfl, partitions_iff_of_setUp (p := constrained nested 4) rfl
    (show (setUp (constrained nested 4)).run #[] = _ from rfl)⟩

/-- Five sets whose dimensions add up to one in 64 bits. -/
def wrapping : List (Cone Float) :=
  List.replicate 4 (.block (.nonnegative (2 ^ 62))) ++ [.block (.nonnegative 1)]

/-- A single row is taken for the rows of all five sets. -/
theorem not_partitions_wrapping :
    Cone.product? wrapping = .ok (.product wrapping) ∧
      ∃ w after, (setUp (constrained wrapping 1)).run #[] = .ok w after ∧ w.m = 1 ∧
        ¬ Cone.Partitions wrapping w.m := by
  refine ⟨rfl, _, _, rfl, rfl, ?_⟩
  have rows : (Cone.product wrapping).dim = 1 := rfl
  have wraps : ¬ (Cone.dims wrapping).sum < countLimit := by decide
  rw [← Cone.partitions_dim_iff, rows] at wraps
  exact wraps

end Workspace

end ConicScaling
