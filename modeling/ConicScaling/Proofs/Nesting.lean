import ConicScaling.Cone.Build
import ConicScaling.Proofs.Rectification
import ConicScaling.Proofs.Rescaling

/-!
# Nesting

However deep elementary sets are nested, their product places them one after the other. So it has
the rows of the product of the elementary sets alone, corrects the same blocks by the same factors
and scales the same bounds. Only what is recorded on the way tells the two apart.
-/
namespace ConicScaling

variable {α β : Type}

namespace RowRange

section Write

variable {part v : Array β} {start stop : Nat} (order : start ≤ stop) (high : stop ≤ v.size)
  (small : v.size < countLimit)

include order high small

theorem write_between : (between start stop).write part v =
    v.extract 0 start ++ part ++ v.extract stop v.size := by
  simp only [write, between, RowRange.low, RowRange.high,
    clamp_ofNat v.size (show start < countLimit by omega),
    clamp_ofNat v.size (show stop < countLimit by omega)]
  rw [Nat.min_eq_left high, Nat.min_eq_left (order.trans high), Nat.max_eq_right order]

variable (size : part.size = stop - start)

include size

/-- Rows after those that are written stay. -/
theorem extract_write_of_le {i j : Nat} (after : stop ≤ i) (within : j ≤ v.size) :
    ((between start stop).write part v).extract i j = v.extract i j := by
  have front : (v.extract 0 start ++ part).size = stop := by
    simp only [Array.size_append, Array.size_extract]
    omega
  rw [write_between order high small, Array.extract_append,
    Array.extract_empty_of_size_le_start (by omega), Array.empty_append, front,
    Array.extract_extract, Nat.add_sub_cancel' after]
  by_cases empty : j ≤ i
  · rw [Array.extract_eq_empty_iff.2 (by omega), Array.extract_eq_empty_iff.2 (by omega)]
  · rw [Nat.add_sub_cancel' (by omega), Nat.min_eq_left within]

theorem extract_write_zero : ((between start stop).write part v).extract 0 stop =
    v.extract 0 start ++ part := by
  have front : (v.extract 0 start ++ part).size = stop := by
    simp only [Array.size_append, Array.size_extract]
    omega
  rw [write_between order high small, Array.extract_append, front, Nat.sub_self, Nat.zero_sub,
    Array.extract_eq_empty_iff.2 (Nat.min_le_left _ _), Array.append_empty]
  conv_lhs => rw [← front, Array.extract_size]

end Write

end RowRange

/-! ## Corrections of blocks that follow each other -/

namespace Block

variable [Scalar α]

/-- Whether a rectification by the factors of its rows changes a block, and what it leaves of the
work vector there. -/
def corrected (e work : Array α) (b : Block α) : Bool × Array α :=
  if b.uniformScaling && !isUniform e then (true, correction e) else (false, work)

/-- What a rectification leaves of blocks one after the other from a first row on. -/
def correctedFrom (e work : Array α) (start : Nat) : List (Block α) → Bool × Array α
  | [] => (false, #[])
  | b :: bs =>
    let own := b.corrected (e.extract start (start + b.dim)) (work.extract start (start + b.dim))
    let others := correctedFrom e work (start + b.dim) bs
    (own.1 || others.1, own.2 ++ others.2)

theorem size_corrected {e work : Array α} (size : e.size = work.size) (b : Block α) :
    (b.corrected e work).2.size = work.size := by
  unfold corrected
  split
  · simpa [correction] using size
  · rfl

theorem size_correctedFrom {e work : Array α} (size : e.size = work.size) (start : Nat)
    {bs : List (Block α)} (within : start + (bs.map dim).sum ≤ work.size) :
    (correctedFrom e work start bs).2.size = (bs.map dim).sum := by
  induction bs generalizing start with
  | nil => rfl
  | cons b bs ih =>
    simp only [List.map_cons, List.sum_cons] at within ⊢
    have own : (b.corrected (e.extract start (start + b.dim))
        (work.extract start (start + b.dim))).2.size = b.dim := by
      rw [size_corrected (by simp [size]), Array.size_extract]
      omega
    simp only [correctedFrom, Array.size_append, own, ih (start + b.dim) (by omega)]

theorem correctedFrom_append (e work : Array α) (start : Nat) (bs cs : List (Block α)) :
    correctedFrom e work start (bs ++ cs) =
      ((correctedFrom e work start bs).1 ||
          (correctedFrom e work (start + (bs.map dim).sum) cs).1,
        (correctedFrom e work start bs).2 ++
          (correctedFrom e work (start + (bs.map dim).sum) cs).2) := by
  induction bs generalizing start with
  | nil => simp [correctedFrom]
  | cons b bs ih => simp [correctedFrom, ih, Nat.add_assoc, Bool.or_assoc]

/-- Within a range, rows are counted from where the range starts. -/
theorem correctedFrom_extract (e work : Array α) (low high start : Nat) (bs : List (Block α))
    (within : low + start + (bs.map dim).sum ≤ high) :
    correctedFrom (e.extract low high) (work.extract low high) start bs =
      correctedFrom e work (low + start) bs := by
  induction bs generalizing start with
  | nil => rfl
  | cons b bs ih =>
    simp only [List.map_cons, List.sum_cons] at within
    simp only [correctedFrom, Array.extract_extract]
    rw [ih (start + b.dim) (by omega), Nat.min_eq_left (by omega), Nat.add_assoc low]

/-- Only the rows from the first one on matter. -/
theorem correctedFrom_congr {e work work' : Array α} (start : Nat) (bs : List (Block α))
    (within : start + (bs.map dim).sum ≤ work.size)
    (same : ∀ i j, start ≤ i → j ≤ work.size → work'.extract i j = work.extract i j) :
    correctedFrom e work' start bs = correctedFrom e work start bs := by
  induction bs generalizing start with
  | nil => rfl
  | cons b bs ih =>
    simp only [List.map_cons, List.sum_cons] at within
    have rest := ih (start + b.dim) (by omega) fun i j hi => same i j (by omega)
    simp only [correctedFrom, rest, same start (start + b.dim) le_rfl (by omega)]

end Block

namespace Cone

variable [Scalar α]

/-- A member sees its own rows only, and leaves what its blocks leave of them. -/
theorem corrected_read_between {c : Cone α} {e work : Array α} (size : e.size = work.size)
    (small : work.size < countLimit) {start : Nat} (high : start + c.extent ≤ work.size)
    (whole : ∀ e work : Array α, e.size = c.extent → work.size = c.extent →
      c.corrected e work = Block.correctedFrom e work 0 c.leaves) :
    c.corrected ((RowRange.between start (start + c.extent)).read e)
        ((RowRange.between start (start + c.extent)).read work) =
      Block.correctedFrom e work start c.leaves := by
  have order : start ≤ start + c.extent := Nat.le_add_right _ _
  have part (v : Array α) (same : v.size = work.size) :
      (v.extract start (start + c.extent)).size = c.extent := by
    rw [Array.size_extract]
    omega
  rw [RowRange.read_between order high small, RowRange.read_between order (size ▸ high)
    (size ▸ small), whole _ _ (part e size) (part work rfl),
    Block.correctedFrom_extract e work start _ 0 c.leaves (by simp [extent]), Nat.add_zero]

theorem correctedMembers_consecutive {e work : Array α} (size : e.size = work.size)
    (small : work.size < countLimit) (start : Nat) (members : List (Cone α))
    (within : start + (members.map extent).sum ≤ work.size)
    (each : ∀ c ∈ members, ∀ e work : Array α, e.size = c.extent → work.size = c.extent →
      c.corrected e work = Block.correctedFrom e work 0 c.leaves) :
    correctedMembers e work members (RowRange.consecutive (Int64.ofNat start)
        ((members.map extent).map Int64.ofNat)) =
      ((Block.correctedFrom e work start (leavesOf members)).1,
        work.extract 0 start ++ (Block.correctedFrom e work start (leavesOf members)).2 ++
          work.extract (start + (members.map extent).sum) work.size) := by
  induction members generalizing start work with
  | nil =>
    have low : max start work.size = work.size := Nat.max_eq_right (by simpa using within)
    simp [correctedMembers, leavesOf, Block.correctedFrom, low]
  | cons c cs ih =>
    simp only [List.map_cons, List.sum_cons] at within
    have order : start ≤ start + c.extent := Nat.le_add_right _ _
    have high : start + c.extent ≤ work.size := by omega
    have own := corrected_read_between size small high (each c (by simp))
    have part : (Block.correctedFrom e work start c.leaves).2.size =
        start + c.extent - start := by
      rw [Block.size_correctedFrom size start high, Nat.add_sub_cancel_left, extent]
    have written : ((RowRange.between start (start + c.extent)).write
        (Block.correctedFrom e work start c.leaves).2 work).size = work.size := by
      apply RowRange.size_write
      rw [part, RowRange.size_read_eq_count, RowRange.count_between order high small]
    have later (i j : Nat) (hi : start + c.extent ≤ i) (hj : j ≤ work.size) :=
      RowRange.extract_write_of_le order high small part hi hj
    -- what the member writes does not concern the blocks after it
    have others := Block.correctedFrom_congr (e := e) (start + c.extent) (leavesOf cs)
      (show start + c.extent + (product cs).extent ≤ work.size by
        rw [extent_product]
        omega) later
    have tail := ih (size.trans written.symm) (written ▸ small) (start + c.extent)
      (by rw [written]; omega) fun d hd => each d (by simp [hd])
    rw [others, RowRange.extract_write_zero order high small part, written,
      later _ _ (Nat.le_add_right _ _) le_rfl] at tail
    rw [List.map_cons, RowRange.consecutive_ofNat, correctedMembers, own, tail, leavesOf,
      Block.correctedFrom_append]
    simp [extent, Nat.add_assoc]

/-- A rectification leaves what it leaves of the elementary sets one after the other. -/
theorem corrected_eq_correctedFrom {c : Cone α} {e work : Array α} (size : e.size = c.extent)
    (workSize : work.size = c.extent) (small : c.extent < countLimit) :
    c.corrected e work = Block.correctedFrom e work 0 c.leaves := by
  induction c using induction generalizing e work with
  | block b =>
    rw [extent_block] at size workSize
    have whole (v : Array α) (same : v.size = b.dim) : v.extract 0 b.dim = v := by
      rw [← same, Array.extract_size]
    simp [corrected, leaves, Block.correctedFrom, Block.corrected, whole e size,
      whole work workSize]
  | product members ih =>
    have within : 0 + (members.map extent).sum ≤ work.size := by
      rw [workSize, extent_product]
      omega
    have consecutive := correctedMembers_consecutive (size.trans workSize.symm)
      (workSize ▸ small) 0 members within fun c hc e work size workSize =>
        ih c hc size workSize (Nat.lt_of_le_of_lt (extent_le_of_mem hc) small)
    rw [corrected, rows_eq_consecutive small, consecutive, leaves, ← extent_product, ← workSize]
    simp

end Cone

/-! ## The product of the elementary sets alone -/

namespace Cone

theorem span_eq_ofNat {members : List (Cone β)} (small : (product members).extent < countLimit) :
    span members = Int64.ofNat (product members).extent := by
  have exact c (hc : c ∈ members) : c.dim = c.extent :=
    dim_eq_extent (Nat.lt_of_le_of_lt (extent_le_of_mem hc) small)
  have zero : (0 : Int64) = Int64.ofNat 0 := rfl
  rw [span, rowCounts_of_extents small exact, zero, foldl_ofNat, Nat.zero_add, extent_product]

/-- Sets that are not too large in all are accepted as the members of a product. -/
theorem product?_of_lt {members : List (Cone β)} (small : (product members).extent < countLimit) :
    product? members = .ok (product members) := by
  have fits : (dims members).any (2 * countLimit ≤ ·) = false := by
    rw [dims_eq_map, List.any_eq_false]
    intro d hd
    obtain ⟨c, hc, rfl⟩ := List.mem_map.1 hd
    have low := extent_le_of_mem hc
    rw [dim_eq_extent (Nat.lt_of_le_of_lt low small), decide_eq_true_iff]
    omega
  have positive : ¬ span members < 0 := by
    rw [span_eq_ofNat small, Int64.lt_iff_toInt_lt, Int64.toInt_ofNat_of_lt small]
    simp
  rw [product?, fits, if_neg (by simp), if_neg positive]
  rfl

/-- The product of the elementary sets, in order. -/
def flat (c : Cone β) : Cone β := product (c.leaves.map block)

@[simp] theorem leaves_flat (c : Cone β) : c.flat.leaves = c.leaves := by
  simp [flat, leaves, leavesOf_eq_flatMap, List.flatMap_map]

@[simp] theorem extent_flat (c : Cone β) : c.flat.extent = c.extent := by
  simp [extent]

variable [Scalar α]

/-- Two sets of as many rows that no scaling can tell apart, but for what is recorded. -/
structure Alike (c d : Cone α) : Prop where
  dim : d.dim = c.dim
  uniformScaling : d.uniformScaling = c.uniformScaling
  /-- Both rectify, find the same and leave the same. -/
  rectify : ∀ e work : Array α, e.size = c.dim → work.size = c.dim → ∀ journal journal',
    ∃ changed left after after',
      (c.rectify e).run ⟨work, journal⟩ = .ok changed ⟨left, after⟩ ∧
      BlocksRecorded journal after ∧
      (d.rectify e).run ⟨work, journal'⟩ = .ok changed ⟨left, after'⟩ ∧
      BlocksRecorded journal' after'
  /-- Both are scaled, and the boxes among their elementary sets get the same bounds. -/
  scale : ∀ e : Array α, e.size = c.dim → ∃ c' d',
    (scale e).run c = .ok () c' ∧ (scale e).run d = .ok () d' ∧ d'.leaves = c'.leaves

theorem alike_of_leaves {c d : Cone α} (small : c.extent < countLimit)
    (same : d.leaves = c.leaves) : Alike c d := by
  have extents : d.extent = c.extent := by simp only [extent, same]
  have rows : c.dim = c.extent := dim_eq_extent small
  have small' : d.extent < countLimit := extents ▸ small
  constructor
  case dim => rw [rows, dim_eq_extent small', extents]
  case uniformScaling => rw [uniformScaling_eq_any, uniformScaling_eq_any, same]
  case rectify =>
    intro e work size workSize journal journal'
    rw [rows] at size workSize
    have sizes := size.trans workSize.symm
    obtain ⟨after, blocks, ran⟩ := run_rectify (c := c) sizes journal
    obtain ⟨after', blocks', ran'⟩ := run_rectify (c := d) sizes journal'
    rw [corrected_eq_correctedFrom size workSize small] at ran
    rw [corrected_eq_correctedFrom (size.trans extents.symm) (workSize.trans extents.symm) small',
      same] at ran'
    exact ⟨_, _, after, after', ran, blocks, ran', blocks'⟩
  case scale =>
    intro e size
    rw [rows] at size
    have size' : e.size = d.extent := size.trans extents.symm
    refine ⟨_, _, run_scale (size ▸ fits_extent small), run_scale (size' ▸ fits_extent small'), ?_⟩
    rw [leaves_scaled size small, leaves_scaled size' small', same]

/-- Nesting is irrelevant: where the rows of the elementary sets of a product can be counted, the
product of these sets alone exists and cannot be told apart from it by any scaling. -/
theorem alike_flat {c : Cone α} (small : c.extent < countLimit) :
    product? (c.leaves.map block) = .ok c.flat ∧ Alike c c.flat :=
  ⟨product?_of_lt (by simpa [flat] using (extent_flat c).trans_lt small),
    alike_of_leaves small (leaves_flat c)⟩

/-- An empty product, a box and a second-order cone at different depths, with an empty block. -/
def deep : Cone Float :=
  product [product [], product [block (.box #[0, 0] #[1, 2]),
    product [block (.zero 0), block (.secondOrder 2)]], block (.semidefiniteTriangle 2)]

theorem alike_flat_deep : deep.extent < countLimit ∧
    product? (deep.leaves.map block) = .ok deep.flat ∧ Alike deep deep.flat :=
  have small : deep.extent < countLimit := by decide
  ⟨small, alike_flat small⟩

end Cone

end ConicScaling
