import ConicScaling.Proofs.Resubmission

/-!
# Index arrays

A compressed matrix is exchanged as two lists: the indices of all stored entries, slice by slice,
and the offsets at which the slices begin. A matrix that a workspace holds is told by such lists
whose indices are in range and increase within each slice, and taking the symmetric part stores
nothing at a position that neither the matrix nor its transpose stores.
-/
namespace ConicScaling

variable {α β γ : Type}

namespace Storage

/-- The slices of a compressed matrix; dense rows are none. -/
def slices : Storage β → List (Slice β)
  | dense .. => []
  | sparse _ _ slices => slices.toList

/-- The indices of all stored entries, slice by slice. -/
def indices (S : Storage β) : List Nat := S.slices.flatMap fun slice => slice.map Prod.fst

/-- How many entries the first `k` slices store. -/
def offset (S : Storage β) (k : Nat) : Nat := ((S.slices.take k).map List.length).sum

/-- Where each slice begins among the indices, and where the last one ends. -/
def offsets (S : Storage β) : List Nat := (List.range (S.slices.length + 1)).map S.offset

/-- What is promised of a matrix that a workspace holds. -/
structure Indexed (S : Storage β) : Prop where
  /-- Dense rows have one length, and indices are in range. -/
  wellFormed : S.WellFormed
  first : S.offsets.head? = some 0
  increasing : S.offsets.Pairwise (· ≤ ·)
  last : S.offsets.getLast? = some S.indices.length
  /-- What stands between two successive offsets is one slice. -/
  strict : ∀ k start stop, S.offsets[k]? = some start → S.offsets[k + 1]? = some stop →
    ((S.indices.drop start).take (stop - start)).Pairwise (· < ·)

/-! ## Offsets -/

theorem offset_mono (S : Storage β) {k l : Nat} (h : k ≤ l) : S.offset k ≤ S.offset l :=
  ((List.take_sublist_take_left h).map List.length).sum_le_sum fun _ _ => Nat.zero_le _

theorem offset_length (S : Storage β) : S.offset S.slices.length = S.indices.length := by
  simp [offset, indices, List.length_flatMap]

theorem offset_succ {S : Storage β} {k : Nat} {slice : Slice β}
    (found : S.slices[k]? = some slice) : S.offset (k + 1) = S.offset k + slice.length := by
  simp [offset, List.take_add_one, found]

theorem getElem?_offsets (S : Storage β) (k : Nat) :
    S.offsets[k]? = if k ≤ S.slices.length then some (S.offset k) else none := by
  by_cases h : k ≤ S.slices.length
  · simp [offsets, h, Nat.lt_succ_of_le h]
  · simp [offsets, h]

/-- Between two successive offsets stand the indices of one slice. -/
theorem take_drop_indices {S : Storage β} {k : Nat} {slice : Slice β}
    (found : S.slices[k]? = some slice) :
    (S.indices.drop (S.offset k)).take slice.length = slice.map Prod.fst := by
  unfold indices offset
  generalize S.slices = slices at found
  induction slices generalizing k with
  | nil => simp at found
  | cons first rest ih =>
    cases k with
    | zero =>
      obtain rfl : first = slice := by simpa using found
      simp
    | succ k =>
      have later := ih (k := k) (by simpa using found)
      simp only [List.take_succ_cons, List.map_cons, List.sum_cons, List.flatMap_cons]
      rw [← List.drop_drop, List.drop_left' (List.length_map _)]
      exact later

theorem canonical_of_mem_slices {S : Storage β} (h : S.IsCanonical) {slice : Slice β}
    (member : slice ∈ S.slices) : Slice.Canonical slice := by
  cases S with
  | dense cols rows => cases member
  | sparse major minor slices => exact h slice (Array.mem_toList_iff.1 member)

theorem head?_offsets (S : Storage β) : S.offsets.head? = some 0 := by
  simp [offsets, offset, List.head?_range]

theorem pairwise_offsets (S : Storage β) : S.offsets.Pairwise (· ≤ ·) :=
  List.pairwise_map.2 (List.pairwise_lt_range.imp fun below => S.offset_mono (Nat.le_of_lt below))

theorem getLast?_offsets (S : Storage β) : S.offsets.getLast? = some S.indices.length := by
  simp [offsets, List.getLast?_range, offset_length]

/-- Canonical slices with indices in range give such lists. -/
theorem indexed_of_canonical {S : Storage β} (wellFormed : S.WellFormed)
    (canonical : S.IsCanonical) : S.Indexed where
  wellFormed := wellFormed
  first := S.head?_offsets
  increasing := S.pairwise_offsets
  last := S.getLast?_offsets
  strict := by
    intro k start stop hstart hstop
    simp only [getElem?_offsets, Option.ite_none_right_eq_some, Option.some.injEq] at hstart hstop
    obtain ⟨-, rfl⟩ := hstart
    obtain ⟨inside, rfl⟩ := hstop
    have found : S.slices[k]? = some S.slices[k] := List.getElem?_eq_getElem inside
    rw [offset_succ found, Nat.add_sub_cancel_left, take_drop_indices found]
    exact List.pairwise_map.2 (canonical_of_mem_slices canonical (List.getElem_mem inside))

/-! ## Stored positions -/

/-- Rows and columns of the stored entries. -/
def positions (S : Storage β) : List (Nat × Nat) := S.entries.map fun e => (e.row, e.col)

@[simp] theorem positions_mapEntries (f : Nat → Nat → β → γ) (S : Storage β) :
    (S.mapEntries f).positions = S.positions := by
  simp [positions, entries_mapEntries]

theorem positions_eq_of_pattern {S : Storage β} {T : Storage γ} (same : S.pattern = T.pattern) :
    S.positions = T.positions := by
  calc S.positions = S.pattern.positions := (positions_mapEntries _ S).symm
    _ = T.pattern.positions := by rw [same]
    _ = T.positions := positions_mapEntries _ T

theorem mem_positions_sparse {major : Axis} {minor : Nat} {slices : Array (Slice β)} {k l : Nat} :
    major.position k l ∈ (sparse major minor slices).positions ↔
      ∃ e ∈ slices.getD k [], e.1 = l := by
  have line : slices.getD k [] = (slices[k]?).getD [] := Array.getD_eq_getD_getElem? ..
  simp only [positions, entries, List.mem_map, List.mem_flatMap, Prod.exists,
    List.mem_zipIdx_iff_getElem?, Array.getElem?_toList, line]
  constructor
  · rintro ⟨e, ⟨slice, i, hi, j, v, hv, rfl⟩, same⟩
    have both : i = k ∧ j = l := by cases major <;> simp_all [Axis.position]
    obtain ⟨rfl, rfl⟩ := both
    exact ⟨j, v, by simpa [hi] using hv, rfl⟩
  · rintro ⟨j, v, hv, rfl⟩
    cases found : slices[k]? with
    | none => simp [found] at hv
    | some slice =>
      exact ⟨_, ⟨slice, k, found, j, v, by simpa [found] using hv, rfl⟩, by cases major <;> rfl⟩

theorem exists_position (major : Axis) (p : Nat × Nat) : ∃ k l, p = major.position k l := by
  cases major with
  | row => exact ⟨p.1, p.2, rfl⟩
  | column => exact ⟨p.2, p.1, rfl⟩

theorem swap_position (major : Axis) (k l : Nat) :
    (major.position k l).swap = major.position l k := by
  cases major <;> rfl

section Symmetrized

variable (add : β → β → β) (zero : β) (isZero : β → Bool) (finish : β → γ)

/-- The symmetric part only stores positions that the matrix or its transpose stores, as long as the
sum of two zeros counts as zero. -/
theorem positions_symmetrized (zeros : isZero (add zero zero) = true) {S : Storage β}
    {p : Nat × Nat} (h : p ∈ (S.symmetrized add zero isZero finish).positions) :
    p ∈ S.positions ∨ p.swap ∈ S.positions := by
  cases S with
  | dense cols rows =>
    left
    rwa [show (dense cols rows).symmetrized add zero isZero finish = (dense cols rows).mapEntries
      fun i j _ => finish ((dense cols rows).transposeSum add zero i j) from rfl,
      positions_mapEntries] at h
  | sparse major minor slices =>
    obtain ⟨k, l, rfl⟩ := exists_position major p
    rw [swap_position, mem_positions_sparse, mem_positions_sparse]
    obtain ⟨e, he, rfl⟩ := mem_positions_sparse.1 h
    by_contra unstored
    push Not at unstored
    -- where neither slice stores anything, two zeros are added
    have sum : (sparse major minor slices).transposeSum add zero (major.position k e.1).1
        (major.position k e.1).2 = add zero zero := by
      rw [transposeSum_sparse, sliceEntry_of_not_mem unstored.1, sliceEntry_of_not_mem unstored.2]
    have inside := lt_size_of_mem he
    simp only [Array.size_map, Array.size_range] at inside
    rw [Array.getD, dif_pos (by simpa using inside)] at he
    simp only [Array.getInternal_eq_getElem, Array.getElem_map, Array.getElem_range,
      transposeSumSlice, List.mem_filterMap, Option.ite_none_left_eq_some, Option.some.injEq] at he
    obtain ⟨l, -, kept, same⟩ := he
    obtain rfl : l = e.1 := congrArg Prod.fst same
    exact kept (by rw [sum, zeros])

end Symmetrized

/-- Whether two matrices are told by the same index arrays. -/
structure SameIndices (S : Storage β) (T : Storage γ) : Prop where
  layout : S.layout = T.layout
  shape : S.shape = T.shape
  offsets : S.offsets = T.offsets
  indices : S.indices = T.indices

theorem SameIndices.trans {δ : Type} {S : Storage β} {T : Storage γ} {U : Storage δ}
    (h : S.SameIndices T) (g : T.SameIndices U) : S.SameIndices U :=
  ⟨h.layout.trans g.layout, h.shape.trans g.shape, h.offsets.trans g.offsets,
    h.indices.trans g.indices⟩

theorem slices_pattern (S : Storage β) :
    S.pattern.slices = S.slices.map fun slice => slice.map fun e => (e.1, ()) := by
  cases S with
  | dense cols rows => rfl
  | sparse major minor slices =>
    simp only [pattern, map, mapEntries, Storage.slices, Array.toList_mapIdx]
    apply List.ext_getElem <;> simp

theorem sameIndices_pattern (S : Storage β) : S.SameIndices S.pattern where
  layout := (layout_pattern S).symm
  shape := by simp [shape]
  offsets := by
    have same (k : Nat) : S.pattern.offset k = S.offset k := by
      simp [offset, slices_pattern, ← List.map_take, Function.comp_def]
    rw [offsets, offsets, slices_pattern, List.length_map]
    exact List.map_congr_left fun k _ => (same k).symm
  indices := by simp [indices, slices_pattern, List.flatMap_map, Function.comp_def]

theorem sameIndices_of_pattern {S : Storage β} {T : Storage γ} (same : S.pattern = T.pattern) :
    S.SameIndices T := by
  have left := sameIndices_pattern S
  have right := sameIndices_pattern T
  rw [same] at left
  exact ⟨left.layout.trans right.layout.symm, left.shape.trans right.shape.symm,
    left.offsets.trans right.offsets.symm, left.indices.trans right.indices.symm⟩

end Storage

end ConicScaling
