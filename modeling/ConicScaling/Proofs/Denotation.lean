import ConicScaling.Proofs.Collection

/-!
# What operands stand for

Every form in which a matrix is handed over stands for numbers at rows and columns: stored entries
and triplets add up at each position, an array lists its items row by row, and nested lists are
rows of numbers. In exact arithmetic a workspace holds the same numbers.
-/
namespace ConicScaling

variable {α β γ : Type}

/-! ## Arrays and nested lists -/

/-- The item at row `i` and column `j` of an array with two axes. -/
theorem Tensor.value_toStorage? {T : Tensor ℝ} (h : T.WellFormed) {rows cols : Nat}
    (shape : T.shape = [rows, cols]) {S : Storage ℝ} (two : T.toStorage? = some S) {i j : Nat}
    (hi : i < rows) (hj : j < cols) : S.value i j = T.data.getD (i * cols + j) 0 := by
  obtain ⟨_, data⟩ := T
  obtain rfl : _ = [rows, cols] := shape
  simp only [toStorage?, Option.some.injEq] at two
  subst two
  have size : data.size = rows * cols := by simpa [WellFormed] using h
  have below : (i + 1) * cols ≤ rows * cols := Nat.mul_le_mul_right cols hi
  have inside : i * cols + j < data.size := by
    rw [size]
    linarith
  have width : j < (i + 1) * cols - i * cols := by rwa [Nat.succ_mul, Nat.add_sub_cancel_left]
  rw [Array.getD_eq_getD_getElem?, Array.getElem?_eq_getElem inside]
  simp [Storage.value, Storage.entry, hi, size, below, width]

theorem Tensor.shape_toStorage? {T : Tensor β} {S : Storage β} (two : T.toStorage? = some S) :
    T.shape = [S.shape.1, S.shape.2] := by
  unfold toStorage? at two
  split at two
  · cases two
    simp [*, Storage.shape, Storage.count, Axis.select]
  · cases two

namespace Value

/-- The item of a list at a place. -/
def item? (k : Nat) : Value α → Option (Value α)
  | list items => items[k]?
  | _ => none

theorem shape?_of_mem {items : List (Value α)} {s : List Nat} (h : rowShape? items = some s)
    {item : Value α} (member : item ∈ items) : item.shape? = some s := by
  match items with
  | [] => cases member
  | [only] =>
    rw [List.mem_singleton.1 member]
    exact h
  | first :: second :: rest =>
    simp only [rowShape?] at h
    split at h
    · rename_i hfirst hrest
      split at h
      · rename_i agree
        obtain rfl := Option.some.inj h
        rcases List.mem_cons.1 member with rfl | later
        · exact hfirst
        · exact shape?_of_mem (agree ▸ hrest) later
      · cases h
    · cases h

/-- What has no axes is an innermost item. -/
theorem leaves_of_shape? {v : Value α} (h : v.shape? = some []) : v.leaves = [v] := by
  cases v with
  | list items =>
    obtain ⟨_, -, same⟩ := Option.map_eq_some_iff.1 h
    cases same
  | null | bool | integer | real | text | record => rfl

theorem leavesOf_eq_flatMap (items : List (Value α)) : leavesOf items = items.flatMap leaves := by
  induction items with
  | nil => rfl
  | cons item items ih => rw [leavesOf, ih, List.flatMap_cons]

theorem exists_items {v : Value α} {n : Nat} {s : List Nat} (h : v.shape? = some (n :: s)) :
    ∃ items, v = list items ∧ items.length = n ∧ rowShape? items = some s := by
  cases v with
  | list items =>
    obtain ⟨t, ht, same⟩ := Option.map_eq_some_iff.1 h
    cases same
    exact ⟨items, rfl, rfl, ht⟩
  | null | bool | integer | real | text | record => cases h

/-- The innermost items of a row are its items. -/
theorem leaves_row {v : Value α} {n : Nat} (h : v.shape? = some [n]) :
    v.leaves.length = n ∧ ∀ j, v.leaves[j]? = v.item? j := by
  obtain ⟨items, rfl, length, inner⟩ := exists_items h
  have same : leavesOf items = items := by
    rw [leavesOf_eq_flatMap, List.flatMap_congr fun item member =>
      leaves_of_shape? (shape?_of_mem inner member)]
    exact List.flatMap_singleton' items
  exact ⟨(congrArg List.length same).trans length, fun j => congrArg (·[j]?) same⟩

/-- Blocks of one length are found by their number. -/
theorem getElem?_flatMap {xs : List β} {f : β → List γ} {n : Nat}
    (length : ∀ x ∈ xs, (f x).length = n) (i : Nat) {j : Nat} (hj : j < n) :
    (xs.flatMap f)[i * n + j]? = xs[i]?.bind fun x => (f x)[j]? := by
  induction xs generalizing i with
  | nil => simp
  | cons x xs ih =>
    obtain ⟨first, rest⟩ := List.forall_mem_cons.1 length
    rw [List.flatMap_cons]
    cases i with
    | zero => simp [List.getElem?_append_left, first, hj]
    | succ i =>
      have later : (i + 1) * n + j = (f x).length + (i * n + j) := by
        rw [first]
        ring
      rw [later, List.getElem?_append_right (Nat.le_add_right _ _), Nat.add_sub_cancel_left,
        ih rest]
      rfl

/-- The innermost items of a list of rows, row by row. -/
theorem getElem?_leaves {v : Value α} {rows cols : Nat} (h : v.shape? = some [rows, cols]) (i : Nat)
    {j : Nat} (hj : j < cols) : v.leaves[i * cols + j]? = (v.item? i).bind (item? j) := by
  obtain ⟨items, rfl, -, inner⟩ := exists_items h
  have row (item : Value α) (member : item ∈ items) := leaves_row (shape?_of_mem inner member)
  rw [leaves, leavesOf_eq_flatMap, getElem?_flatMap (fun item member => (row item member).1) i hj,
    item?]
  cases found : items[i]? with
  | none => rfl
  | some item => exact (row item (List.mem_of_getElem? found)).2 j

/-- Items that are no numbers are not read at all. -/
theorem getD_toTensor? {v : Value ℝ} {T : Tensor ℝ} (h : v.toTensor? toEntry? = .ok T) (k : Nat) :
    T.data.getD k 0 = ((v.leaves[k]?).bind fun item => item.toEntry?.toOption).getD 0 := by
  have read := (toTensor?_eq_ok h).2
  have length : v.leaves.length = T.data.size := read.length_eq
  obtain ⟨-, items⟩ := List.forall₂_iff_get.1 read
  by_cases inside : k < T.data.size
  · have within : k < v.leaves.length := length.symm ▸ inside
    have converted := items k within inside
    simp only [List.get_eq_getElem, Array.getElem_toList] at converted
    simp [inside, within, converted, Except.toOption]
  · have beyond : ¬ k < v.leaves.length := length.symm ▸ inside
    simp [inside, beyond]

end Value

/-! ## Operands -/

namespace Triplets

theorem count_toStorage (T : Triplets β) (format : TripletFormat) (add : β → β → β) (zero : β)
    (isZero : β → Bool) (axis : Axis) :
    (T.toStorage format add zero isZero).count axis = axis.select T.rows T.cols := by
  have collected (T : Triplets β) (total : List β → β) :
      (T.collect total).count axis = axis.select T.rows T.cols :=
    (Storage.count_mapSlices ..).trans (count_compress T .column axis)
  cases format with
  | coordinates | rowLists | keyed => exact collected _ _
  | diagonals => exact (Storage.count_mapSlices ..).trans (collected _ _)

end Triplets

namespace Operand

/-- The layout in which a matrix is held that is made from an operand. -/
def intakeLayout : Operand α → Layout
  | stored M => M.layout
  | triplets .. => .compressedColumns
  | array _ | value _ => .dense

/-- The lengths along the axes, of nested lists too. -/
def extents : Operand α → Option (List Nat)
  | value v => v.shape?
  | M => M.shape?.toOption

/-- The number that an operand stands for at row `i` and column `j`. -/
noncomputable def denoted (M : Operand ℝ) (i j : Nat) : ℝ :=
  match M with
  | stored M => M.reals.value i j
  | triplets _ T => T.total i j
  | array T => T.toReals.data.getD (i * T.toReals.shape.getLastD 0 + j) 0
  | value v => (((v.item? i).bind (Value.item? j)).bind fun item => item.toEntry?.toOption).getD 0

/-- Whether adding up triplets is exact within their type: integers do not wrap around, and no two
true values meet. -/
def Exact : Operand ℝ → Prop
  | triplets _ T => T.Exact
  | _ => True

/-- Whether an operand stands for a stored matrix. -/
structure StandsFor (M : Operand ℝ) (S : Storage ℝ) : Prop where
  extents : M.extents = some [S.shape.1, S.shape.2]
  value : ∀ i < S.shape.1, ∀ j < S.shape.2, S.value i j = M.denoted i j

theorem extents_triplets [Scalar α] (format : TripletFormat) (T : Numbers α Triplets) :
    (triplets format T).extents = (stored (Numbers.ofTriplets format T)).extents := by
  cases T <;> simp [extents, shape?, Numbers.ofTriplets, Numbers.shape, Storage.shape,
    Triplets.count_toStorage, Axis.select]

theorem exists_mapM_eq_ok {ε : Type} {f : β → Except ε γ} {xs : List β}
    (h : ∀ x ∈ xs, ∃ y, f x = .ok y) : ∃ ys, xs.mapM f = .ok ys := by
  induction xs with
  | nil => exact ⟨[], rfl⟩
  | cons x xs ih =>
    obtain ⟨⟨y, first⟩, rest⟩ := List.forall_mem_cons.1 h
    obtain ⟨ys, found⟩ := ih rest
    refine ⟨y :: ys, ?_⟩
    rw [List.mapM_cons, first, found]
    rfl

section Acceptance

variable [Scalar α]

/-- Whether an operand has two axes and its items are numbers. -/
structure IsMatrix (M : Operand α) : Prop where
  axes : ∃ rows cols, M.extents = some [rows, cols]
  numbers : ∀ v, M = value v → ∀ item ∈ v.leaves, ∃ x : α, item.toEntry? = .ok x

variable {input : Input} {journal : Journal α}

omit [Scalar α] in
theorem exists_run_ofArray (input : Input) {T : Tensor α} {rows cols : Nat}
    (shape : T.shape = [rows, cols]) (journal : Journal α) :
    ∃ N, (ofArray input T).run journal = .ok N journal := by
  obtain ⟨_, data⟩ := T
  obtain rfl : _ = [rows, cols] := shape
  exact ⟨_, rfl⟩

/-- An array is taken in, whether or not that is recorded. -/
theorem exists_run_array {T : Numbers α Tensor} {rows cols : Nat}
    (shape : T.toReals.shape = [rows, cols]) :
    ∃ N after, ((array T).intakeMatrix input).run journal = .ok N after := by
  have recorded := exists_run_ofArray input shape (journal.push (.copiedMatrix input))
  rcases T with ⟨_ | _, T⟩ | T | T
  · obtain ⟨N, ran⟩ := exists_run_ofArray input shape journal
    exact ⟨N, journal, ran⟩
  all_goals
    obtain ⟨N, ran⟩ := recorded
    exact ⟨N, _, bind_of_ok rfl ran⟩

theorem exists_run_value {v : Value α} {rows cols : Nat} (shape : v.shape? = some [rows, cols])
    (numbers : ∀ item ∈ v.leaves, ∃ x : α, item.toEntry? = .ok x) :
    ∃ N after, ((value v).intakeMatrix input).run journal = .ok N after := by
  obtain ⟨entries, converted⟩ := exists_mapM_eq_ok numbers
  have read : v.toTensor? Value.toEntry? = .ok ⟨[rows, cols], entries.toArray⟩ := by
    simp only [Value.toTensor?, shape, converted]
    rfl
  obtain ⟨N, ran⟩ := exists_run_ofArray input (T := ⟨[rows, cols], entries.toArray⟩) rfl
    (journal.push (.copiedMatrix input))
  exact ⟨N, _, bind_of_ok rfl (bind_of_ok (ofExcept_of_ok read _) ran)⟩

/-- A matrix is taken in, whatever its form is. -/
theorem IsMatrix.exists_run {M : Operand α} (h : M.IsMatrix) (input : Input)
    (journal : Journal α) : ∃ N after, (M.intakeMatrix input).run journal = .ok N after := by
  obtain ⟨⟨rows, cols, axes⟩, numbers⟩ := h
  cases M with
  | stored M => exact ⟨_, M.exists_run_intake input journal⟩
  | triplets format T =>
    obtain ⟨after, ran⟩ := (Numbers.ofTriplets format T).exists_run_intake input
      (journal.push (.convertedFormat input format.label))
    exact ⟨_, after, bind_of_ok rfl ran⟩
  | array T =>
    have shape : T.toReals.shape = [rows, cols] := by
      cases T <;> exact Option.some.inj axes
    exact exists_run_array shape
  | value v => exact exists_run_value axes (numbers v rfl)

end Acceptance

namespace Becomes

section Scalars

variable [Scalar α] {M : Operand α} {N : DataMatrix α} (becomes : M.Becomes N)

include becomes

theorem layout : N.storage.layout = M.intakeLayout := by
  cases becomes with
  | stored M => exact M.layout_taken
  | triplets format T =>
    exact (Numbers.layout_taken _).trans (Numbers.layout_ofTriplets format T)
  | array two => exact Tensor.layout_toStorage? two
  | value read two => exact Tensor.layout_toStorage? two

theorem extents : M.extents = some [N.storage.shape.1, N.storage.shape.2] := by
  cases becomes with
  | stored M =>
    rw [M.shape_taken]
    rfl
  | triplets format T =>
    rw [extents_triplets, Numbers.shape_taken]
    rfl
  | @array T _ two =>
    have shape := Tensor.shape_toStorage? two
    cases T <;> exact congrArg some shape
  | value read two =>
    have shape := Tensor.shape_toStorage? two
    exact shape ▸ (Value.toTensor?_eq_ok read).1

/-- Only matrices are taken in. -/
theorem isMatrix : M.IsMatrix := by
  refine ⟨⟨_, _, becomes.extents⟩, ?_⟩
  rintro v rfl item member
  cases becomes with
  | value read two =>
    have items := (Value.toTensor?_eq_ok read).2
    obtain ⟨k, inside, rfl⟩ := List.mem_iff_getElem.1 member
    exact ⟨_, (List.forall₂_iff_get.1 items).2 k inside (items.length_eq ▸ inside)⟩

end Scalars

/-- In exact arithmetic a matrix that is taken in is what the operand stands for. -/
theorem standsFor {M : Operand ℝ} {N : DataMatrix ℝ} (becomes : M.Becomes N) (h : M.WellFormed)
    (exact : M.Exact) : M.StandsFor N.storage := by
  refine ⟨becomes.extents, fun i hi j hj => ?_⟩
  cases becomes with
  | stored M => exact M.alike_taken.value i j
  | triplets format T =>
    exact ((Numbers.ofTriplets format T).alike_taken.value i j).trans
      (Numbers.value_ofTriplets h exact format i j)
  | @array T S two =>
    have shape := Tensor.shape_toStorage? two
    rw [Tensor.value_toStorage? (Numbers.wellFormed_toReals h) shape two hi hj, denoted, shape]
    rfl
  | @value v T S read two =>
    have shape := Tensor.shape_toStorage? two
    have axes := shape ▸ (Value.toTensor?_eq_ok read).1
    rw [Tensor.value_toStorage? (Value.wellFormed_toTensor? read) shape two hi hj, denoted,
      ← Value.getElem?_leaves axes i hj]
    exact Value.getD_toTensor? read _

end Becomes

/-- Exactly the matrices are taken in. -/
theorem exists_run_iff [Scalar α] {M : Operand α} {input : Input} {journal : Journal α} :
    (∃ N after, (M.intakeMatrix input).run journal = .ok N after) ↔ M.IsMatrix :=
  ⟨fun ⟨_, _, ran⟩ => (becomes_of_run ran).isMatrix, fun h => h.exists_run input journal⟩

end Operand

end ConicScaling
