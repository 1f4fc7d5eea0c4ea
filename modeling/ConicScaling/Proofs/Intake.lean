import ConicScaling.Operand.Intake
import ConicScaling.Proofs.Placement

/-!
# What is taken in

Every form of matrix is taken in with its indices in range and its rows of one length. Sorting and
adding up duplicates only meets indices that were stored before, and nested lists are an array only
if their lengths agree.
-/
namespace ConicScaling

variable {α β γ : Type}

/-! ## Canonical slices -/

theorem Slice.mem_foldl_insert {add : β → β → β} (slice : Slice β) {sorted : Slice β}
    {e : Nat × β}
    (h : e ∈ slice.foldl (fun sorted (k, v) => Slice.insert add k v sorted) sorted) :
    (∃ d ∈ sorted, d.1 = e.1) ∨ ∃ d ∈ slice, d.1 = e.1 := by
  induction slice generalizing sorted with
  | nil => exact .inl ⟨e, h, rfl⟩
  | cons d rest ih =>
    rcases ih h with ⟨c, hc, hce⟩ | ⟨c, hc, hce⟩
    · rcases Slice.mem_insert hc with hd | ⟨b, hb, hbc⟩
      · exact .inr ⟨d, by simp, hd.symm.trans hce⟩
      · exact .inl ⟨b, hb, hbc.trans hce⟩
    · exact .inr ⟨c, by simp [hc], hce⟩

/-- Sorting meets no new index. -/
theorem Slice.mem_canonical {add : β → β → β} {slice : Slice β} {e : Nat × β}
    (h : e ∈ Slice.canonical add slice) : ∃ d ∈ slice, d.1 = e.1 := by
  rcases Slice.mem_foldl_insert slice h with ⟨d, hd, -⟩ | found
  · cases hd
  · exact found

theorem Slice.mem_totalled {total : List β → β} {slice : Slice β} {e : Nat × β}
    (h : e ∈ Slice.totalled total slice) : ∃ d ∈ slice, d.1 = e.1 := by
  obtain ⟨⟨k, vs⟩, hk, rfl⟩ := List.mem_map.1 h
  obtain ⟨d, hd, hdk⟩ := Slice.mem_canonical hk
  obtain ⟨c, hc, rfl⟩ := List.mem_map.1 hd
  exact ⟨c, hc, hdk⟩

namespace Storage

@[simp] theorem count_mapSlices (f : Slice β → Slice β) (S : Storage β) (axis : Axis) :
    (S.mapSlices f).count axis = S.count axis := by
  cases S <;> simp [mapSlices, count]

/-- Slices whose indices were stored before stay in range. -/
theorem WellFormed.mapSlices {S : Storage β} (h : S.WellFormed) {f : Slice β → Slice β}
    (old : ∀ slice, ∀ e ∈ f slice, ∃ d ∈ slice, d.1 = e.1) : (S.mapSlices f).WellFormed := by
  cases S with
  | dense cols rows => exact h
  | sparse major minor slices =>
    intro slice hslice e he
    obtain ⟨s, hs, rfl⟩ := Array.mem_map.1 hslice
    obtain ⟨d, hd, hde⟩ := old s e he
    exact hde ▸ h s hs d hd

theorem WellFormed.arranged {S : Storage β} (h : S.WellFormed) : S.arranged.WellFormed := by
  unfold Storage.arranged
  split
  · exact h
  · exact h.mapSlices fun slice e he => ⟨e, (Slice.arranged_perm slice).mem_iff.1 he, rfl⟩

@[simp] theorem count_arranged (S : Storage β) (axis : Axis) :
    S.arranged.count axis = S.count axis := by
  unfold arranged
  split <;> simp

theorem WellFormed.canonical {S : Storage β} (h : S.WellFormed) (add : β → β → β) :
    (S.canonical add).WellFormed :=
  h.arranged.mapSlices fun _ _ => Slice.mem_canonical

end Storage

/-! ## Triplets -/

namespace Triplets

/-- Whether every entry lies within the matrix. -/
def WellFormed (T : Triplets β) : Prop := ∀ e ∈ T.entries, e.row < T.rows ∧ e.col < T.cols

theorem wellFormed_compress {T : Triplets β} (h : T.WellFormed) (major : Axis) :
    (T.compress major).WellFormed := by
  intro slice hslice e he
  obtain ⟨k, -, rfl⟩ := Array.mem_map.1 hslice
  obtain ⟨d, hd, rfl⟩ := List.mem_map.1 he
  have inside := h d (List.mem_filter.1 hd).1
  cases major
  · exact inside.2
  · exact inside.1

theorem count_compress (T : Triplets β) (major axis : Axis) :
    (T.compress major).count axis = axis.select T.rows T.cols := by
  cases major <;> cases axis <;> simp [compress, Storage.count, Axis.other, Axis.select]

theorem wellFormed_collect {T : Triplets β} (h : T.WellFormed) (total : List β → β) :
    (T.collect total).WellFormed :=
  (wellFormed_compress h .column).mapSlices fun _ _ => Slice.mem_totalled

theorem wellFormed_arranged {T : Triplets β} (h : T.WellFormed) (major : Axis) :
    (T.arranged major).WellFormed := by
  intro e he
  have inside := (wellFormed_compress h major).arranged
  have row := inside.along_lt_count .row he
  have column := inside.along_lt_count .column he
  rw [Storage.count_arranged, count_compress] at row column
  exact ⟨row, column⟩

theorem wellFormed_toStorage {T : Triplets β} (h : T.WellFormed) (format : TripletFormat)
    (add : β → β → β) (zero : β) (isZero : β → Bool) :
    (T.toStorage format add zero isZero).WellFormed := by
  cases format with
  | coordinates => exact wellFormed_collect (wellFormed_arranged h .column) _
  | rowLists => exact wellFormed_collect (wellFormed_arranged h .row) _
  | keyed => exact wellFormed_collect h _
  | diagonals =>
    exact (wellFormed_collect h _).mapSlices fun _ e he => ⟨e, (List.mem_filter.1 he).1, rfl⟩

end Triplets

/-! ## Arrays -/

/-- Whether the items are as many as the lengths of the axes say. -/
def Tensor.WellFormed (T : Tensor β) : Prop := T.data.size = T.shape.prod

theorem Tensor.wellFormed_toStorage? {T : Tensor β} (h : T.WellFormed) {S : Storage β}
    (two : T.toStorage? = some S) : S.WellFormed := by
  rcases T with ⟨_ | ⟨rows, _ | ⟨cols, _ | ⟨_, _⟩⟩⟩, data⟩ <;>
    simp only [toStorage?, reduceCtorEq, Option.some.injEq] at two
  subst two
  intro row hrow
  obtain ⟨i, hi, rfl⟩ := Array.mem_map.1 hrow
  have below : (i + 1) * cols ≤ rows * cols :=
    Nat.mul_le_mul_right cols (Nat.succ_le_of_lt (Array.mem_range.1 hi))
  have size : data.size = rows * cols := by simpa [WellFormed] using h
  rw [Array.size_extract, size, Nat.min_eq_left below, Nat.succ_mul, Nat.add_sub_cancel_left]

/-- What is converted one by one is converted item by item. -/
theorem forall₂_of_mapM_eq_ok {ε : Type} {f : α → Except ε β} {xs : List α} {ys : List β}
    (h : xs.mapM f = .ok ys) : List.Forall₂ (fun x y => f x = .ok y) xs ys := by
  induction xs generalizing ys with
  | nil =>
    cases h
    exact .nil
  | cons x xs ih =>
    rw [List.mapM_cons] at h
    obtain ⟨y, first, h⟩ := exists_of_bind_eq_ok h
    obtain ⟨rest, found, h⟩ := exists_of_bind_eq_ok h
    cases h
    exact .cons first (ih found)

namespace Value

mutual

theorem length_leaves {v : Value α} {s : List Nat} (h : v.shape? = some s) :
    v.leaves.length = s.prod := by
  match v with
  | .list items =>
    obtain ⟨t, ht, rfl⟩ := Option.map_eq_some_iff.1 h
    simpa [leaves] using length_leavesOf ht
  | .null | .bool _ | .integer _ | .real _ | .text _ | .record _ =>
    cases h
    rfl

theorem length_leavesOf {items : List (Value α)} {s : List Nat} (h : rowShape? items = some s) :
    (leavesOf items).length = items.length * s.prod := by
  match items with
  | [] => simp [leavesOf]
  | [item] => simpa [leavesOf] using length_leaves h
  | item :: other :: rest =>
    simp only [rowShape?] at h
    split at h
    · rename_i first second hfirst hsecond
      split at h
      · rename_i agree
        obtain rfl := Option.some.inj h
        have head := length_leaves hfirst
        have tail := length_leavesOf (agree ▸ hsecond)
        simp only [leavesOf, List.length_append, List.length_cons] at head tail ⊢
        rw [head, tail]
        ring
      · cases h
    · cases h

end

theorem toTensor?_eq_ok {convert : Value α → Except (Fault α) β} {v : Value α} {T : Tensor β}
    (h : v.toTensor? convert = .ok T) :
    v.shape? = some T.shape ∧
      List.Forall₂ (fun item x => convert item = .ok x) v.leaves T.data.toList := by
  unfold toTensor? at h
  split at h
  · cases h
  · rename_i shape hshape
    by_cases many : axisLimit < shape.length
    · simp only [many, if_true] at h
      cases h
    · simp only [many, if_false] at h
      obtain ⟨data, read, h⟩ := exists_of_bind_eq_ok h
      cases h
      exact ⟨hshape, forall₂_of_mapM_eq_ok read⟩

/-- Nested lists that are read as an array have as many items as their shape says. -/
theorem wellFormed_toTensor? {convert : Value α → Except (Fault α) β} {v : Value α} {T : Tensor β}
    (h : v.toTensor? convert = .ok T) : T.WellFormed := by
  obtain ⟨shape, items⟩ := toTensor?_eq_ok h
  calc T.data.size = v.leaves.length := items.length_eq.symm
    _ = T.shape.prod := length_leaves shape

end Value

/-! ## Matrices and vectors of a workspace -/

/-- Whether numbers of whatever type have a property. -/
def Numbers.Holds {F : Type → Type} (p : ∀ {β : Type}, F β → Prop) : Numbers α F → Prop
  | real _ x => p x
  | integer x => p x
  | boolean x => p x

/-- Whether what a caller hands over is in order as an object of its kind. -/
def Operand.WellFormed : Operand α → Prop
  | stored M => M.Holds Storage.WellFormed
  | triplets _ T => T.Holds Triplets.WellFormed
  | array T => T.Holds Tensor.WellFormed
  | value _ => True

variable {input : Input} {journal after : Journal α}

theorem Tensor.layout_toStorage? {T : Tensor β} {S : Storage β} (two : T.toStorage? = some S) :
    S.layout = .dense := by
  unfold toStorage? at two
  split at two
  · cases two
    rfl
  · cases two

namespace Storage

theorem isCanonical_of_dense {S : Storage β} (h : S.layout = .dense) : S.IsCanonical := by
  rcases S with _ | ⟨_ | _, _, _⟩
  · trivial
  · cases h
  · cases h

theorem canonical_of_dense {S : Storage β} (h : S.layout = .dense) (add : β → β → β) :
    S.canonical add = S := by
  rcases S with _ | ⟨_ | _, _, _⟩
  · simp [canonical, arranged, mapSlices]
  · cases h
  · cases h

@[simp] theorem layout_mapSlices (f : Slice β → Slice β) (S : Storage β) :
    (S.mapSlices f).layout = S.layout := by
  rcases S with _ | ⟨_ | _, _, _⟩ <;> rfl

@[simp] theorem layout_canonical (add : β → β → β) (S : Storage β) :
    (S.canonical add).layout = S.layout := by
  simp only [canonical, arranged, layout_mapSlices]
  split <;> simp

end Storage

@[simp] theorem Triplets.layout_toStorage (T : Triplets β) (format : TripletFormat)
    (add : β → β → β) (zero : β) (isZero : β → Bool) :
    (T.toStorage format add zero isZero).layout = .compressedColumns := by
  cases format <;> rfl

variable [Scalar α]

namespace Numbers

/-- What numbers of any type stand for. -/
def reals : Numbers α Storage → Storage α
  | real _ S => S
  | integer S => S.map integerToReal
  | boolean S => S.map Scalar.ofBool

/-- Compressed entries keep their precision, and all others are doubles. -/
def keptPrecision : Numbers α Storage → Precision
  | real .single S => if S.layout = .dense then .double else .single
  | _ => .double

/-- The matrix that numbers are taken in as. -/
def taken (M : Numbers α Storage) : DataMatrix α := DataMatrix.canonical ⟨M.keptPrecision, M.reals⟩

theorem wellFormed_reals {M : Numbers α Storage} (h : M.Holds Storage.WellFormed) :
    M.reals.WellFormed := by
  cases M with
  | real p S => exact h
  | integer S => exact Storage.WellFormed.mapEntries h _
  | boolean S => exact Storage.WellFormed.mapEntries h _

@[simp] theorem layout_reals (M : Numbers α Storage) : M.reals.layout = M.layout := by
  cases M <;> simp [reals, Storage.map, layout]

/-- Numbers are always taken in. -/
theorem exists_run_intake (M : Numbers α Storage) (input : Input) (journal : Journal α) :
    ∃ after, (M.intake input).run journal = .ok M.taken after := by
  have copied {β : Type} (typeName : String) (S : Storage β) (toReal : β → α) :
      ∃ after, (intake.copied input typeName S toReal).run journal =
        .ok (DataMatrix.canonical ⟨.double, S.map toReal⟩) after := by
    unfold intake.copied
    split <;> exact ⟨_, rfl⟩
  cases M with
  | real p S =>
    by_cases dense : S.layout = .dense
    · have same : DataMatrix.canonical ⟨.double, S⟩ = ⟨.double, S⟩ := by
        rw [DataMatrix.canonical, Storage.canonical_of_dense dense]
      cases p with
      | double => exact ⟨journal, by simp [intake, taken, keptPrecision, reals, dense]⟩
      | single =>
        refine ⟨journal.push (.copiedMatrix input), ?_⟩
        simp only [intake, taken, keptPrecision, reals, dense, same, if_true]
        rfl
    · exact ⟨journal, by cases p <;> simp [intake, taken, keptPrecision, reals, dense]⟩
  | integer S => exact copied "int64" S integerToReal
  | boolean S => exact copied "bool" S Scalar.ofBool

theorem wellFormed_taken {M : Numbers α Storage} (h : M.Holds Storage.WellFormed) :
    M.taken.storage.WellFormed :=
  (wellFormed_reals h).canonical _

theorem isCanonical_taken (M : Numbers α Storage) : M.taken.storage.IsCanonical :=
  Storage.isCanonical_canonical _ _

theorem layout_taken (M : Numbers α Storage) : M.taken.storage.layout = M.layout := by
  simp [taken, DataMatrix.canonical]

theorem shape_taken (M : Numbers α Storage) : M.taken.storage.shape = M.shape := by
  cases M <;> simp [taken, DataMatrix.canonical, Storage.canonical, reals, shape, Storage.shape,
    Storage.map]

theorem double_taken {M : Numbers α Storage} (dense : M.taken.storage.layout = .dense) :
    M.taken.precision = .double := by
  rw [layout_taken] at dense
  rcases M with ⟨_ | _, S⟩ | S | S
  · rfl
  · exact if_pos dense
  · rfl
  · rfl

theorem wellFormed_ofTriplets {T : Numbers α Triplets} (h : T.Holds Triplets.WellFormed)
    (format : TripletFormat) : (ofTriplets format T).Holds Storage.WellFormed := by
  cases T <;> exact Triplets.wellFormed_toStorage h format _ _ _

@[simp] theorem layout_ofTriplets (format : TripletFormat) (T : Numbers α Triplets) :
    (ofTriplets format T).layout = .compressedColumns := by
  cases T <;> simp [ofTriplets, layout]

theorem wellFormed_toReals {T : Numbers α Tensor} (h : T.Holds Tensor.WellFormed) :
    T.toReals.WellFormed := by
  cases T with
  | real p T => exact h
  | integer T => exact (Array.size_map ..).trans h
  | boolean T => exact (Array.size_map ..).trans h

end Numbers

namespace Operand

/-- Which matrix an operand is taken in as. -/
inductive Becomes : Operand α → DataMatrix α → Prop
  | stored (M : Numbers α Storage) : Becomes (stored M) M.taken
  | triplets (format : TripletFormat) (T : Numbers α Triplets) :
      Becomes (triplets format T) (Numbers.ofTriplets format T).taken
  | array {T : Numbers α Tensor} {S : Storage α} (two : T.toReals.toStorage? = some S) :
      Becomes (array T) ⟨.double, S⟩
  | value {v : Value α} {T : Tensor α} {S : Storage α} (read : v.toTensor? Value.toEntry? = .ok T)
      (two : T.toStorage? = some S) : Becomes (value v) ⟨.double, S⟩

omit [Scalar α] in
theorem ofArray_eq_ok {T : Tensor α} {N : DataMatrix α}
    (ran : (ofArray input T).run journal = .ok N after) :
    ∃ S, T.toStorage? = some S ∧ N = ⟨.double, S⟩ := by
  unfold ofArray at ran
  split at ran
  · rename_i S two
    cases ran
    exact ⟨S, two, rfl⟩
  · cases ran

/-- Whatever is taken in becomes one of these matrices. -/
theorem becomes_of_run {M : Operand α} {N : DataMatrix α}
    (ran : (M.intakeMatrix input).run journal = .ok N after) : M.Becomes N := by
  have numbers {K : Numbers α Storage} {journal : Journal α}
      (ran : (K.intake input).run journal = .ok N after) : N = K.taken := by
    obtain ⟨_, intake⟩ := K.exists_run_intake input journal
    rw [intake] at ran
    cases ran
    rfl
  unfold intakeMatrix at ran
  split at ran
  · rw [numbers ran]
    exact .stored _
  · obtain ⟨_, _, -, ran⟩ := exists_of_run_bind_eq_ok ran
    rw [numbers ran]
    exact .triplets _ _
  · obtain ⟨S, two, rfl⟩ := ofArray_eq_ok ran
    exact .array (T := .real .double _) two
  · obtain ⟨_, _, -, ran⟩ := exists_of_run_bind_eq_ok ran
    obtain ⟨S, two, rfl⟩ := ofArray_eq_ok ran
    exact .array two
  · obtain ⟨_, _, -, ran⟩ := exists_of_run_bind_eq_ok ran
    obtain ⟨T, _, read, ran⟩ := exists_of_run_bind_eq_ok ran
    obtain ⟨S, two, rfl⟩ := ofArray_eq_ok ran
    exact .value (ofExcept_eq_ok read).1 two

namespace Becomes

variable {M : Operand α} {N : DataMatrix α} (becomes : M.Becomes N)

include becomes

/-- Indices are in range, whatever the matrix was made from. -/
theorem wellFormed (h : M.WellFormed) : N.storage.WellFormed := by
  cases becomes with
  | stored M => exact Numbers.wellFormed_taken h
  | triplets format T => exact Numbers.wellFormed_taken (Numbers.wellFormed_ofTriplets h format)
  | array two => exact Tensor.wellFormed_toStorage? (Numbers.wellFormed_toReals h) two
  | value read two => exact Tensor.wellFormed_toStorage? (Value.wellFormed_toTensor? read) two

/-- No position is stored twice. -/
theorem isCanonical : N.storage.IsCanonical := by
  cases becomes with
  | stored M => exact Numbers.isCanonical_taken M
  | triplets format T => exact Numbers.isCanonical_taken _
  | array two => exact Storage.isCanonical_of_dense (Tensor.layout_toStorage? two)
  | value read two => exact Storage.isCanonical_of_dense (Tensor.layout_toStorage? two)

/-- Dense rows are doubles. -/
theorem double (dense : N.storage.layout = .dense) : N.precision = .double := by
  cases becomes with
  | stored M => exact Numbers.double_taken dense
  | triplets format T => exact Numbers.double_taken dense
  | array two => rfl
  | value read two => rfl

end Becomes

end Operand

/-- A vector is only taken in with the length that is asked for. -/
theorem Operand.size_intakeVector {v : Operand α} {n : Nat} {entries : Array α}
    (ran : (v.intakeVector input n).run journal = .ok entries after) : entries.size = n := by
  unfold intakeVector at ran
  obtain ⟨_, ran⟩ := exists_of_run_ite_bind_eq_ok ran
  obtain ⟨found, _, -, ran⟩ := exists_of_run_bind_eq_ok ran
  split at ran
  · cases ran
    assumption
  · cases ran

end ConicScaling
