import ConicScaling.Proofs.Independence

/-!
# Collected triplets

Triplets are dealt out to columns, grouped by row, and each group is added up. In exact arithmetic
every position then holds the sum of the values that were given for it: sorting only rearranges
the entries of a position, and what the diagonal format drops is zero.
-/
namespace ConicScaling

variable {β γ : Type}

/-! ## Slices -/

/-- The values of a slice at one index, in stored order. -/
def Slice.valuesAt (slice : Slice β) (l : Nat) : List β := (slice.filter (·.1 == l)).map Prod.snd

namespace Slice

theorem Canonical.map {slice : Slice β} (h : Canonical slice) (f : β → γ) :
    Canonical (slice.map fun (k, v) => (k, f v)) :=
  List.pairwise_map.2 h

section Lawful

variable {add : β → β → β} {zero : β} [Std.LawfulIdentity add zero]
  {add' : γ → γ → γ} {zero' : γ} [Std.LawfulIdentity add' zero']

/-- In a canonical slice nothing is added, so values may be replaced first. -/
theorem sliceEntry_map_of_canonical {slice : Slice β} (h : Canonical slice) {f : β → γ}
    (zeros : f zero = zero') (l : Nat) :
    Storage.sliceEntry add' zero' (slice.map fun (k, v) => (k, f v)) l =
      f (Storage.sliceEntry add zero slice l) := by
  by_cases stored : ∃ e ∈ slice, e.1 = l
  · obtain ⟨e, he, rfl⟩ := stored
    rw [Storage.sliceEntry_of_mem h he]
    exact Storage.sliceEntry_of_mem (h.map f) (List.mem_map.2 ⟨e, he, rfl⟩)
  · push Not at stored
    rw [Storage.sliceEntry_of_not_mem stored, zeros]
    exact Storage.sliceEntry_of_not_mem (List.forall_mem_map.2 stored)

end Lawful

theorem sliceEntry_singletons (slice : Slice β) (l : Nat) :
    Storage.sliceEntry (· ++ ·) [] (slice.map fun (k, v) => (k, [v])) l = slice.valuesAt l := by
  induction slice with
  | nil => rfl
  | cons e rest ih =>
    rw [List.map_cons, Storage.sliceEntry_cons, ih]
    by_cases here : e.1 = l <;> simp [valuesAt, here]

/-- Grouping collects the values of each index. -/
theorem sliceEntry_grouped (slice : Slice β) (l : Nat) :
    Storage.sliceEntry (· ++ ·) [] (Slice.grouped slice) l = slice.valuesAt l :=
  (Storage.sliceEntry_canonical _ l).trans (sliceEntry_singletons slice l)

theorem sliceEntry_totalled (slice : Slice β) {total : List β → β} {f : β → ℝ}
    (zeros : f (total []) = 0) (l : Nat) :
    Storage.sliceEntry (· + ·) 0 ((Slice.totalled total slice).map fun (k, v) => (k, f v)) l =
      f (total (slice.valuesAt l)) := by
  have canonical : Canonical (Slice.grouped slice) := canonical_canonical _ _
  rw [Slice.totalled, List.map_map, ← sliceEntry_grouped slice l]
  exact sliceEntry_map_of_canonical (f := f ∘ total) canonical zeros l

theorem sliceEntry_filter (slice : Slice β) {keep : β → Bool} {f : β → ℝ}
    (dropped : ∀ v, keep v = false → f v = 0) (l : Nat) :
    Storage.sliceEntry (· + ·) 0 ((slice.filter fun e => keep e.2).map fun (k, v) => (k, f v)) l =
      Storage.sliceEntry (· + ·) 0 (slice.map fun (k, v) => (k, f v)) l := by
  induction slice with
  | nil => rfl
  | cons e rest ih =>
    cases kept : keep e.2 with
    | true =>
      simp only [List.filter_cons, kept, if_true, List.map_cons, Storage.sliceEntry_cons, ih]
    | false =>
      rw [List.filter_cons_of_neg (by simp [kept]), ih, List.map_cons, Storage.sliceEntry_cons]
      simp [dropped e.2 kept]

end Slice

/-! ## Triplets -/

namespace Storage

theorem value_map_sparse (f : β → ℝ) (major : Axis) (minor : Nat) (slices : Array (Slice β))
    (k l : Nat) :
    ((sparse major minor slices).map f).value (major.position k l).1 (major.position k l).2 =
      sliceEntry (· + ·) 0 ((slices.getD k []).map fun (m, v) => (m, f v)) l := by
  by_cases inside : k < slices.size
  · cases major <;> simp [Storage.map, mapEntries, value, entry, Axis.position, inside]
  · cases major <;> simp [Storage.map, mapEntries, value, entry, Axis.position, inside]

/-- Entries that stand for zero may be dropped. -/
theorem value_map_filterEntries {keep : β → Bool} {f : β → ℝ}
    (dropped : ∀ v, keep v = false → f v = 0) (S : Storage β) (i j : Nat) :
    ((S.filterEntries keep).map f).value i j = (S.map f).value i j := by
  cases S with
  | dense cols rows => rfl
  | sparse major minor slices =>
    have line (k l : Nat) : (((sparse major minor slices).filterEntries keep).map f).value
        (major.position k l).1 (major.position k l).2 =
          ((sparse major minor slices).map f).value (major.position k l).1
            (major.position k l).2 := by
      rw [filterEntries, mapSlices, value_map_sparse, value_map_sparse]
      by_cases inside : k < slices.size
      · simpa [inside] using Slice.sliceEntry_filter slices[k] dropped l
      · simp [inside]
    cases major
    · exact line i j
    · exact line j i

theorem perm_entries_mapSlices {f : Slice β → Slice β} (perm : ∀ slice, (f slice).Perm slice)
    (S : Storage β) : (S.mapSlices f).entries.Perm S.entries := by
  cases S with
  | dense cols rows => exact .refl _
  | sparse major minor slices =>
    simp only [mapSlices, entries, Array.toList_map, List.zipIdx_map, List.flatMap_map]
    exact List.Perm.flatMap_left _ fun _ _ => (perm _).map _

theorem perm_entries_arranged (S : Storage β) : S.arranged.entries.Perm S.entries := by
  unfold arranged
  split
  · exact .refl _
  · exact perm_entries_mapSlices Slice.arranged_perm S

end Storage

namespace Triplets

/-- The values of the triplets at one position, in the order given. -/
def valuesAt (T : Triplets β) (i j : Nat) : List β :=
  (T.entries.filter fun e => e.row == i && e.col == j).map Entry.value

/-- Entries that are dealt out by a key below `n` are all there. -/
theorem perm_flatMap_filter (key : Entry β → Nat) {n : Nat} {es : List (Entry β)}
    (below : ∀ e ∈ es, key e < n) :
    ((List.range n).flatMap fun k => es.filter (key · == k)).Perm es := by
  induction n generalizing es with
  | zero =>
    obtain rfl : es = [] :=
      List.eq_nil_iff_forall_not_mem.2 fun e he => Nat.not_lt_zero _ (below e he)
    exact .refl _
  | succ n ih =>
    have earlier : ((List.range n).flatMap fun k => es.filter (key · == k)) =
        (List.range n).flatMap fun k => (es.filter (key · < n)).filter (key · == k) := by
      refine List.flatMap_congr fun k hk => ?_
      rw [List.filter_filter]
      refine List.filter_congr fun e _ => ?_
      have := List.mem_range.1 hk
      grind
    have last : es.filter (key · == n) = es.filter fun e => !decide (key e < n) := by
      refine List.filter_congr fun e he => ?_
      have := below e he
      grind
    rw [List.range_succ, List.flatMap_append, earlier, List.flatMap_singleton, last]
    exact ((ih (by simp)).append_right _).trans (List.filter_append_perm _ es)

theorem perm_entries_compress {T : Triplets β} (h : T.WellFormed) (major : Axis) :
    (T.compress major).entries.Perm T.entries := by
  have below : ∀ e ∈ T.entries, e.along major < major.select T.rows T.cols := by
    intro e he
    cases major
    · exact (h e he).1
    · exact (h e he).2
  refine .trans (.of_eq ?_) (perm_flatMap_filter (·.along major) below)
  have numbered (n : Nat) (slice : Nat → Slice β) :
      ((List.range n).map slice).zipIdx = (List.range n).map fun k => (slice k, k) := by
    apply List.ext_getElem <;> simp
  simp only [compress, Storage.entries, Array.toList_map, Array.toList_range, numbered,
    List.flatMap_map, List.map_map]
  refine List.flatMap_congr fun k _ => ?_
  -- an entry of slice `k` is put together again
  refine (List.map_congr_left fun e he => ?_).trans (List.map_id _)
  obtain rfl : e.along major = k := by simpa using (List.mem_filter.1 he).2
  cases major <;> rfl

/-- Sorting along an axis only rearranges. -/
theorem perm_entries_arranged {T : Triplets β} (h : T.WellFormed) (major : Axis) :
    (T.arranged major).entries.Perm T.entries :=
  (T.compress major).perm_entries_arranged.trans (perm_entries_compress h major)

theorem perm_valuesAt {T T' : Triplets β} (perm : T.entries.Perm T'.entries) (i j : Nat) :
    (T.valuesAt i j).Perm (T'.valuesAt i j) :=
  (perm.filter _).map _

/-- Nothing is given beyond the last column. -/
theorem valuesAt_of_le {T : Triplets β} (h : T.WellFormed) (i : Nat) {j : Nat}
    (beyond : T.cols ≤ j) : T.valuesAt i j = [] := by
  have absent : ∀ e ∈ T.entries, ¬ (e.row == i && e.col == j) = true := by
    intro e he
    have inside := (h e he).2
    grind
  rw [valuesAt, List.filter_eq_nil_iff.2 absent, List.map_nil]

/-- One column, in the order given. -/
def column (T : Triplets β) (j : Nat) : Slice β :=
  (T.entries.filter (·.col == j)).map fun e => (e.row, e.value)

theorem valuesAt_column (T : Triplets β) (i j : Nat) :
    (T.column j).valuesAt i = T.valuesAt i j := by
  simp [Slice.valuesAt, valuesAt, column, List.filter_map, List.filter_filter, Function.comp_def]

theorem collect_eq (total : List β → β) (T : Triplets β) :
    T.collect total = .sparse .column T.rows
      ((Array.range T.cols).map fun j => Slice.totalled total (T.column j)) :=
  congrArg (Storage.sparse .column T.rows) Array.map_map

/-- Each position of the collected columns stands for what its values total. -/
theorem value_collect {T : Triplets β} (h : T.WellFormed) {total : List β → β} {f : β → ℝ}
    (zeros : f (total []) = 0) (i j : Nat) :
    ((T.collect total).map f).value i j = f (total (T.valuesAt i j)) := by
  rw [collect_eq]
  refine (Storage.value_map_sparse f .column T.rows _ j i).trans ?_
  by_cases inside : j < T.cols
  · rw [← valuesAt_column, ← Slice.sliceEntry_totalled (T.column j) zeros]
    simp [inside]
  · rw [valuesAt_of_le h i (Nat.not_lt.1 inside), zeros]
    simp [inside]

section Lawful

variable {T : Triplets β} (h : T.WellFormed) {add : β → β → β} {zero : β} [Std.Associative add]
  [Std.Commutative add] [Std.LawfulIdentity add zero] {isZero : β → Bool} {f : β → ℝ}
  (zeros : f zero = 0) (dropped : ∀ v, isZero v = true → f v = 0)

include h zeros dropped

/-- Whatever the format is, each position stands for the sum of its values. -/
theorem value_toStorage (format : TripletFormat) (i j : Nat) :
    ((T.toStorage format add zero isZero).map f).value i j =
      f ((T.valuesAt i j).foldl add zero) := by
  have rearranged (major : Axis) :
      (((T.arranged major).collect (sumForward add zero)).map f).value i j =
        f ((T.valuesAt i j).foldl add zero) := by
    rw [value_collect (wellFormed_arranged h major) zeros, sumForward_eq_foldl]
    exact congrArg f ((perm_valuesAt (perm_entries_arranged h major) i j).foldl_eq zero)
  have collected : ((T.collect (sumRestFirst add zero)).map f).value i j =
      f ((T.valuesAt i j).foldl add zero) := by
    rw [value_collect h zeros, sumRestFirst_eq_foldl]
  cases format with
  | coordinates => exact rearranged .column
  | rowLists => exact rearranged .row
  | keyed => exact collected
  | diagonals =>
    have lost : ∀ v, (!isZero v) = false → f v = 0 := by simpa using dropped
    exact (Storage.value_map_filterEntries lost _ i j).trans collected

end Lawful

end Triplets

/-! ## Exact sums -/

/-- Integers wrap around once, at the end. -/
theorem toInt_foldl_add (vs : List Int64) :
    (vs.foldl (· + ·) 0).toInt = (vs.map Int64.toInt).sum.bmod (2 ^ 64) := by
  induction vs with
  | nil => rfl
  | cons v vs ih =>
    rw [foldl_cons_add (· + · : Int64 → Int64 → Int64) 0, Int64.toInt_add, ih, Int.add_bmod_bmod,
      List.map_cons, List.sum_cons]

theorem foldl_or (vs : List Bool) : vs.foldl (· || ·) false = decide (0 < vs.count true) := by
  induction vs with
  | nil => rfl
  | cons v vs ih =>
    rw [foldl_cons_add (· || · : Bool → Bool → Bool) false, ih]
    cases v <;> simp

theorem sum_ofBool (vs : List Bool) : (vs.map Scalar.ofBool).sum = (vs.count true : ℝ) := by
  induction vs with
  | nil => simp
  | cons v vs ih => cases v <;> simp [Scalar.ofBool, ih, add_comm]

namespace Numbers

/-- What the triplets at one position add up to. -/
noncomputable def total (T : Numbers ℝ Triplets) (i j : Nat) : ℝ :=
  match T with
  | real _ T => (T.valuesAt i j).sum
  | integer T => ((T.valuesAt i j).map integerToReal).sum
  | boolean T => ((T.valuesAt i j).map Scalar.ofBool).sum

/-- Whether what triplets add up to can be told by a number of their type. -/
def Exact : Numbers ℝ Triplets → Prop
  | real .. => True
  | integer T => ∀ i j, ((T.valuesAt i j).map Int64.toInt).sum ∈ Set.Ico (-2 ^ 63) (2 ^ 63)
  | boolean T => ∀ i j, (T.valuesAt i j).count true ≤ 1

theorem integerToReal_foldl_add {vs : List Int64}
    (fits : (vs.map Int64.toInt).sum ∈ Set.Ico (-2 ^ 63) (2 ^ 63)) :
    (integerToReal (vs.foldl (· + ·) 0) : ℝ) = (vs.map integerToReal).sum := by
  have unwrapped : (vs.map Int64.toInt).sum.bmod (2 ^ 64) = (vs.map Int64.toInt).sum :=
    Int.bmod_eq_of_le (by simpa using fits.1) (by simpa using fits.2)
  rw [integerToReal, toInt_foldl_add, unwrapped, Int.cast_list_sum, List.map_map]
  rfl

theorem ofBool_foldl_or {vs : List Bool} (single : vs.count true ≤ 1) :
    (Scalar.ofBool (vs.foldl (· || ·) false) : ℝ) = (vs.map Scalar.ofBool).sum := by
  rw [foldl_or, sum_ofBool]
  interval_cases vs.count true <;> simp [Scalar.ofBool]

/-- Sums that are exact are what the triplets of a position add up to. -/
theorem value_ofTriplets {T : Numbers ℝ Triplets} (h : T.Holds Triplets.WellFormed)
    (exact : T.Exact) (format : TripletFormat) (i j : Nat) :
    (ofTriplets format T).reals.value i j = T.total i j := by
  cases T with
  | real p T =>
    have summed : ((T.toStorage format (· + ·) 0 fun v => Scalar.same v 0).map
        fun v => v).value i j = (T.valuesAt i j).foldl (· + ·) 0 :=
      Triplets.value_toStorage h rfl (by simp) format i j
    have unchanged (S : Storage ℝ) : S.map (fun v => v) = S := Storage.mapEntries_self S
    rw [unchanged] at summed
    rw [ofTriplets, reals, Precision.add_eq_add, summed, total, List.sum_eq_foldl]
  | integer T =>
    have summed : ((T.toStorage format (· + ·) 0 (· == 0)).map integerToReal).value i j =
        integerToReal ((T.valuesAt i j).foldl (· + ·) 0) :=
      Triplets.value_toStorage h (by simp [integerToReal]) (by simp [integerToReal]) format i j
    exact summed.trans (integerToReal_foldl_add (exact i j))
  | boolean T =>
    have summed : ((T.toStorage format (· || ·) false (!·)).map Scalar.ofBool).value i j =
        Scalar.ofBool ((T.valuesAt i j).foldl (· || ·) false) :=
      Triplets.value_toStorage h (by simp [Scalar.ofBool]) (by simp [Scalar.ofBool]) format i j
    exact summed.trans (ofBool_foldl_or (exact i j))

end Numbers

end ConicScaling
