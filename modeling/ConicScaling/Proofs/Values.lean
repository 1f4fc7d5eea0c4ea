import ConicScaling.Proofs.Exact
import ConicScaling.Proofs.Products

/-!
# Values of stored matrices

What a stored matrix denotes in exact arithmetic, whatever its layout. The operations that
equilibration performs multiply every stored entry by a weight that depends on its row and column
only, so the denoted entries are multiplied by the same weights and the layout stays.
-/
namespace ConicScaling

namespace Storage

variable {β γ δ : Type}

theorem mapEntries_mapEntries (f : Nat → Nat → β → γ) (g : Nat → Nat → γ → δ) (S : Storage β) :
    (S.mapEntries f).mapEntries g = S.mapEntries fun i j v => g i j (f i j v) := by
  cases S <;> simp [mapEntries, Function.comp_def]

theorem mapIdx_self (v : Array β) : v.mapIdx (fun _ x => x) = v := by
  apply Array.ext <;> simp

@[simp] theorem mapEntries_self (S : Storage β) : (S.mapEntries fun _ _ v => v) = S := by
  cases S <;> simp [mapEntries, mapIdx_self]

theorem zipIdx_mapIdx (l : List β) (g : Nat → β → γ) :
    (l.mapIdx g).zipIdx = l.zipIdx.map fun x => (g x.2 x.1, x.2) := by
  apply List.ext_getElem <;> simp

theorem entries_mapEntries (f : Nat → Nat → β → γ) (S : Storage β) :
    (S.mapEntries f).entries = S.entries.map fun e => ⟨e.row, e.col, f e.row e.col e.value⟩ := by
  cases S with
  | dense cols rows =>
    simp [mapEntries, entries, zipIdx_mapIdx, List.map_flatMap, List.flatMap_map,
      Function.comp_def]
  | sparse major minor slices =>
    simp [mapEntries, entries, zipIdx_mapIdx, List.map_flatMap, List.flatMap_map,
      Function.comp_def]

/-- The entry at row `i` and column `j`, where duplicates add up. -/
noncomputable def value (S : Storage ℝ) (i j : Nat) : ℝ := S.entry (· + ·) 0 i j

section SliceEntry

variable {add : β → β → β} {zero : β}

@[simp] theorem sliceEntry_nil (l : Nat) : sliceEntry add zero [] l = zero := rfl

theorem sliceEntry_of_not_mem {slice : Slice β} {l : Nat} (h : ∀ e ∈ slice, e.1 ≠ l) :
    sliceEntry add zero slice l = zero := by
  unfold sliceEntry
  induction slice with
  | nil => rfl
  | cons e rest ih => simp_all

variable [Std.Associative add] [Std.LawfulIdentity add zero]

theorem foldl_sliceEntry (slice : Slice β) (l : Nat) (z : β) :
    slice.foldl (fun sum (m, v) => if m = l then add sum v else sum) z =
      add z (sliceEntry add zero slice l) := by
  have left (v : β) : add zero v = v := Std.LawfulLeftIdentity.left_id v
  have right (v : β) : add v zero = v := Std.LawfulRightIdentity.right_id v
  unfold sliceEntry
  induction slice generalizing z with
  | nil => exact (right z).symm
  | cons e rest ih =>
    simp only [List.foldl_cons]
    rw [ih, ih (if e.1 = l then add zero e.2 else zero)]
    by_cases here : e.1 = l
    · simp only [here, if_true, left]
      exact Std.Associative.assoc ..
    · simp only [here, if_false, left]

@[simp] theorem sliceEntry_cons (e : Nat × β) (rest : Slice β) (l : Nat) :
    sliceEntry add zero (e :: rest) l =
      add (if e.1 = l then e.2 else zero) (sliceEntry add zero rest l) := by
  have left (v : β) : add zero v = v := Std.LawfulLeftIdentity.left_id v
  calc sliceEntry add zero (e :: rest) l
      = rest.foldl (fun sum (m, v) => if m = l then add sum v else sum)
          (if e.1 = l then add zero e.2 else zero) := rfl
    _ = add (if e.1 = l then add zero e.2 else zero) (sliceEntry add zero rest l) :=
        foldl_sliceEntry rest l _
    _ = _ := by rw [left]

end SliceEntry

theorem sliceEntry_map (f : Nat → ℝ) (slice : Slice ℝ) (l : Nat) :
    sliceEntry (· + ·) 0 (slice.map fun (m, v) => (m, v * f m)) l =
      sliceEntry (· + ·) 0 slice l * f l := by
  induction slice with
  | nil => simp
  | cons e rest ih =>
    simp only [List.map_cons, sliceEntry_cons, ih, add_mul]
    by_cases h : e.1 = l <;> simp [h]

/-- Every stored entry multiplied by a weight. -/
noncomputable def weighted (f : Nat → Nat → ℝ) (S : Storage ℝ) : Storage ℝ :=
  S.mapEntries fun i j v => v * f i j

theorem weighted_weighted (f g : Nat → Nat → ℝ) (S : Storage ℝ) :
    (S.weighted f).weighted g = S.weighted fun i j => f i j * g i j := by
  simp [weighted, mapEntries_mapEntries, mul_assoc]

theorem weighted_one {f : Nat → Nat → ℝ} (h : ∀ i j, f i j = 1) (S : Storage ℝ) :
    S.weighted f = S := by
  simp [weighted, h]

@[simp] theorem count_weighted (f : Nat → Nat → ℝ) (S : Storage ℝ) (axis : Axis) :
    (S.weighted f).count axis = S.count axis :=
  count_mapEntries _ _ _

theorem value_weighted (f : Nat → Nat → ℝ) (S : Storage ℝ) (i j : Nat) :
    (S.weighted f).value i j = S.value i j * f i j := by
  cases S with
  | dense cols rows =>
    simp only [value, entry, weighted, mapEntries]
    by_cases hi : i < rows.size <;> by_cases hj : j < (rows.getD i #[]).size <;> simp_all
  | sparse major minor slices =>
    cases major with
    | row =>
      simp only [value, entry, weighted, mapEntries, Axis.position]
      by_cases hi : i < slices.size
      · simpa [hi] using sliceEntry_map (f i) slices[i] j
      · simp [hi]
    | column =>
      simp only [value, entry, weighted, mapEntries, Axis.position]
      by_cases hj : j < slices.size
      · simpa [hj] using sliceEntry_map (f · j) slices[j] i
      · simp [hj]

/-- What is not stored is zero. -/
theorem entry_of_not_stored {add : β → β → β} {zero : β} {S : Storage β} {i j : Nat}
    (h : ∀ e ∈ S.entries, e.row = i → e.col ≠ j) : S.entry add zero i j = zero := by
  cases S with
  | dense cols rows =>
    by_cases hi : i < rows.size
    · by_cases hj : j < rows[i].size
      · refine absurd rfl (h ⟨i, j, rows[i][j]⟩ ?_ rfl)
        simp only [entries, List.mem_flatMap, List.mem_map, Prod.exists]
        refine ⟨rows[i], i, ?_, rows[i][j], j, ?_, rfl⟩ <;>
          simp [List.mem_zipIdx_iff_getElem?, hi, hj]
      · simp [entry, hi, hj]
    · simp [entry, hi]
  | sparse major minor slices =>
    have stored (k : Nat) (e : Nat × β) (he : e ∈ slices.getD k []) :
        ⟨(major.position k e.1).1, (major.position k e.1).2, e.2⟩ ∈
          (sparse major minor slices).entries := by
      have hk : k < slices.size := by
        by_contra hk
        simp [hk] at he
      simp only [entries, List.mem_flatMap, List.mem_map, Prod.exists]
      refine ⟨slices[k], k, ?_, e.1, e.2, by simpa [hk] using he, rfl⟩
      simp [List.mem_zipIdx_iff_getElem?, hk]
    cases major with
    | row => exact sliceEntry_of_not_mem fun e he => h _ (stored i e he) rfl
    | column => exact sliceEntry_of_not_mem fun e he hl => h _ (stored j e he) hl rfl

theorem value_of_not_stored {S : Storage ℝ} {i j : Nat}
    (h : ∀ e ∈ S.entries, e.row = i → e.col ≠ j) : S.value i j = 0 :=
  entry_of_not_stored h

end Storage

namespace Diagonal

/-- What a diagonal multiplies line `i` by, one beyond its entries. -/
def weight {α : Type} [Scalar α] (d : Diagonal α) (i : Nat) : α :=
  match d with
  | identity => 1
  | entries d => d.getD i 1

end Diagonal

end ConicScaling
