import ConicScaling.Introsort
import ConicScaling.Storage

/-!
# Canonical slices

A slice is canonical when its indices increase strictly. Sorting a slice adds the values of equal
indices in the order in which the sort leaves them; a sum that cancels stays stored.
-/
namespace ConicScaling

variable {β : Type}

/-- Adds a value to a canonical slice. -/
def Slice.insert (add : β → β → β) (k : Nat) (v : β) : Slice β → Slice β
  | [] => [(k, v)]
  | (l, w) :: rest =>
    if k < l then (k, v) :: (l, w) :: rest
    else if k = l then (l, add w v) :: rest
    else (l, w) :: Slice.insert add k v rest

def Slice.canonical (add : β → β → β) (slice : Slice β) : Slice β :=
  slice.foldl (fun sorted (k, v) => Slice.insert add k v sorted) []

theorem Slice.mem_insert {add : β → β → β} {k : Nat} {v : β} {slice : Slice β} {e : Nat × β}
    (h : e ∈ Slice.insert add k v slice) : e.1 = k ∨ ∃ d ∈ slice, d.1 = e.1 := by
  induction slice with
  | nil => simp_all [Slice.insert]
  | cons d rest ih =>
    obtain ⟨l, w⟩ := d
    unfold Slice.insert at h
    split at h
    · grind
    · split at h <;> grind

/-- Indices increase strictly. -/
def Slice.Canonical (slice : Slice β) : Prop := slice.Pairwise fun d e => d.1 < e.1

theorem Slice.canonical_insert {slice : Slice β} (h : Slice.Canonical slice) (add : β → β → β)
    (k : Nat) (v : β) : Slice.Canonical (Slice.insert add k v slice) := by
  induction slice with
  | nil => simp [Slice.insert, Slice.Canonical]
  | cons d rest ih =>
    obtain ⟨l, w⟩ := d
    obtain ⟨head, tail⟩ := List.pairwise_cons.1 h
    unfold Slice.insert
    split
    · exact List.pairwise_cons.2 ⟨by grind, h⟩
    · split
      · exact List.pairwise_cons.2 ⟨head, tail⟩
      · refine List.pairwise_cons.2 ⟨fun e he => ?_, ih tail⟩
        rcases Slice.mem_insert he with hk | ⟨d, hd, hde⟩
        · simp only at *
          omega
        · exact hde ▸ head d hd

theorem Slice.canonical_foldl (add : β → β → β) (slice : Slice β) {sorted : Slice β}
    (h : Slice.Canonical sorted) :
    Slice.Canonical (slice.foldl (fun sorted (k, v) => Slice.insert add k v sorted) sorted) := by
  induction slice generalizing sorted with
  | nil => exact h
  | cons d rest ih => exact ih (Slice.canonical_insert h add d.1 d.2)

/-- Sorting makes a slice canonical. -/
theorem Slice.canonical_canonical (add : β → β → β) (slice : Slice β) :
    Slice.Canonical (Slice.canonical add slice) :=
  Slice.canonical_foldl add slice List.Pairwise.nil

instance (slice : Slice β) : Decidable (Slice.Canonical slice) := by
  unfold Slice.Canonical
  infer_instance

/-- Indices never decrease. -/
def Slice.Ordered (slice : Slice β) : Prop := slice.Pairwise fun d e => d.1 ≤ e.1

instance (slice : Slice β) : Decidable (Slice.Ordered slice) := by
  unfold Slice.Ordered
  infer_instance

/-- The entries in the order in which duplicates are added. -/
def Slice.arranged (slice : Slice β) : Slice β :=
  (Introsort.arrange Prod.fst slice.toArray).toList

theorem Slice.arranged_perm (slice : Slice β) : (Slice.arranged slice).Perm slice :=
  Array.perm_iff_toList_perm.1 (Introsort.arrange_perm Prod.fst slice.toArray)

namespace Storage

/-- Replaces each slice; dense rows are as they are. -/
def mapSlices (f : Slice β → Slice β) : Storage β → Storage β
  | dense cols rows => dense cols rows
  | sparse major minor slices => sparse major minor (slices.map f)

/-- Whether every slice has a property; dense rows count as having it. -/
def EverySlice (p : Slice β → Prop) : Storage β → Prop
  | dense .. => True
  | sparse _ _ slices => ∀ slice ∈ slices, p slice

instance (p : Slice β → Prop) [DecidablePred p] : ∀ S : Storage β, Decidable (S.EverySlice p)
  | dense .. => .isTrue trivial
  | sparse _ _ slices =>
    decidable_of_iff (slices.all fun slice => decide (p slice))
      (by simp [EverySlice, -Array.all_eq_true, Array.all_eq_true_iff_forall_mem])

theorem everySlice_mapSlices {p : Slice β → Prop} {f : Slice β → Slice β} (h : ∀ s, p (f s))
    (S : Storage β) : (S.mapSlices f).EverySlice p := by
  cases S with
  | dense => trivial
  | sparse major minor slices =>
    intro slice member
    obtain ⟨s, _, rfl⟩ := Array.mem_map.1 member
    exact h s

/-- Whether all slices are canonical. -/
abbrev IsCanonical (S : Storage β) : Prop := S.EverySlice Slice.Canonical

/-- Rearranges the slices for sorting, unless all of them are in order. -/
def arranged (S : Storage β) : Storage β :=
  if S.EverySlice Slice.Ordered then S else S.mapSlices Slice.arranged

/-- Makes every slice canonical. -/
def canonical (add : β → β → β) (S : Storage β) : Storage β :=
  S.arranged.mapSlices (Slice.canonical add)

theorem isCanonical_canonical (add : β → β → β) (S : Storage β) : (S.canonical add).IsCanonical :=
  everySlice_mapSlices (Slice.canonical_canonical add) _

/-- Drops the stored entries that fail a test. -/
def filterEntries (keep : β → Bool) : Storage β → Storage β :=
  mapSlices (List.filter fun e => keep e.2)

end Storage

end ConicScaling
