import ConicScaling.Proofs.Pattern

/-!
# Setting up again

What a workspace holds is taken in as it is: canonical slices are not rearranged, dense rows are
doubles already, and a product of sets is itself. So a workspace that is set up on the data, sets
and iterates of another one is a fresh one with the same data, sets and iterates.
-/
namespace ConicScaling

open Procedure

variable {α β : Type}

/-! ## Canonical matrices -/

namespace Slice

variable {add : β → β → β}

theorem insert_of_lt {slice : Slice β} {k : Nat} {v : β} (below : ∀ e ∈ slice, e.1 < k) :
    Slice.insert add k v slice = slice ++ [(k, v)] := by
  induction slice with
  | nil => rfl
  | cons e rest ih =>
    have first := below e List.mem_cons_self
    have tail := ih fun d hd => below d (List.mem_cons_of_mem _ hd)
    grind [Slice.insert]

theorem foldl_insert_of_canonical (slice : Slice β) {sorted : Slice β}
    (h : Slice.Canonical (sorted ++ slice)) :
    slice.foldl (fun sorted (k, v) => Slice.insert add k v sorted) sorted = sorted ++ slice := by
  induction slice generalizing sorted with
  | nil => simp
  | cons e rest ih =>
    obtain ⟨k, v⟩ := e
    have below : ∀ d ∈ sorted, d.1 < k := fun d hd =>
      (List.pairwise_append.1 h).2.2 d hd (k, v) List.mem_cons_self
    have next : Slice.Canonical ((sorted ++ [(k, v)]) ++ rest) := by simpa using h
    have inserted : Slice.insert add k v sorted = sorted ++ [(k, v)] := insert_of_lt below
    simp only [List.foldl_cons, inserted, ih next, List.append_assoc, List.singleton_append]

/-- Sorting a canonical slice changes nothing. -/
theorem canonical_eq_self {slice : Slice β} (h : Slice.Canonical slice) :
    Slice.canonical add slice = slice :=
  foldl_insert_of_canonical slice h

end Slice

theorem Storage.canonical_eq_self {S : Storage β} (h : S.IsCanonical) (add : β → β → β) :
    S.canonical add = S := by
  cases S with
  | dense cols rows => simp [canonical, arranged, mapSlices]
  | sparse major minor slices =>
    have ordered : (sparse major minor slices).EverySlice Slice.Ordered := fun slice member =>
      (h slice member).imp Nat.le_of_lt
    have kept : slices.map (Slice.canonical add) = slices := by
      apply Array.ext
      · simp
      · intro k _ inside
        simpa using Slice.canonical_eq_self (h slices[k] (Array.getElem_mem inside))
    rw [canonical, arranged, if_pos ordered, mapSlices, kept]

variable [Scalar α]

/-! ## Taking in what is kept -/

section Intake

variable {input : Input} {journal after : Journal α} {N : DataMatrix α}

/-- A matrix that is kept is taken in as it is, and nothing is recorded. -/
theorem DataMatrix.Kept.run_intakeMatrix {M : DataMatrix α} (h : M.Kept) (input : Input)
    (journal : Journal α) :
    ((Operand.stored (.real M.precision M.storage)).intakeMatrix input).run journal =
      .ok M journal := by
  have same : DataMatrix.canonical ⟨M.precision, M.storage⟩ = M := by
    simp only [DataMatrix.canonical, Storage.canonical_eq_self h.canonical]
  unfold Operand.intakeMatrix Numbers.intake
  dsimp only
  split
  · rename_i dense single
    have double := h.double dense
    simp [single] at double
  · rw [same]
    rfl

/-- A vector of the right length is taken in as it is, and nothing is recorded. -/
theorem Operand.run_intakeVector_ofVector (v : Array α) (input : Input) (journal : Journal α) :
    ((Operand.ofVector v).intakeVector input v.size).run journal = .ok v journal := by
  have accepted : (if v.size = v.size then return v
      else throw (.vectorLength input v.size v.size) : Logged α (Array α)).run journal =
        .ok v journal := by
    rw [if_pos rfl]
    rfl
  exact bind_of_ok (ofExcept_of_ok rfl journal) accepted

/-- Whatever a matrix was made from, it is taken in as workspaces hold it. -/
theorem Operand.kept_intakeMatrix {M : Operand α} (h : M.WellFormed)
    (ran : (M.intakeMatrix input).run journal = .ok N after) : N.Kept where
  wellFormed := (becomes_of_run ran).wellFormed h
  canonical := (becomes_of_run ran).isCanonical
  double := (becomes_of_run ran).double

end Intake

omit [Scalar α] in
/-- Whatever is read as a product is one. -/
theorem Member.product_of_toProduct? {member : Member α} {c : Cone α}
    (h : member.toProduct? = .ok c) : ∃ members, c = .product members := by
  have built {members : List (Cone α)} (h : Cone.product? members = .ok c) :
      ∃ members, c = .product members := by
    obtain ⟨-, h⟩ := of_guard_eq_ok h
    obtain ⟨-, h⟩ := of_guard_eq_ok h
    cases h
    exact ⟨_, rfl⟩
  have listed {members : List (Member α)} (h : Member.product? members = .ok c) :
      ∃ members, c = .product members := by
    obtain ⟨_, -, h⟩ := exists_of_bind_eq_ok h
    exact built h
  unfold toProduct? at h
  split at h
  · cases h
    exact ⟨_, rfl⟩
  · exact built h
  · exact listed h
  · exact listed h
  · exact listed h
  · exact listed h
  · cases h

/-! ## Workspaces -/

namespace Workspace

/-- What a workspace holds, to be set up again with its iterates and other settings. -/
def resubmitted (w : Workspace α) (settings : Source α) : Submission α where
  P := .stored (.real w.data.P.precision w.data.P.storage)
  q := .ofVector w.data.q
  A := .stored (.real w.data.A.precision w.data.A.storage)
  b := .ofVector w.data.b
  cones := .set w.cones
  settings
  x := some (.ofVector w.iterates.x)
  s := some (.ofVector w.iterates.s)
  mu := some (.ofVector w.iterates.mu)

/-- A workspace with nothing scaled yet that holds the data, sets and iterates of this one. -/
def restarted (w : Workspace α) (s : Settings α) : Workspace α :=
  { fresh w.data w.cones s with iterates := w.iterates }

/-- What setting up again relies on. -/
structure Resubmittable (w : Workspace α) : Prop where
  data : w.data.Shaped w.m w.n
  kept : w.data.Kept
  iterates : w.iterates.Sized w.m w.n
  product : ∃ members, w.cones = .product members
  dim : w.cones.dim = w.m

variable {w : Workspace α} {journal : Journal α}

theorem Resubmittable.wellFormed (h : w.Resubmittable) (balanced : w.cones.Balanced)
    (settings : Source α) : (w.resubmitted settings).WellFormed where
  P := h.kept.P.wellFormed
  A := h.kept.A.wellFormed
  cones := balanced

theorem Resubmittable.run_intakeData (h : w.Resubmittable) (settings : Source α) :
    (intakeData (w.resubmitted settings)).run journal = .ok (w.data, w.cones) journal := by
  have square : ¬ w.data.P.storage.shape ≠ (w.n, w.n) :=
    not_not_intro (Prod.ext h.data.rowsP h.data.columnsP)
  have dim : ¬ w.cones.dim ≠ w.m := not_not_intro h.dim
  have q := Operand.run_intakeVector_ofVector w.data.q .q journal
  have b := Operand.run_intakeVector_ofVector w.data.b .b journal
  rw [h.data.sizeq] at q
  rw [h.data.sizeb] at b
  obtain ⟨members, product⟩ := h.product
  have read : (w.resubmitted settings).cones.toProduct? = .ok w.cones := by
    simp only [resubmitted, product, Member.toProduct?]
  refine bind_of_ok (h.kept.A.run_intakeMatrix .A journal) ?_
  refine bind_of_ok (h.kept.P.run_intakeMatrix .P journal) ?_
  refine run_guard_of_not square ?_
  refine bind_of_ok q (bind_of_ok b (bind_of_ok (ofExcept_of_ok read journal) ?_))
  exact run_guard_of_not dim rfl

theorem run_startIterate_ofVector (input : Input) (v : Array α)
    (store : Array α → Iterates α → Iterates α) (r : Run α) :
    (startIterate input v.size store (some (.ofVector v))).run r =
      .ok () { r with workspace.iterates := store v r.workspace.iterates } :=
  bind_of_ok (focus_of_ok (Operand.run_intakeVector_ofVector v input r.journal)) rfl

theorem run_warmStart_ofVector {r : Run α} (raw : r.workspace.phase = .raw) {i : Iterates α}
    (sized : i.Sized r.workspace.m r.workspace.n) :
    (warmStart (some (.ofVector i.x)) (some (.ofVector i.s)) (some (.ofVector i.mu))).run r =
      .ok () { r with workspace.iterates := i } := by
  rw [run_warmStart_of_raw raw, storeIterates]
  have x := run_startIterate_ofVector .x i.x (fun x i => { i with x })
  have s := run_startIterate_ofVector .s i.s (fun s i => { i with s })
  have mu := run_startIterate_ofVector .mu i.mu (fun mu i => { i with mu })
  rw [sized.x] at x
  rw [sized.s] at s
  rw [sized.mu] at mu
  exact bind_of_ok (x r) (bind_of_ok (s _) (mu _))

/-- Setting up again on what a workspace holds needs no conversion. -/
theorem Resubmittable.run_setUp (h : w.Resubmittable) {settings : Source α} {s : Settings α}
    (read : Settings.ofSource? settings = .ok s) :
    (setUp (w.resubmitted settings)).run journal = .ok (w.restarted s) journal := by
  have started := run_warmStart_ofVector (r := ⟨fresh w.data w.cones s, journal⟩) rfl h.iterates
  refine bind_of_ok (h.run_intakeData settings) ?_
  refine bind_of_ok (ofExcept_of_ok read journal) ?_
  simp only [EStateM.run] at started ⊢
  simp only [resubmitted, restarted, started]

/-- What was set up again is valid. -/
theorem Resubmittable.valid (h : w.Resubmittable) (balanced : w.cones.Balanced)
    (s : Settings α) : (w.restarted s).Valid :=
  { valid_fresh h.data h.dim balanced s with iterates := h.iterates }

theorem kept_setUp {p : Submission α} {after : Journal α}
    (ran : (setUp p).run journal = .ok w after) (wellFormed : p.WellFormed) : w.data.Kept := by
  obtain ⟨data, cones, settings, iterates, taken, -, rfl, -⟩ := setUp_eq_ok ran
  obtain ⟨_, _, readP⟩ := taken.P
  obtain ⟨_, _, readA⟩ := taken.A
  exact ⟨Operand.kept_intakeMatrix wellFormed.P readP, Operand.kept_intakeMatrix wellFormed.A readA⟩

end Workspace

end ConicScaling
