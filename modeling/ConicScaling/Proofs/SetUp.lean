import ConicScaling.Proofs.Intake
import ConicScaling.Proofs.Outcome

/-!
# Workspaces that were set up

Setting up delivers what equilibration relies on: data of sizes that agree, boxes with as many
lower bounds as upper ones, unit factors, and iterates of the right lengths.
-/
namespace ConicScaling

open Procedure

variable {α : Type}

/-- Whether the sets that a caller hands over have boxes with as many bounds on both sides. -/
def Member.Balanced : Member α → Prop
  | set c => c.Balanced
  | sequence members => ∀ c, set c ∈ members → c.Balanced
  | value _ => True

/-- Whether the objects that a caller hands over are each in order, without regard to each other. -/
structure Submission.WellFormed [Scalar α] (p : Submission α) : Prop where
  P : p.P.WellFormed
  A : p.A.WellFormed
  cones : p.cones.Balanced

/-! ## Sets -/

theorem Cone.balanced_of_product? {members : List (Cone α)}
    (balanced : ∀ c ∈ members, c.Balanced) {c : Cone α} (h : product? members = .ok c) :
    c.Balanced := by
  obtain ⟨-, h⟩ := of_guard_eq_ok h
  obtain ⟨-, h⟩ := of_guard_eq_ok h
  cases h
  exact balanced_product.2 balanced

/-- Only sets are turned into sets. -/
theorem Member.mem_of_mapM_toCone? {members : List (Member α)} {cones : List (Cone α)}
    (h : members.mapM toCone? = .ok cones) {c : Cone α} (hc : c ∈ cones) : set c ∈ members := by
  have converted := forall₂_of_mapM_eq_ok h
  clear h
  induction converted with
  | nil => cases hc
  | @cons member _ _ _ made _ ih =>
    rcases List.mem_cons.1 hc with rfl | hc
    · cases member with
      | set c =>
        cases made
        exact List.mem_cons_self
      | sequence _ => cases made
      | value _ => cases made
    · exact List.mem_cons_of_mem _ (ih hc)

theorem Member.balanced_of_product? {members : List (Member α)}
    (balanced : ∀ c, set c ∈ members → c.Balanced) {c : Cone α} (h : product? members = .ok c) :
    c.Balanced := by
  obtain ⟨cones, found, h⟩ := exists_of_bind_eq_ok h
  exact Cone.balanced_of_product? (fun c hc => balanced c (mem_of_mapM_toCone? found hc)) h

/-- Whatever a product is read from, its boxes were among what was handed over. -/
theorem Member.balanced_of_toProduct? {member : Member α} (balanced : member.Balanced) {c : Cone α}
    (h : member.toProduct? = .ok c) : c.Balanced := by
  unfold toProduct? at h
  split at h
  · cases h
    exact balanced
  · apply Cone.balanced_of_product? _ h
    intro c hc
    rw [List.mem_singleton.1 hc]
    exact balanced
  · exact balanced_of_product? balanced h
  · exact balanced_of_product? (by simp) h
  · exact balanced_of_product? (by simp) h
  · exact balanced_of_product? (by simp) h
  · cases h

variable [Scalar α]

theorem Scaling.Sized.identity (m n : Nat) : (identity n m : Scaling α).Sized m n := by
  constructor <;> exact Array.size_replicate

theorem Iterates.Sized.zeros (m n : Nat) : (zeros n m : Iterates α).Sized m n := by
  constructor <;> exact Array.size_replicate

namespace Workspace

/-! ## Data -/

/-- What taking in data has come from and checked. -/
structure Taken (p : Submission α) (data : Data (DataMatrix α) α) (cones : Cone α) : Prop where
  P : ∃ journal after, (p.P.intakeMatrix .P).run journal = .ok data.P after
  A : ∃ journal after, (p.A.intakeMatrix .A).run journal = .ok data.A after
  square : data.P.storage.shape = (data.A.storage.count .column, data.A.storage.count .column)
  sizeq : data.q.size = data.A.storage.count .column
  sizeb : data.b.size = data.A.storage.count .row
  product : p.cones.toProduct? = .ok cones
  dim : cones.dim = data.A.storage.count .row

theorem intakeData_eq_ok {p : Submission α} {journal after : Journal α}
    {data : Data (DataMatrix α) α} {cones : Cone α}
    (ran : (intakeData p).run journal = .ok (data, cones) after) : Taken p data cones := by
  obtain ⟨A, _, readA, ran⟩ := exists_of_run_bind_eq_ok ran
  obtain ⟨P, _, readP, ran⟩ := exists_of_run_bind_eq_ok ran
  obtain ⟨square, ran⟩ := of_run_guard_eq_ok ran
  obtain ⟨q, _, readq, ran⟩ := exists_of_run_bind_eq_ok ran
  obtain ⟨b, _, readb, ran⟩ := exists_of_run_bind_eq_ok ran
  obtain ⟨product, _, read, ran⟩ := exists_of_run_bind_eq_ok ran
  obtain ⟨dim, ran⟩ := of_run_guard_eq_ok ran
  cases ran
  exact {
    P := ⟨_, _, readP⟩
    A := ⟨_, _, readA⟩
    square := not_not.1 square
    sizeq := Operand.size_intakeVector readq
    sizeb := Operand.size_intakeVector readb
    product := (ofExcept_eq_ok read).1
    dim := not_not.1 dim }

namespace Taken

variable {p : Submission α} {data : Data (DataMatrix α) α} {cones : Cone α}
  (taken : Taken p data cones)

include taken

/-- Data that are taken in have sizes that agree with each other. -/
theorem shaped (wellFormed : p.WellFormed) :
    data.Shaped (data.A.storage.count .row) (data.A.storage.count .column) where
  wellFormedP := by
    obtain ⟨_, _, read⟩ := taken.P
    exact (Operand.becomes_of_run read).wellFormed wellFormed.P
  rowsP := congrArg Prod.fst taken.square
  columnsP := congrArg Prod.snd taken.square
  wellFormedA := by
    obtain ⟨_, _, read⟩ := taken.A
    exact (Operand.becomes_of_run read).wellFormed wellFormed.A
  rowsA := rfl
  columnsA := rfl
  sizeq := taken.sizeq
  sizeb := taken.sizeb

theorem canonical : data.Canonical where
  P := by
    obtain ⟨_, _, read⟩ := taken.P
    exact (Operand.becomes_of_run read).isCanonical
  A := by
    obtain ⟨_, _, read⟩ := taken.A
    exact (Operand.becomes_of_run read).isCanonical

theorem balanced (wellFormed : p.WellFormed) : cones.Balanced :=
  Member.balanced_of_toProduct? wellFormed.cones taken.product

end Taken

/-! ## Iterates -/

/-- Only the iterates have changed, and they have kept their lengths. -/
def IteratesOnly (w : Workspace α) (m n : Nat) (r : Run α) : Prop :=
  r.workspace = { w with iterates := r.workspace.iterates } ∧ r.workspace.iterates.Sized m n

theorem keeps_startIterate {w : Workspace α} {m n k : Nat} (input : Input)
    {store : Array α → Iterates α → Iterates α} (v : Option (Operand α))
    (keeps : ∀ v i, v.size = k → i.Sized m n → (store v i).Sized m n) :
    Keeps (IteratesOnly w m n) (startIterate input k store v) := by
  intro r ⟨same, sized⟩
  unfold startIterate
  split
  · exact ⟨same, sized⟩
  · exact ⟨same, sized⟩
  · rename_i u _
    cases ran : (u.intakeVector input k).run r.journal with
    | ok a journal =>
      have stored : (onJournal (u.intakeVector input k) >>= fun v =>
          onIterates (modify (store v))).run r =
          .ok () ⟨{ r.workspace with iterates := store a r.workspace.iterates }, journal⟩ :=
        bind_of_ok (focus_of_ok ran) rfl
      rw [stored]
      refine ⟨?_, keeps a _ (Operand.size_intakeVector ran) sized⟩
      exact congrArg (fun old : Workspace α =>
        { old with iterates := store a r.workspace.iterates }) same
    | error f journal =>
      have refused : (onJournal (u.intakeVector input k) >>= fun v =>
          onIterates (modify (store v))).run r = .error f { r with journal } :=
        bind_of_error (focus_of_error ran)
      rw [refused]
      exact ⟨same, sized⟩

theorem run_warmStart_of_not_raw {r : Run α} (h : r.workspace.phase ≠ .raw)
    (x s mu : Option (Operand α)) : (warmStart x s mu).run r = .error .lateWarmStart r := by
  refine bind_of_ok (run_workspace _) ?_
  simp only [h, ne_eq, not_false_eq_true, if_true]
  rfl

/-- The iterates that a warm start is given, one after the other. -/
def storeIterates (m n : Nat) (x s mu : Option (Operand α)) : Procedure α Unit := do
  startIterate .x n (fun x i => { i with x }) x
  startIterate .s m (fun s i => { i with s }) s
  startIterate .mu m (fun mu i => { i with mu }) mu

theorem run_warmStart_of_raw {r : Run α} (raw : r.workspace.phase = .raw)
    (x s mu : Option (Operand α)) :
    (warmStart x s mu).run r = (storeIterates r.workspace.m r.workspace.n x s mu).run r := by
  refine bind_of_ok (run_workspace _) ?_
  simp only [raw, ne_eq, not_true_eq_false, if_false]
  rfl

theorem keeps_storeIterates (w : Workspace α) (m n : Nat) (x s mu : Option (Operand α)) :
    Keeps (IteratesOnly w m n) (storeIterates m n x s mu) := by
  refine keeps_bind (keeps_startIterate .x x ?_) fun _ =>
    keeps_bind (keeps_startIterate .s s ?_) fun _ => keeps_startIterate .mu mu ?_
  · exact fun _ _ size old => ⟨size, old.s, old.mu⟩
  · exact fun _ _ size old => ⟨old.x, size, old.mu⟩
  · exact fun _ _ size old => ⟨old.x, old.s, size⟩

/-- A warm start changes nothing but the iterates, also when it fails. -/
theorem iteratesOnly_warmStart {r : Run α}
    (sized : r.workspace.iterates.Sized r.workspace.m r.workspace.n)
    (x s mu : Option (Operand α)) :
    IteratesOnly r.workspace r.workspace.m r.workspace.n (ended ((warmStart x s mu).run r)).2 := by
  by_cases raw : r.workspace.phase = .raw
  · rw [run_warmStart_of_raw raw]
    exact keeps_storeIterates r.workspace r.workspace.m r.workspace.n x s mu r ⟨rfl, sized⟩
  · rw [run_warmStart_of_not_raw raw]
    exact ⟨rfl, sized⟩

/-! ## The whole workspace -/

theorem valid_fresh {data : Data (DataMatrix α) α} {cones : Cone α}
    (shaped : data.Shaped (data.A.storage.count .row) (data.A.storage.count .column))
    (dim : cones.dim = data.A.storage.count .row) (balanced : cones.Balanced)
    (settings : Settings α) : (fresh data cones settings).Valid where
  data := shaped
  scaling := .identity _ _
  iterates := .zeros _ _
  dim := dim
  balanced := balanced

/-- A workspace that is set up is a fresh one with iterates of the right lengths. -/
theorem setUp_eq_ok {p : Submission α} {journal after : Journal α} {w : Workspace α}
    (ran : (setUp p).run journal = .ok w after) :
    ∃ data cones settings iterates, Taken p data cones ∧
      Settings.ofSource? p.settings = .ok settings ∧
        w = { fresh data cones settings with iterates } ∧ iterates.Sized w.m w.n := by
  obtain ⟨⟨data, cones⟩, _, taken, ran⟩ := exists_of_run_bind_eq_ok ran
  obtain ⟨settings, between, read, ran⟩ := exists_of_run_bind_eq_ok ran
  cases started : warmStart p.x p.s p.mu ⟨fresh data cones settings, between⟩ with
  | ok _ r =>
    simp only [EStateM.run, started] at ran
    cases ran
    have kept := iteratesOnly_warmStart (r := ⟨fresh data cones settings, between⟩) (.zeros _ _)
      p.x p.s p.mu
    simp only [EStateM.run, started, ended] at kept
    obtain ⟨same, sized⟩ := kept
    refine ⟨data, cones, settings, _, intakeData_eq_ok taken, (ofExcept_eq_ok read).1, same, ?_⟩
    rw [same]
    exact sized
  | error f r =>
    simp only [EStateM.run, started] at ran
    cases ran

section SetUp

variable {p : Submission α} {journal after : Journal α} {w : Workspace α}
  (ran : (setUp p).run journal = .ok w after)

include ran

/-- A workspace that is set up is valid and raw, and nothing in it is scaled. -/
theorem valid_setUp (wellFormed : p.WellFormed) :
    w.Valid ∧ w.phase = .raw ∧ w.scaling = .identity w.n w.m := by
  obtain ⟨data, cones, settings, iterates, taken, -, rfl, sized⟩ := setUp_eq_ok ran
  have valid := valid_fresh (taken.shaped wellFormed) taken.dim (taken.balanced wellFormed) settings
  exact ⟨{ valid with iterates := sized }, rfl, rfl⟩

/-- In a workspace that is set up no position is stored twice. -/
theorem canonical_setUp : w.data.Canonical := by
  obtain ⟨data, cones, settings, iterates, taken, -, rfl, -⟩ := setUp_eq_ok ran
  exact taken.canonical

/-- A workspace holds the product that it was given, which has as many rows as `A`. -/
theorem cones_setUp : p.cones.toProduct? = .ok w.cones ∧ w.cones.dim = w.m := by
  obtain ⟨data, cones, settings, iterates, taken, -, rfl, -⟩ := setUp_eq_ok ran
  exact ⟨taken.product, taken.dim⟩

end SetUp

end Workspace

end ConicScaling
