import ConicScaling.Proofs.Agreement
import ConicScaling.Proofs.Layouts
import ConicScaling.Proofs.SetUp

/-!
# Independence of storage

A matrix that is taken in denotes what was handed over, since sorting a slice only adds up what
stands at one position. So two ways to store the same problem are set up alike, and whatever is done
afterwards, they never differ in anything but the layout of their matrices.
-/
namespace ConicScaling

/-! ## Canonical slices denote the same -/

namespace Storage

section Lawful

variable {β : Type} {add : β → β → β} {zero : β} [Std.Associative add] [Std.LawfulIdentity add zero]

/-- What is inserted comes after what is there already. -/
theorem sliceEntry_insert {slice : Slice β} (h : Slice.Canonical slice) (k : Nat) (v : β)
    (l : Nat) :
    sliceEntry add zero (Slice.insert add k v slice) l =
      add (sliceEntry add zero slice l) (if k = l then v else zero) := by
  have left (v : β) : add zero v = v := Std.LawfulLeftIdentity.left_id v
  have right (v : β) : add v zero = v := Std.LawfulRightIdentity.right_id v
  induction slice with
  | nil => simp [Slice.insert, left, right]
  | cons e rest ih =>
    obtain ⟨m, w⟩ := e
    obtain ⟨first, tail⟩ := List.pairwise_cons.1 h
    -- the indices that follow are larger than those before
    have absent (low : l ≤ m) : sliceEntry add zero rest l = zero :=
      sliceEntry_of_not_mem fun e he => (Nat.lt_of_le_of_lt low (first e he)).ne'
    unfold Slice.insert
    split
    · rename_i below
      by_cases here : k = l
      · subst here
        simp [left, right, below.ne', absent below.le]
      · simp [here, left, right]
    · split
      · rename_i same
        subst same
        by_cases here : k = l
        · subst here
          simp [right, absent le_rfl]
        · simp [here, left, right]
      · simp only [sliceEntry_cons, ih tail]
        exact (Std.Associative.assoc ..).symm

theorem sliceEntry_foldl_insert (slice : Slice β) {sorted : Slice β} (h : Slice.Canonical sorted)
    (l : Nat) :
    sliceEntry add zero
        (slice.foldl (fun sorted (k, v) => Slice.insert add k v sorted) sorted) l =
      add (sliceEntry add zero sorted l) (sliceEntry add zero slice l) := by
  induction slice generalizing sorted with
  | nil => exact (Std.LawfulRightIdentity.right_id _).symm
  | cons e rest ih =>
    rw [List.foldl_cons, ih (Slice.canonical_insert h add e.1 e.2), sliceEntry_insert h,
      sliceEntry_cons]
    exact Std.Associative.assoc ..

/-- Sorting adds up the entries of a position in the order in which they stand. -/
theorem sliceEntry_canonical (slice : Slice β) (l : Nat) :
    sliceEntry add zero (Slice.canonical add slice) l = sliceEntry add zero slice l :=
  (sliceEntry_foldl_insert slice List.Pairwise.nil l).trans (Std.LawfulLeftIdentity.left_id _)

end Lawful

theorem sliceEntry_perm {slice slice' : Slice ℝ} (h : slice.Perm slice') (l : Nat) :
    sliceEntry (· + ·) 0 slice l = sliceEntry (· + ·) 0 slice' l := by
  induction h with
  | nil => rfl
  | cons e _ ih => rw [sliceEntry_cons, sliceEntry_cons, ih]
  | swap d e rest =>
    simp only [sliceEntry_cons]
    ring
  | trans _ _ ih ih' => exact ih.trans ih'

theorem alike_mapSlices {f : Slice ℝ → Slice ℝ}
    (h : ∀ slice l, sliceEntry (· + ·) 0 (f slice) l = sliceEntry (· + ·) 0 slice l)
    (S : Storage ℝ) : (S.mapSlices f).Alike S where
  count := count_mapSlices f S
  value i j := by
    have beyond (l : Nat) : sliceEntry (· + ·) 0 (f []) l = 0 := h [] l
    rcases S with ⟨cols, rows⟩ | ⟨_ | _, minor, slices⟩
    · rfl
    · by_cases hi : i < slices.size <;> simp [value, entry, mapSlices, hi, h]
    · by_cases hj : j < slices.size <;> simp [value, entry, mapSlices, hj, h]

theorem alike_arranged (S : Storage ℝ) : S.arranged.Alike S := by
  unfold arranged
  split
  · exact ⟨fun _ => rfl, fun _ _ => rfl⟩
  · exact alike_mapSlices (fun slice => sliceEntry_perm (Slice.arranged_perm slice)) S

theorem alike_canonical (S : Storage ℝ) : (S.canonical (· + ·)).Alike S :=
  (alike_mapSlices sliceEntry_canonical _).trans (alike_arranged S)

/-- Within the bounds that both have, matrices denote the same if they are the same matrix. -/
theorem alike_of_toMatrix {S T : Storage ℝ} (left : S.WellFormed) (right : T.WellFormed)
    {m n : Nat} (shape : S.shape = (m, n)) (shape' : T.shape = (m, n))
    (same : S.toMatrix m n = T.toMatrix m n) : S.Alike T := by
  obtain ⟨rows, columns⟩ := Prod.mk.inj shape
  obtain ⟨rows', columns'⟩ := Prod.mk.inj shape'
  constructor
  · rintro (_ | _)
    · exact rows.trans rows'.symm
    · exact columns.trans columns'.symm
  · intro i j
    by_cases inside : i < m ∧ j < n
    · exact congrFun (congrFun same ⟨i, inside.1⟩) ⟨j, inside.2⟩
    · rw [left.value_of_le (by omega), right.value_of_le (by omega)]

end Storage

/-! ## Taking in -/

/-- Numbers are taken in as what they stand for. -/
theorem Numbers.alike_taken (M : Numbers ℝ Storage) : M.taken.storage.Alike M.reals := by
  rw [taken, DataMatrix.canonical, Precision.add_eq_add]
  exact Storage.alike_canonical M.reals

/-- Whether a matrix is given, dense or compressed along either axis, by what it stands for. -/
def Operand.Denotes (M : Operand ℝ) {m n : Nat} (X : Matrix (Fin m) (Fin n) ℝ) : Prop :=
  ∃ N : Numbers ℝ Storage, M = .stored N ∧ N.reals.shape = (m, n) ∧ N.reals.toMatrix m n = X

/-- Whether two submissions differ in nothing but the storage of `P` and `A`. -/
structure Submission.SameProblem (p p' : Submission ℝ) : Prop where
  P : ∃ (m n : Nat) (X : Matrix (Fin m) (Fin n) ℝ), p.P.Denotes X ∧ p'.P.Denotes X
  A : ∃ (m n : Nat) (X : Matrix (Fin m) (Fin n) ℝ), p.A.Denotes X ∧ p'.A.Denotes X
  q : p.q = p'.q
  b : p.b = p'.b
  cones : p.cones = p'.cones
  settings : p.settings = p'.settings
  x : p.x = p'.x
  s : p.s = p'.s
  mu : p.mu = p'.mu

/-- Agreement whatever is recorded. -/
def Logged.Agrees {β β' : Type} (S : β → β' → Prop) (x : Logged ℝ β) (y : Logged ℝ β') : Prop :=
  ConicScaling.Agrees (fun _ _ => True) S x y

theorem agrees_record (e e' : Event ℝ) : Logged.Agrees Eq (record e) (record e') :=
  agrees_modify fun _ _ _ => trivial

theorem Operand.agrees_intakeMatrix {M M' : Operand ℝ} (left : M.WellFormed) (right : M'.WellFormed)
    {m n : Nat} {X : Matrix (Fin m) (Fin n) ℝ} (denotes : M.Denotes X) (denotes' : M'.Denotes X)
    (input : Input) : Logged.Agrees (fun N N' => N.storage.Alike N'.storage)
      (M.intakeMatrix input) (M'.intakeMatrix input) := by
  obtain ⟨M, rfl, shape, matrix⟩ := denotes
  obtain ⟨M', rfl, shape', matrix'⟩ := denotes'
  have same := Storage.alike_of_toMatrix (Numbers.wellFormed_reals left)
    (Numbers.wellFormed_reals right) shape shape' (matrix.trans matrix'.symm)
  intro journal journal' _
  obtain ⟨after, ran⟩ := M.exists_run_intake input journal
  obtain ⟨after', ran'⟩ := M'.exists_run_intake input journal'
  simp only [intakeMatrix, ran, ran']
  exact .ok (M.alike_taken.trans (same.trans M'.alike_taken.symm)) trivial

theorem Operand.agrees_intakeVector (input : Input) (n : Nat) (v : Operand ℝ) :
    Logged.Agrees Eq (v.intakeVector input n) (v.intakeVector input n) := by
  have converted : Logged.Agrees Eq
      (do
        let entries ← MonadExcept.ofExcept v.entries?
        if entries.size = n then return entries
        else throw (.vectorLength input entries.size n) : Logged ℝ (Array ℝ))
      (do
        let entries ← MonadExcept.ofExcept v.entries?
        if entries.size = n then return entries
        else throw (.vectorLength input entries.size n)) := by
    refine agrees_bind (agrees_ofExcept _) ?_
    rintro entries _ rfl
    exact agrees_ite Iff.rfl (fun _ => agrees_pure rfl) fun _ => agrees_throw _
  unfold intakeVector
  exact agrees_ite Iff.rfl (fun _ => agrees_bind (agrees_record _ _) fun _ _ _ => converted)
    fun _ => converted

namespace Workspace

open Procedure

variable {p p' : Submission ℝ}

/-- Data that are taken in are alike, or are refused for the same reason. -/
theorem agrees_intakeData (left : p.WellFormed) (right : p'.WellFormed) (same : p.SameProblem p') :
    Logged.Agrees (fun d d' => d.1.Alike d'.1 ∧ d.2 = d'.2) (intakeData p) (intakeData p') := by
  obtain ⟨_, _, X, denotes, denotes'⟩ := same.A
  obtain ⟨_, _, Y, denotesP, denotesP'⟩ := same.P
  unfold intakeData
  refine agrees_bind (Operand.agrees_intakeMatrix left.A right.A denotes denotes' .A) ?_
  intro A A' alikeA
  refine agrees_bind (Operand.agrees_intakeMatrix left.P right.P denotesP denotesP' .P) ?_
  intro P P' alikeP
  simp only [← alikeA.count, ← alikeP.shape, ← same.q, ← same.b, ← same.cones]
  refine agrees_guard Iff.rfl fun _ => ?_
  refine agrees_bind (Operand.agrees_intakeVector _ _ _) ?_
  rintro q _ rfl
  refine agrees_bind (Operand.agrees_intakeVector _ _ _) ?_
  rintro b _ rfl
  refine agrees_bind (agrees_ofExcept _) ?_
  rintro cones _ rfl
  exact agrees_guard Iff.rfl fun _ => agrees_pure ⟨⟨alikeP, alikeA, rfl, rfl⟩, rfl⟩

/-- Whether two runs only differ in how matrices are laid out, and in what was recorded. -/
def RunsAlike (r r' : Run ℝ) : Prop := r.workspace.Alike r'.workspace

theorem agrees_startIterate (input : Input) (n : Nat)
    (store : Array ℝ → Iterates ℝ → Iterates ℝ) (v : Option (Operand ℝ)) :
    Agrees RunsAlike Eq (startIterate input n store v) (startIterate input n store v) := by
  unfold startIterate
  split
  · exact agrees_pure rfl
  · exact agrees_pure rfl
  · refine agrees_bind (agrees_focus (Operand.agrees_intakeVector _ _ _) ?_ ?_) ?_
    · exact fun _ _ _ => trivial
    · exact fun _ _ _ _ alike _ => alike
    · rintro entries _ rfl
      refine agrees_focus (Q := Eq) (agrees_modify ?_) ?_ ?_
      · rintro _ _ rfl
        rfl
      · exact fun _ _ alike => alike.iterates
      · rintro r r' i _ alike rfl
        exact { alike with iterates := rfl }

theorem agrees_warmStart (x s mu : Option (Operand ℝ)) :
    Agrees RunsAlike Eq (warmStart x s mu) (warmStart x s mu) := by
  have read : Agrees RunsAlike Alike workspace workspace := fun _ _ alike => .ok alike alike
  refine agrees_bind read fun w w' alike => ?_
  rw [← alike.m, ← alike.n, ← alike.phase]
  refine agrees_guard Iff.rfl fun _ => ?_
  refine agrees_bind (agrees_startIterate _ _ _ _) fun _ _ _ => ?_
  exact agrees_bind (agrees_startIterate _ _ _ _) fun _ _ _ => agrees_startIterate _ _ _ _

/-- Set up, workspaces are alike, or refused for the same reason. -/
theorem agrees_setUp (left : p.WellFormed) (right : p'.WellFormed) (same : p.SameProblem p') :
    Logged.Agrees Alike (setUp p) (setUp p') := by
  refine agrees_bind (agrees_intakeData left right same) ?_
  rintro ⟨d, cones⟩ ⟨d', cones'⟩ ⟨alike, kept⟩
  obtain rfl : cones = cones' := kept
  rw [← same.settings, ← same.x, ← same.s, ← same.mu]
  refine agrees_bind (agrees_ofExcept _) ?_
  rintro settings _ rfl
  have unscaled : (fresh d cones settings).Alike (fresh d' cones settings) := by
    have shape : d.A.storage.shape = d'.A.storage.shape := alike.A.shape
    exact ⟨alike, rfl, rfl, by simp only [fresh, shape], by simp only [fresh, shape], rfl⟩
  intro journal journal' _
  have outcome := agrees_warmStart p.x p.s p.mu ⟨fresh d cones settings, journal⟩
    ⟨fresh d' cones settings, journal'⟩ unscaled
  simp only [EStateM.run] at outcome ⊢
  generalize warmStart p.x p.s p.mu ⟨fresh d cones settings, journal⟩ = left at outcome ⊢
  generalize warmStart p.x p.s p.mu ⟨fresh d' cones settings, journal'⟩ = right at outcome ⊢
  cases outcome with
  | ok _ alike => exact .ok alike trivial
  | error _ => exact .error trivial

/-! ## The whole procedure -/

/-- Whether equilibrating two runs and mapping them back shows no difference: both are refused for
the same reason, or after each step they are alike, with the same report. -/
inductive SessionsAlike (given : Option (Source ℝ)) (r r' : Run ℝ) : Prop
  | refused {f : Fault ℝ} (left : (equilibrate given).run r = .error f r)
      (right : (equilibrate given).run r' = .error f r')
  | accepted {report : Report ℝ} {r₁ r₁' r₂ r₂' : Run ℝ}
      (equilibrated : (equilibrate given).run r = .ok report r₁)
      (equilibrated' : (equilibrate given).run r' = .ok report r₁') (scaled : RunsAlike r₁ r₁')
      (reversed : reverse.run r₁ = .ok () r₂) (reversed' : reverse.run r₁' = .ok () r₂')
      (unscaled : RunsAlike r₂ r₂')

/-- Whether two submissions show no difference either as they are set up. -/
inductive SubmissionsAlike (p p' : Submission ℝ) (given : Option (Source ℝ))
    (journal journal' : Journal ℝ) : Prop
  | refused {f : Fault ℝ} {after after' : Journal ℝ} (left : (setUp p).run journal = .error f after)
      (right : (setUp p').run journal' = .error f after')
  | accepted {w w' : Workspace ℝ} {after after' : Journal ℝ}
      (left : (setUp p).run journal = .ok w after) (right : (setUp p').run journal' = .ok w' after')
      (raw : w.Alike w') (session : SessionsAlike given ⟨w, after⟩ ⟨w', after'⟩)

section Sessions

variable {r r' : Run ℝ} (alike : RunsAlike r r') (left : r.workspace.Valid)
  (right : r'.workspace.Valid) (canonical : r.workspace.data.Canonical)
  (canonical' : r'.workspace.data.Canonical) (small : r.workspace.cones.extent < countLimit)

include alike left right canonical canonical' small

/-- With settings in place, workspaces that are alike are scaled and mapped back alike. -/
theorem alike_equilibrateChosen :
    ∃ report r₁ r₁' r₂ r₂', equilibrateChosen.run r = .ok report r₁ ∧
      equilibrateChosen.run r' = .ok report r₁' ∧ RunsAlike r₁ r₁' ∧
        reverse.run r₁ = .ok () r₂ ∧ reverse.run r₁' = .ok () r₂' ∧ RunsAlike r₂ r₂' := by
  have small' : r'.workspace.cones.extent < countLimit := alike.cones ▸ small
  have data' : r'.workspace.data.Shaped r.workspace.m r.workspace.n := by
    rw [alike.m, alike.n]
    exact right.data
  have sound : r.workspace.data.Sound r.workspace.m r.workspace.n := ⟨left.data, canonical⟩
  have sound' : r'.workspace.data.Sound r.workspace.m r.workspace.n := ⟨data', canonical'⟩
  have final := alike.final sound sound'
  have scaled := alike.equilibrated sound sound'
  have unscaled := scaled.returned final.left.shaped final.right.shaped left.sized_scaledTo
  obtain ⟨journal, ran⟩ := run_equilibrateChosen_real left small
  obtain ⟨journal', ran'⟩ := run_equilibrateChosen_real right small'
  have back := run_reverse_of_equilibrated left (left.fits small)
    (equilibrates_equilibrated left small).iterates journal
  have back' := run_reverse_of_equilibrated right (right.fits small')
    (equilibrates_equilibrated right small').iterates journal'
  rw [← alike.report sound sound'] at ran'
  exact ⟨_, _, _, _, _, ran, ran', scaled, back, back', unscaled⟩

theorem sessionsAlike (raw : r.workspace.phase = .raw) (given : Option (Source ℝ)) :
    SessionsAlike given r r' := by
  have raw' : r'.workspace.phase = .raw := alike.phase ▸ raw
  have same := alike.settings
  cases chosen : r.workspace.settings.chosen? given with
  | error f =>
    exact .refused (run_equilibrate_of_rejected raw chosen)
      (run_equilibrate_of_rejected raw' (same ▸ chosen))
  | ok s =>
    have alike : RunsAlike { r with workspace.settings := s } { r' with workspace.settings := s } :=
      alike.with_settings s
    obtain ⟨report, r₁, r₁', r₂, r₂', ran, ran', scaled, back, back', unscaled⟩ :=
      alike_equilibrateChosen alike (left.with_settings s) (right.with_settings s) canonical
        canonical' small
    exact .accepted ((run_equilibrate_of_chosen raw chosen).trans ran)
      ((run_equilibrate_of_chosen raw' (same ▸ chosen)).trans ran') scaled back back' unscaled

end Sessions

/-- However the matrices of a problem are stored, setting it up, equilibrating it and mapping it
back goes the same way. -/
theorem storage_irrelevant (left : p.WellFormed) (right : p'.WellFormed) (same : p.SameProblem p')
    (small : ∀ cones, p.cones.toProduct? = .ok cones → cones.extent < countLimit)
    (given : Option (Source ℝ)) (journal journal' : Journal ℝ) :
    SubmissionsAlike p p' given journal journal' := by
  have outcome := agrees_setUp left right same journal journal' trivial
  generalize ran : (setUp p).run journal = result at outcome
  generalize ran' : (setUp p').run journal' = result' at outcome
  cases outcome with
  | @ok w w' after after' alike _ =>
    obtain ⟨valid, raw, -⟩ := valid_setUp ran left
    obtain ⟨valid', -⟩ := valid_setUp ran' right
    have runs : RunsAlike ⟨w, after⟩ ⟨w', after'⟩ := alike
    refine .accepted ran ran' alike ?_
    exact sessionsAlike runs valid valid' (canonical_setUp ran) (canonical_setUp ran')
      (small _ (cones_setUp ran).1) raw given
  | error _ => exact .refused ran ran'

/-- A problem with two variables and two rows whose matrices are stored in a given way. -/
noncomputable def stored (P A : Storage ℝ) : Submission ℝ where
  P := .stored (.real .double P)
  q := .ofVector #[1, -1]
  A := .stored (.real .double A)
  b := .ofVector #[0, 1]
  cones := .set (.product [.block (.box #[-1] #[1]), .block (.nonnegative 1)])
  settings := .settings .standard
  x := some (.ofVector #[1, 1])
  s := none
  mu := none

/-- Dense matrices. -/
noncomputable def inRows (a : ℝ) : Submission ℝ :=
  stored (.dense 2 #[#[a, 1], #[1, -a]]) (.dense 2 #[#[1, 0], #[a, -1]])

/-- The same matrices by columns and by rows, out of order, with duplicates and a stored zero. -/
noncomputable def inSlices (a : ℝ) : Submission ℝ :=
  stored (.sparse .column 2 #[[(1, 1), (0, a - 1), (0, 1)], [(0, 1), (1, -a)]])
    (.sparse .row 2 #[[(0, 1), (1, 0)], [(1, -a), (0, a), (1, a - 1)]])

theorem wellFormed_stored {P A : Storage ℝ} (left : P.WellFormed) (right : A.WellFormed) :
    (stored P A).WellFormed where
  P := left
  A := right
  cones := by
    intro b hb
    simp only [Cone.leaves, Cone.leavesOf, List.cons_append, List.nil_append,
      List.append_nil, List.mem_cons, List.not_mem_nil, or_false] at hb
    rcases hb with rfl | rfl
    · rfl
    · trivial

theorem wellFormed_inRows (a : ℝ) : (inRows a).WellFormed :=
  wellFormed_stored (by simp [Storage.WellFormed]) (by simp [Storage.WellFormed])

theorem wellFormed_inSlices (a : ℝ) : (inSlices a).WellFormed := by
  refine wellFormed_stored ?_ ?_ <;> simp only [Storage.WellFormed] <;> grind

theorem sameProblem_inSlices (a : ℝ) : (inRows a).SameProblem (inSlices a) where
  P := by
    refine ⟨2, 2, _, ⟨_, rfl, rfl, rfl⟩, _, rfl, rfl, ?_⟩
    ext i j
    fin_cases i <;> fin_cases j <;>
      simp [Numbers.reals, Storage.toMatrix, Storage.value, Storage.entry, Storage.sliceEntry]
  A := by
    refine ⟨2, 2, _, ⟨_, rfl, rfl, rfl⟩, _, rfl, rfl, ?_⟩
    ext i j
    fin_cases i <;> fin_cases j <;>
      simp [Numbers.reals, Storage.toMatrix, Storage.value, Storage.entry, Storage.sliceEntry]
    ring
  q := rfl
  b := rfl
  cones := rfl
  settings := rfl
  x := rfl
  s := rfl
  mu := rfl

theorem storage_irrelevant_inSlices :
    (∃ w after, (setUp (inRows 4)).run #[] = .ok w after) ∧
      SubmissionsAlike (inRows 4) (inSlices 4) none #[] #[] := by
  refine ⟨⟨_, _, rfl⟩, storage_irrelevant (wellFormed_inRows 4) (wellFormed_inSlices 4)
    (sameProblem_inSlices 4) ?_ none _ _⟩
  intro cones product
  cases product
  decide

end Workspace

end ConicScaling
