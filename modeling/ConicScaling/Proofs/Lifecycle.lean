import ConicScaling.Proofs.Backward
import ConicScaling.Proofs.Calls
import ConicScaling.Proofs.Transform

/-!
# The life of a workspace

A workspace is raw, then scaled, then mapped back. Whatever calls are made on it, it is sound
between them: while it is raw nothing but its iterates and settings have changed since it was set
up, and from then on its factors are positive and come with their inverses.
-/
namespace ConicScaling

open Procedure

/-- Factors that are positive and stored together with their inverses. -/
structure Scaling.Inverts (t : Scaling ℝ) (m n : Nat) : Prop where
  D_pos : ∀ x ∈ t.D, 0 < x
  E_pos : ∀ x ∈ t.E, 0 < x
  Dinv_pos : ∀ x ∈ t.Dinv, 0 < x
  Einv_pos : ∀ x ∈ t.Einv, 0 < x
  c_pos : 0 < t.c
  cinv_pos : 0 < t.cinv
  D_mul_Dinv : toVector t.D n * toVector t.Dinv n = 1
  E_mul_Einv : toVector t.E m * toVector t.Einv m = 1
  c_mul_cinv : t.c * t.cinv = 1

theorem map_reciprocal_pos {v : Array ℝ} (positive : ∀ x ∈ v, 0 < x) :
    ∀ x ∈ v.map Scalar.reciprocal, 0 < x := by
  intro x hx
  obtain ⟨y, hy, rfl⟩ := Array.mem_map.1 hx
  rw [Scalar.reciprocal_real]
  exact inv_pos.2 (positive y hy)

namespace Workspace

theorem Valid.inverts_equilibrated {w : Workspace ℝ} (valid : w.Valid) :
    w.equilibrated.scaling.Inverts w.m w.n := by
  have finished := valid.finished
  exact {
    D_pos := finished.D_pos
    E_pos := finished.E_pos
    Dinv_pos := map_reciprocal_pos finished.D_pos
    Einv_pos := map_reciprocal_pos finished.E_pos
    c_pos := finished.cost_pos
    cinv_pos := one_div_pos.2 finished.cost_pos
    D_mul_Dinv := toVector_mul_reciprocal finished.shaped.sizeD finished.D_pos
    E_mul_Einv := toVector_mul_reciprocal finished.shaped.sizeE finished.E_pos
    c_mul_cinv := mul_one_div_cancel finished.cost_pos.ne' }

/-- What holds of a workspace between calls, given the one that was set up. -/
structure Sound (start w : Workspace ℝ) : Prop where
  data : w.data.Shaped start.m start.n
  scaling : w.scaling.Sized start.m start.n
  iterates : w.iterates.Sized start.m start.n
  fits : w.cones.Fits start.m
  raw : w.phase = .raw →
    w.data = start.data ∧ w.cones = start.cones ∧ w.scaling = .identity start.n start.m
  inverts : w.phase ≠ .raw → w.scaling.Inverts start.m start.n

/-- How a call on a workspace may end, and what it then leaves. -/
inductive Moves (w : Workspace ℝ) : Call ℝ → Option (Fault ℝ) → Workspace ℝ → Prop
  | refused {call : Call ℝ} (other : w.phase ≠ call.phase) :
      Moves w call (some (call.refusal w.phase)) w
  | warmed {x s mu : Option (Operand ℝ)} {fault : Option (Fault ℝ)} {i : Iterates ℝ}
      (raw : w.phase = .raw) (sized : i.Sized w.m w.n)
      (stored : (Call.warmStart x s mu).Fits w.m w.n → fault = none) :
      Moves w (.warmStart x s mu) fault { w with iterates := i }
  | rejected {given : Option (Source ℝ)} {f : Fault ℝ} (raw : w.phase = .raw)
      (rejected : w.settings.chosen? given = .error f) : Moves w (.equilibrate given) (some f) w
  | equilibrated {given : Option (Source ℝ)} {s : Settings ℝ} (raw : w.phase = .raw)
      (chosen : w.settings.chosen? given = .ok s) :
      Moves w (.equilibrate given) none { w with settings := s }.equilibrated
  | returned (scaled : w.phase = .scaled) : Moves w .reverse none w.returned

variable {start : Workspace ℝ} (setUp : start.Valid) (small : start.cones.extent < countLimit)

section Sound

variable {w : Workspace ℝ} (sound : Sound start w)

include sound

theorem Sound.m_eq : w.m = start.m := sound.data.rowsA

theorem Sound.n_eq : w.n = start.n := sound.data.columnsA

include setUp

/-- While it is raw, a workspace is as valid as it was when it was set up. -/
theorem Sound.valid (raw : w.phase = .raw) : w.Valid := by
  obtain ⟨data, cones, -⟩ := sound.raw raw
  have rows := sound.m_eq
  have columns := sound.n_eq
  constructor
  case data =>
    rw [rows, columns]
    exact sound.data
  case scaling =>
    rw [rows, columns]
    exact sound.scaling
  case iterates =>
    rw [rows, columns]
    exact sound.iterates
  case dim =>
    rw [rows, cones]
    exact setUp.dim
  case balanced =>
    rw [cones]
    exact setUp.balanced

end Sound

theorem sized_returnedIterates {t : Scaling ℝ} {i : Iterates ℝ} {m n : Nat}
    (scaling : t.Sized m n) (iterates : i.Sized m n) : (returnedIterates t i).Sized m n where
  x := (Diagonal.size_times (scaling.D.trans iterates.x.symm)).trans iterates.x
  s := (Diagonal.size_times (scaling.Einv.trans iterates.s.symm)).trans iterates.s
  mu := (Array.size_map ..).trans
    ((Diagonal.size_times (scaling.E.trans iterates.mu.symm)).trans iterates.mu)

theorem Sound.shaped_returned {w : Workspace ℝ} (sound : Sound start w) :
    w.returned.data.Shaped start.m start.n := by
  unfold returned
  split
  · exact sound.data.scaled (Diagonal.spans_entries sound.scaling.Dinv)
      (Diagonal.spans_entries sound.scaling.Einv) _
  · exact sound.data

theorem Sound.fits_returned {w : Workspace ℝ} (sound : Sound start w) :
    w.returned.cones.Fits start.m := by
  have size := sound.scaling.Einv
  unfold returned
  split
  · have kept := Cone.fits_scaled (show w.cones.Fits w.scaling.Einv.size from size ▸ sound.fits)
    rwa [size] at kept
  · exact sound.fits

/-! ## Single calls -/

section Call

variable {r : Run ℝ} (sound : Sound start r.workspace)

include sound

theorem moves_warmStart (x s mu : Option (Operand ℝ)) :
    Moves r.workspace (.warmStart x s mu) (ended ((warmStart x s mu).run r)).1
      (ended ((warmStart x s mu).run r)).2.workspace := by
  by_cases raw : r.workspace.phase = .raw
  · rw [run_warmStart_of_raw raw]
    have sized : r.workspace.iterates.Sized r.workspace.m r.workspace.n := by
      rw [sound.m_eq, sound.n_eq]
      exact sound.iterates
    obtain ⟨same, kept⟩ :=
      keeps_storeIterates r.workspace r.workspace.m r.workspace.n x s mu r ⟨rfl, sized⟩
    rw [same]
    refine .warmed raw kept fun ⟨listsx, listss, listsmu⟩ => ?_
    obtain ⟨accepts, -⟩ := checks_storeIterates (fun u h => (listsx u h).readable)
      (fun u h => (listss u h).readable) (fun u h => (listsmu u h).readable) r.workspace.m
      r.workspace.n r
    obtain ⟨_, after, ran, -⟩ := accepts ⟨fun u h _ => listsx u h, fun u h _ => listss u h,
      fun u h _ => listsmu u h⟩
    rw [ran]
    rfl
  · rw [run_warmStart_of_not_raw raw]
    exact .refused raw

theorem moves_reverse : Moves r.workspace .reverse (ended (reverse.run r)).1
    (ended (reverse.run r)).2.workspace := by
  by_cases scaled : r.workspace.phase = .scaled
  · rw [run_reverse scaled sound.data sound.scaling sound.iterates sound.fits]
    exact .returned scaled
  · rw [run_reverse_of_not_scaled scaled]
    exact .refused scaled

include setUp small

theorem moves_equilibrate {given : Option (Source ℝ)} :
    Moves r.workspace (.equilibrate given) (ended (((Call.equilibrate given).perform).run r)).1
      (ended (((Call.equilibrate given).perform).run r)).2.workspace := by
  by_cases raw : r.workspace.phase = .raw
  · cases chosen : r.workspace.settings.chosen? given with
    | error f =>
      have ran : (Call.equilibrate given).perform.run r = .error f r :=
        bind_of_error (run_equilibrate_of_rejected raw chosen)
      rw [ran]
      exact .rejected raw chosen
    | ok s =>
      have valid := (sound.valid setUp raw).with_settings s
      obtain ⟨-, cones, -⟩ := sound.raw raw
      obtain ⟨journal, ends⟩ := run_equilibrateChosen_real
        (r := { r with workspace.settings := s }) valid (cones.symm ▸ small)
      have ran : (Call.equilibrate given).perform.run r =
          .ok () ⟨{ r.workspace with settings := s }.equilibrated, journal⟩ :=
        bind_of_ok ((run_equilibrate_of_chosen raw chosen).trans ends) rfl
      rw [ran]
      exact .equilibrated raw chosen
  · have ran : (Call.equilibrate given).perform.run r = .error (.notRaw r.workspace.phase) r :=
      bind_of_error (run_equilibrate_of_not_raw raw)
    rw [ran]
    exact .refused raw

/-- Every call ends in one of the ways there are. -/
theorem Sound.moves (call : Call ℝ) :
    Moves r.workspace call (ended (call.perform.run r)).1
      (ended (call.perform.run r)).2.workspace := by
  cases call with
  | warmStart x s mu => exact moves_warmStart sound x s mu
  | equilibrate given => exact moves_equilibrate setUp small sound
  | reverse => exact moves_reverse sound

end Call

include setUp small

/-- A call leaves a workspace sound. -/
theorem Moves.sound {w w' : Workspace ℝ} {call : Call ℝ} {fault : Option (Fault ℝ)}
    (moves : Moves w call fault w') (sound : Sound start w) :
    Sound start w' := by
  have rows := sound.m_eq
  have columns := sound.n_eq
  cases moves with
  | refused => exact sound
  | warmed raw sized =>
    rw [rows, columns] at sized
    exact { sound with iterates := sized }
  | rejected => exact sound
  | @equilibrated given s raw chosen =>
    have valid := (sound.valid setUp raw).with_settings s
    obtain ⟨-, cones, -⟩ := sound.raw raw
    have equilibrates := equilibrates_equilibrated valid (cones.symm ▸ small)
    have data := equilibrates.data
    have scaling := equilibrates.scaling
    have iterates := equilibrates.iterates
    have fits := valid.fits_equilibrated (rows.symm ▸ sound.fits)
    have inverts := valid.inverts_equilibrated
    have rows' : ({ w with settings := s } : Workspace ℝ).m = start.m := rows
    have columns' : ({ w with settings := s } : Workspace ℝ).n = start.n := columns
    rw [rows'] at data scaling iterates fits inverts
    rw [columns'] at data scaling iterates inverts
    exact {
      data, scaling, iterates, fits
      raw := by
        intro raw
        cases raw
      inverts := fun _ => inverts }
  | returned scaled =>
    have late : w.phase ≠ .raw := by simp [scaled]
    exact {
      data := sound.shaped_returned
      scaling := sound.scaling
      iterates := sized_returnedIterates sound.scaling sound.iterates
      fits := sound.fits_returned
      raw := by
        intro raw
        cases raw
      inverts := fun _ => sound.inverts late }

end Workspace

/-! ## Sequences of calls -/

namespace Phase

/-- The phases that one phase may be followed by. -/
inductive Leads : Phase → Phase → Prop
  | stays (p : Phase) : Leads p p
  | scales : Leads raw scaled
  | returns : Leads scaled unscaled

/-- The phases that are still to come. -/
def ahead : Phase → List Phase
  | raw => [scaled, unscaled]
  | scaled => [unscaled]
  | unscaled => []

end Phase

/-- The phase that a call leads to, if it is one that leads to another phase and succeeds. -/
def Step.advance? {α : Type} [Scalar α] (step : Step α) : Option Phase :=
  match step.fault, step.call with
  | none, .equilibrate _ => some .scaled
  | none, .reverse => some .unscaled
  | _, _ => none

namespace Workspace

theorem Moves.leads {w w' : Workspace ℝ} {call : Call ℝ} {fault : Option (Fault ℝ)}
    (moves : Moves w call fault w') : w.phase.Leads w'.phase := by
  cases moves with
  | refused => exact .stays _
  | warmed => exact .stays _
  | rejected => exact .stays _
  | equilibrated raw =>
    rw [raw]
    exact .scales
  | returned scaled =>
    rw [scaled]
    exact .returns

/-- A call either stays in its phase or succeeds in taking the next one. -/
theorem Moves.advance? {w w' : Workspace ℝ} {call : Call ℝ} {fault : Option (Fault ℝ)}
    (moves : Moves w call fault w') :
    Step.advance? ⟨w, call, fault, w'⟩ = none ∧ w'.phase = w.phase ∨
      Step.advance? ⟨w, call, fault, w'⟩ = some w'.phase ∧
        w.phase.ahead = w'.phase :: w'.phase.ahead := by
  cases moves with
  | refused => exact .inl ⟨rfl, rfl⟩
  | @warmed _ _ _ fault => cases fault <;> exact .inl ⟨rfl, rfl⟩
  | rejected => exact .inl ⟨rfl, rfl⟩
  | equilibrated raw => exact .inr ⟨rfl, by rw [raw]; rfl⟩
  | returned scaled => exact .inr ⟨rfl, by rw [scaled]; rfl⟩

/-- A call in a phase that it is not for is refused. -/
theorem Moves.of_other {w w' : Workspace ℝ} {call : Call ℝ} {fault : Option (Fault ℝ)}
    (moves : Moves w call fault w') (other : w.phase ≠ call.phase) :
    w' = w ∧ fault = some (call.refusal w.phase) := by
  cases moves with
  | refused => exact ⟨rfl, rfl⟩
  | warmed same => exact absurd same other
  | rejected same => exact absurd same other
  | equilibrated same => exact absurd same other
  | returned same => exact absurd same other

theorem Moves.of_rejected {w w' : Workspace ℝ} {given : Option (Source ℝ)} {f : Fault ℝ}
    {fault : Option (Fault ℝ)} (moves : Moves w (.equilibrate given) fault w')
    (rejected : w.settings.chosen? given = .error f) : w' = w ∧ ∃ g, fault = some g := by
  cases moves with
  | refused => exact ⟨rfl, _, rfl⟩
  | rejected => exact ⟨rfl, _, rfl⟩
  | equilibrated _ chosen =>
    rw [chosen] at rejected
    cases rejected

/-- Calls made one after the other, with a sound workspace before and after each of them. -/
inductive Steps (start : Workspace ℝ) : Workspace ℝ → List (Step ℝ) → Prop
  | nil (w : Workspace ℝ) : Steps start w []
  | cons {w w' : Workspace ℝ} {call : Call ℝ} {fault : Option (Fault ℝ)} {steps : List (Step ℝ)}
      (before : Sound start w) (moves : Moves w call fault w') (after : Sound start w')
      (rest : Steps start w' steps) : Steps start w (⟨w, call, fault, w'⟩ :: steps)

/-- Whatever calls are made, they are made one after the other on sound workspaces. -/
theorem steps_history {start : Workspace ℝ} (setUp : start.Valid)
    (small : start.cones.extent < countLimit) {r : Run ℝ} (sound : Sound start r.workspace)
    (calls : List (Call ℝ)) : Steps start r.workspace (history calls r) := by
  induction calls generalizing r with
  | nil => exact .nil _
  | cons call calls ih =>
    have moves := sound.moves setUp small call
    have next := moves.sound setUp small sound
    exact .cons sound moves next (ih next)

namespace Steps

variable {start w : Workspace ℝ} {steps : List (Step ℝ)} (made : Steps start w steps)

include made

theorem of_mem {step : Step ℝ} (h : step ∈ steps) :
    Sound start step.before ∧ Moves step.before step.call step.fault step.after ∧
      Sound start step.after := by
  induction made with
  | nil => cases h
  | cons before moves after _ ih =>
    rcases List.mem_cons.1 h with rfl | later
    · exact ⟨before, moves, after⟩
    · exact ih later

theorem isChain_phases : (w.phase :: steps.map (·.after.phase)).IsChain Phase.Leads := by
  induction made with
  | nil => exact .singleton _
  | cons _ moves _ _ ih => exact .cons_cons moves.leads ih

theorem advances_prefix : steps.filterMap Step.advance? <+: w.phase.ahead := by
  induction made with
  | nil => exact List.nil_prefix
  | cons _ moves _ _ ih =>
    rcases moves.advance? with ⟨none, same⟩ | ⟨some, ahead⟩
    · rw [same] at ih
      simpa only [List.filterMap_cons, none] using ih
    · rw [ahead]
      simpa only [List.filterMap_cons, some, List.cons_prefix_cons, true_and] using ih

end Steps

/-- What calls on a workspace `w` that was just set up come to. -/
structure Lifecycle (w : Workspace ℝ) (steps : List (Step ℝ)) : Prop where
  phases : ((w :: steps.map Step.after).map phase).IsChain Phase.Leads
  /-- At most one equilibration and after it at most one way back succeed. -/
  successes : steps.filterMap Step.advance? <+: [.scaled, .unscaled]
  refused : ∀ step ∈ steps, step.before.phase ≠ step.call.phase →
    step.after = step.before ∧ ∃ f, step.fault = some f ∧ f.kind = .runtime
  rejected : ∀ step ∈ steps, ∀ given f, step.call = .equilibrate given →
    step.before.settings.chosen? given = .error f →
      step.after = step.before ∧ ∃ g, step.fault = some g
  /-- The bounds are in order; that there are no fewer than zero passes is in their type. -/
  settings : ∀ v ∈ w :: steps.map Step.after,
    Admissible v.settings.minScaling v.settings.maxScaling
  /-- Until it is equilibrated, a workspace keeps its data and sets and has unit factors. -/
  raw : ∀ v ∈ w :: steps.map Step.after, v.phase = .raw →
    v.data = w.data ∧ v.cones = w.cones ∧ v.scaling = .identity w.n w.m
  inverts : ∀ v ∈ w :: steps.map Step.after, v.phase ≠ .raw → v.scaling.Inverts w.m w.n

theorem kind_refusal (found : Phase) (call : Call ℝ) : (call.refusal found).kind = .runtime := by
  cases call <;> rfl

theorem sound_setUp {p : Submission ℝ} (wellFormed : p.WellFormed) {journal after : Journal ℝ}
    {w : Workspace ℝ} (ran : (setUp p).run journal = .ok w after)
    (small : w.cones.extent < countLimit) : w.Valid ∧ w.phase = .raw ∧ Sound w w := by
  obtain ⟨valid, raw, scaling⟩ := valid_setUp ran wellFormed
  exact ⟨valid, raw, {
    data := valid.data
    scaling := valid.scaling
    iterates := valid.iterates
    fits := valid.fits small
    raw := fun _ => ⟨rfl, rfl, scaling⟩
    inverts := fun other => absurd raw other }⟩

/-- Whatever calls are made on a workspace, and however they end, it goes through its phases in
order and is sound in each of them. -/
theorem lifecycle {p : Submission ℝ} (wellFormed : p.WellFormed) {journal after : Journal ℝ}
    {w : Workspace ℝ} (ran : (setUp p).run journal = .ok w after)
    (small : w.cones.extent < countLimit) {calls : List (Call ℝ)} :
    Lifecycle w (history calls ⟨w, after⟩) := by
  obtain ⟨valid, raw, sound⟩ := sound_setUp wellFormed ran small
  have made := steps_history (r := ⟨w, after⟩) valid small sound calls
  have reached : ∀ v ∈ w :: (history calls ⟨w, after⟩).map Step.after, Sound w v := by
    intro v hv
    rcases List.mem_cons.1 hv with rfl | later
    · exact sound
    · obtain ⟨step, h, rfl⟩ := List.mem_map.1 later
      exact (made.of_mem h).2.2
  constructor
  case phases =>
    rw [List.map_cons, List.map_map]
    exact made.isChain_phases
  case successes =>
    have advances := made.advances_prefix
    rwa [raw] at advances
  case refused =>
    intro step h other
    obtain ⟨same, fault⟩ := (made.of_mem h).2.1.of_other other
    exact ⟨same, _, fault, kind_refusal _ _⟩
  case rejected =>
    intro step h given f call rejected
    have moves := (made.of_mem h).2.1
    rw [call] at moves
    exact moves.of_rejected rejected
  case settings => exact fun v _ => v.settings.admissible
  case raw => exact fun v hv => (reached v hv).raw
  case inverts => exact fun v hv => (reached v hv).inverts

/-- A problem with one variable and two rows, and a value for the variable. -/
noncomputable def narrow : Submission ℝ where
  P := .stored (.real .double (.dense 1 #[#[1]]))
  q := .ofVector #[1]
  A := .stored (.real .double (.dense 1 #[#[1], #[-1]]))
  b := .ofVector #[0, 1]
  cones := .sequence [.set (.block (.box #[-1] #[1])), .set (.block (.nonnegative 1))]
  settings := .settings .standard
  x := some (.ofVector #[-1])
  s := none
  mu := none

theorem wellFormed_narrow : narrow.WellFormed where
  P := by simp [narrow, Operand.WellFormed, Numbers.Holds, Storage.WellFormed]
  A := by simp [narrow, Operand.WellFormed, Numbers.Holds, Storage.WellFormed]
  cones := by
    intro c hc
    simp only [List.mem_cons, Member.set.injEq, List.not_mem_nil, or_false] at hc
    rcases hc with rfl | rfl <;> simp [Cone.Balanced, Cone.leaves, Block.Balanced]

/-- Calls in wrong phases, with vectors that are too long and with settings that are rejected,
among others. -/
noncomputable def clumsy : List (Call ℝ) :=
  [.reverse, .warmStart (some (.ofVector #[1, 1])) none none,
    .equilibrate (some (.value (.record [("scaling", .integer (-1))]))), .equilibrate none,
    .equilibrate none, .warmStart none none none, .reverse, .reverse]

theorem lifecycle_clumsy : ∃ w after, (setUp narrow).run #[] = .ok w after ∧
    Lifecycle w (history clumsy ⟨w, after⟩) := by
  refine ⟨_, _, rfl, lifecycle wellFormed_narrow
    (show (setUp narrow).run #[] = _ from rfl) ?_⟩
  decide

end Workspace

end ConicScaling
