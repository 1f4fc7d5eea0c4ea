import ConicScaling.Proofs.Absorption

/-!
# Propagation of not-a-number

A stored not-a-number becomes the norm of its row and of its column. No limit replaces it, so the
first pass leaves it in the factors of both lines and in the vectors that these multiply, and no
later step removes it. A block that needs its rows scaled alike takes it over for all its rows. Nor
does it keep equilibration from reaching its end.
-/
namespace ConicScaling

open Scalar Procedure

variable {α : Type} [Scalar α]

/-! ## Entries of vectors -/

/-- Whether not-a-number stands at a place of a vector. -/
def NaNAt (v : Array α) (i : Nat) : Prop := ∃ h : i < v.size, isNaN v[i]

theorem NaNAt.exists {v : Array α} {i : Nat} (h : NaNAt v i) : ∃ x ∈ v, isNaN x := by
  obtain ⟨inside, absent⟩ := h
  exact ⟨v[i], Array.getElem_mem inside, absent⟩

theorem NaNAt.map {v : Array α} {i : Nat} (h : NaNAt v i) {f : α → α}
    (absorbs : ∀ x, isNaN x → isNaN (f x)) : NaNAt (v.map f) i := by
  obtain ⟨inside, absent⟩ := h
  exact ⟨by simpa using inside, by simpa using absorbs _ absent⟩

/-- Wherever the first vector has not-a-number, the second one has it. -/
def Spreads (v w : Array α) : Prop := ∀ i, NaNAt v i → NaNAt w i

theorem Spreads.refl (v : Array α) : Spreads v v := fun _ => id

theorem Spreads.trans {u v w : Array α} (first : Spreads u v) (second : Spreads v w) :
    Spreads u w := fun i h => second i (first i h)

section Products

variable [Absorbing α] {d v : Array α}

theorem NaNAt.times {i : Nat} (size : d.size = v.size) (h : NaNAt d i ∨ NaNAt v i) :
    NaNAt (Diagonal.times d v) i := by
  have inside : i < d.size := h.elim (·.1) fun h => size ▸ h.1
  refine ⟨by rwa [Diagonal.size_times size, ← size], ?_⟩
  simp only [Diagonal.times, Array.getElem_zipWith]
  exact Absorbing.mul (h.symm.imp (·.2) (·.2))

theorem spreads_map_mul (v : Array α) (c : α) : Spreads v (v.map (· * c)) := fun _ h =>
  h.map fun _ absent => Absorbing.mul (.inl absent)

theorem NaNAt.reciprocal {i : Nat} (h : NaNAt v i) : NaNAt (v.map Scalar.reciprocal) i :=
  h.map fun _ absent => Absorbing.div (.inr absent)

theorem spreads_times (size : d.size = v.size) : Spreads v (Diagonal.times d v) := fun _ h =>
  .times size (.inr h)

theorem NaNAt.factors [Ordered α] {i : Nat} (h : NaNAt v i) (l : Limiter α) :
    NaNAt (Workspace.factors l v) i := by
  have limited : NaNAt (l.limitVector v) i := h.map fun _ => l.isNaN_limitEntry
  exact limited.map fun _ absent => Absorbing.div (.inr (Absorbing.sqrt absent))

end Products

/-- A diagonal that scales a vector leaves every not-a-number in it. -/
theorem Diagonal.spreads_applied [Absorbing α] {d : Diagonal α} {v : Array α}
    (spans : d.Spans v.size) : Spreads v (d.applied v) := by
  cases d with
  | identity => exact .refl v
  | entries d => exact spreads_times spans

/-! ## Norms -/

/-- A norm does not pass over not-a-number. -/
theorem Storage.naNAt_norms [Ordered α] {S : Storage α} {axis : Axis} {out : Array α} {l : Nat}
    (inside : l < out.size)
    (h : NaNAt out l ∨ ∃ e ∈ S.entries, e.along axis = l ∧ isNaN e.value) :
    NaNAt (S.norms Scalar.abs axis out) l := by
  have size : (S.norms Scalar.abs axis out).size = out.size := size_norms Scalar.abs axis S out
  have largest := isLargest_foldl S.isLargest_larger (out.getD l 0)
    ((S.entries.filter fun e => e.along axis = l).map fun e => Scalar.abs e.value)
  rw [← getD_norms S Scalar.abs axis inside] at largest
  have met : isNaN ((S.norms Scalar.abs axis out).getD l 0) := by
    rcases h with ⟨_, absent⟩ | ⟨e, he, own, absent⟩
    · exact largest.isNaN_iff.2 ⟨_, .inl rfl, by simpa [inside] using absent⟩
    · refine largest.isNaN_iff.2 ⟨Scalar.abs e.value, .inr ?_, isNaN_abs absent⟩
      exact List.mem_map.2 ⟨e, List.mem_filter.2 ⟨he, decide_eq_true own⟩, rfl⟩
  exact ⟨size ▸ inside, by simpa [size, inside] using met⟩

namespace Data

variable {d : Data (DataMatrix α) α} {m n : Nat} {e : Entry α}

section Norms

variable [Ordered α] (h : d.Shaped m n) (absent : isNaN e.value)

include h absent

theorem Shaped.naNAt_columnNorms (he : e ∈ d.P.storage.entries ∨ e ∈ d.A.storage.entries) :
    NaNAt d.columnNorms e.col := by
  have inside : e.col < n := by
    rcases he with he | he
    · exact h.columnsP ▸ h.wellFormedP.along_lt_count .column he
    · exact h.columnsA ▸ h.wellFormedA.along_lt_count .column he
  refine Storage.naNAt_norms (h.size_objectiveNorms.symm ▸ inside)
    (he.imp (fun he => ?_) fun he => ?_)
  · exact Storage.naNAt_norms (by simpa [h.columnsP] using inside) (.inr ⟨e, he, rfl, absent⟩)
  · exact ⟨e, he, rfl, absent⟩

theorem Shaped.naNAt_rowNorms (he : e ∈ d.A.storage.entries) : NaNAt d.rowNorms e.row := by
  have inside : e.row < d.A.storage.count .row := h.wellFormedA.along_lt_count .row he
  exact Storage.naNAt_norms (by simpa using inside) (.inr ⟨e, he, rfl, absent⟩)

end Norms

/-- A factor for the objective is one more product. -/
theorem spreads_q_scaled [Absorbing α] (D E : Diagonal α) (c : α) :
    Spreads (D.applied d.q) (d.scaled D E c).q := by
  unfold scaled
  split
  · exact .refl _
  · exact spreads_map_mul _ c

theorem b_scaled (D E : Diagonal α) (c : α) : (d.scaled D E c).b = E.applied d.b := by
  unfold scaled
  split <;> rfl

end Data

/-! ## Stages -/

namespace Stage

/-- No not-a-number of one stage is missing in another. -/
structure Carries (s t : Stage α) : Prop where
  D : Spreads s.D t.D
  E : Spreads s.E t.E
  q : Spreads s.data.q t.data.q
  b : Spreads s.data.b t.data.b

theorem Carries.refl (s : Stage α) : s.Carries s := ⟨.refl _, .refl _, .refl _, .refl _⟩

theorem Carries.trans {s t u : Stage α} (first : s.Carries t) (second : t.Carries u) :
    s.Carries u where
  D := first.D.trans second.D
  E := first.E.trans second.E
  q := first.q.trans second.q
  b := first.b.trans second.b

theorem carries_symmetrized (s : Stage α) : s.Carries s.symmetrized := by
  unfold symmetrized
  split <;> exact ⟨.refl _, .refl _, .refl _, .refl _⟩

theorem carries_finished (s : Stage α) (l : Limiter α) (cones : Cone α) (k : Nat) :
    ((s.passes l k).rectified cones).Carries (s.finished l cones k) := by
  simp only [finished]
  split
  · exact carries_symmetrized _
  · exact .refl _

variable [Absorbing α] {s : Stage α} {m n : Nat}

theorem carries_recosted (l : Limiter α) (s : Stage α) : s.Carries (s.recosted l) := by
  unfold recosted
  split
  · exact ⟨.refl _, .refl _, spreads_map_mul _ _, .refl _⟩
  · exact .refl s

section Shaped

variable (h : s.Shaped m n) (l : Limiter α)

include h

theorem Shaped.carries_balanced : s.Carries (s.balanced l) where
  D := spreads_times ((h.size_columnFactors l).trans h.sizeD.symm)
  E := spreads_times ((h.size_rowFactors l).trans h.sizeE.symm)
  q := (Diagonal.spreads_applied (Diagonal.spans_entries
    ((h.size_columnFactors l).trans h.data.sizeq.symm))).trans (Data.spreads_q_scaled _ _ _)
  b := by
    rw [Stage.balanced, Data.b_scaled]
    exact Diagonal.spreads_applied (Diagonal.spans_entries
      ((h.size_rowFactors l).trans h.data.sizeb.symm))

theorem Shaped.carries_pass : s.Carries (s.pass l) :=
  (h.carries_balanced l).trans (carries_recosted l _)

theorem Shaped.carries_passes (k : Nat) : s.Carries (s.passes l k) := by
  induction k generalizing s with
  | zero => exact .refl s
  | succ k ih => exact (h.carries_pass l).trans (ih (h.pass l))

theorem Shaped.carries_rectified (cones : Cone α) : s.Carries (s.rectified cones) := by
  unfold Stage.rectified
  cases found : s.correction? cones with
  | none => exact .refl s
  | some e =>
    have size := h.size_correction found
    refine ⟨.refl _, spreads_times (size.trans h.sizeE.symm),
      Data.spreads_q_scaled .identity _ _, ?_⟩
    rw [Data.b_scaled]
    exact Diagonal.spreads_applied (Diagonal.spans_entries (size.trans h.data.sizeb.symm))

variable [Ordered α]

/-- A norm that is not-a-number gets into the factor of its line and into the vector that this
multiplies. -/
theorem Shaped.naNAt_balanced_column {j : Nat} (norm : NaNAt s.data.columnNorms j) :
    NaNAt (s.balanced l).D j ∧ NaNAt (s.balanced l).data.q j := by
  have factor : NaNAt (s.columnFactors l) j := norm.factors l
  have size := h.size_columnFactors l
  exact ⟨.times (size.trans h.sizeD.symm) (.inl factor), Data.spreads_q_scaled _ _ _ j
    (.times (size.trans h.data.sizeq.symm) (.inl factor))⟩

theorem Shaped.naNAt_balanced_row {i : Nat} (norm : NaNAt s.data.rowNorms i) :
    NaNAt (s.balanced l).E i ∧ NaNAt (s.balanced l).data.b i := by
  have factor : NaNAt (s.rowFactors l) i := norm.factors l
  have size := h.size_rowFactors l
  refine ⟨.times (size.trans h.sizeE.symm) (.inl factor), ?_⟩
  rw [Stage.balanced, Data.b_scaled]
  exact .times (size.trans h.data.sizeb.symm) (.inl factor)

end Shaped

section Blocks

variable [Ordered α] {cones : Cone α} (small : cones.extent < countLimit)
  (size : s.E.size = cones.extent) {i : Nat} {b : Block α} (placed : (i, b) ∈ cones.placed)
  (needed : b.uniformScaling = true) (several : 2 ≤ b.dim)

include small size placed needed several

/-- With not-a-number among its factors, a block that needs its rows scaled alike is corrected. -/
theorem correction?_of_naNAt (lost : ∃ x ∈ s.E.extract i (i + b.dim), isNaN x) :
    s.correction? cones = some (cones.corrections s.E).2 ∧
      (cones.corrections s.E).2.extract i (i + b.dim) = correction (s.E.extract i (i + b.dim)) := by
  have rows := Cone.size_extract_of_placed size placed
  have uneven := isUniform_of_isNaN lost (by omega)
  have uniform : cones.uniformScaling = true := by
    rw [Cone.uniformScaling_eq_any, List.any_eq_true]
    exact ⟨b, Block.mem_of_placed placed, needed⟩
  have changed : (cones.corrections s.E).1 = true := by
    rw [Cone.corrections_eq small size, Block.fst_correctedFrom]
    exact ⟨i, b, placed, by rw [Block.fst_corrected, needed, uneven]; rfl⟩
  constructor
  · rw [correction?, uniform, changed]
    rfl
  · rw [Cone.extract_corrections small size placed, Block.corrected, needed, uneven]
    rfl

/-- The correction makes all factors of the block not-a-number. -/
theorem naNAt_rectified {k : Nat} (low : i ≤ k) (high : k < i + b.dim) (lost : NaNAt s.E k)
    {l : Nat} (low' : i ≤ l) (high' : l < i + b.dim) : NaNAt (s.rectified cones).E l := by
  obtain ⟨inside, absent⟩ := lost
  have within : i + b.dim ≤ s.E.size := size ▸ Cone.le_extent_of_placed placed
  have lost : ∃ x ∈ s.E.extract i (i + b.dim), isNaN x :=
    ⟨_, getElem_mem_extract inside low high, absent⟩
  obtain ⟨found, part⟩ := correction?_of_naNAt small size placed needed several lost
  have sizes : (cones.corrections s.E).2.size = s.E.size := by simp [Cone.corrections]
  have here : l < (cones.corrections s.E).2.size := by omega
  have corrected : NaNAt (cones.corrections s.E).2 l := by
    refine ⟨here, isNaN_of_mem_correction lost _ ?_⟩
    rw [← part]
    exact getElem_mem_extract here low' high'
  rw [rectified, found]
  exact .times sizes (.inl corrected)

end Blocks

end Stage

/-! ## Workspaces -/

namespace Workspace

/-- The factor of a column, its inverse, and what it scales, are not-a-number. -/
structure LosesColumn (w : Workspace α) (j : Nat) : Prop where
  D : NaNAt w.scaling.D j
  Dinv : NaNAt w.scaling.Dinv j
  q : NaNAt w.data.q j
  x : NaNAt w.iterates.x j

/-- The factor of a row and the iterates that it scales are not-a-number. -/
structure LosesFactor (w : Workspace α) (i : Nat) : Prop where
  E : NaNAt w.scaling.E i
  Einv : NaNAt w.scaling.Einv i
  s : NaNAt w.iterates.s i
  mu : NaNAt w.iterates.mu i

/-- What was not-a-number in the first workspace is not hidden in the second one. -/
structure KeepsNaN (w w' : Workspace α) : Prop where
  P : ∀ e ∈ w.data.P.storage.entries, isNaN e.value → w'.LosesColumn e.col
  A : ∀ e ∈ w.data.A.storage.entries, isNaN e.value →
    w'.LosesColumn e.col ∧ w'.LosesFactor e.row ∧ NaNAt w'.data.b e.row
  /-- The rows of a block that have to be scaled alike share it. -/
  block : ∀ e ∈ w.data.A.storage.entries, isNaN e.value → ∀ i b, (i, b) ∈ w.cones.placed →
    b.uniformScaling = true → 2 ≤ b.dim → i ≤ e.row → e.row < i + b.dim →
    ∀ k, i ≤ k → k < i + b.dim → w'.LosesFactor k

variable [Absorbing α] {w : Workspace α} (valid : w.Valid)

include valid

theorem Valid.losesColumn {j : Nat} (D : NaNAt w.final.D j) (q : NaNAt w.final.data.q j) :
    w.equilibrated.LosesColumn j where
  D := D
  Dinv := D.reciprocal
  q := q
  x := .times (valid.sized_scaledTo.Dinv.trans valid.iterates.x.symm) (.inl D.reciprocal)

theorem Valid.losesFactor {i : Nat} (E : NaNAt w.final.E i) : w.equilibrated.LosesFactor i where
  E := E
  Einv := E.reciprocal
  s := .times (valid.sized_scaledTo.E.trans valid.iterates.s.symm) (.inl E)
  mu := spreads_map_mul _ _ _
    (.times (valid.sized_scaledTo.Einv.trans valid.iterates.mu.symm) (.inl E.reciprocal))

variable (passing : 0 < w.settings.passes)

include passing

/-- What the first pass brings into the scaling is still there after the last one. -/
theorem Valid.carries_lastPass :
    ((Stage.start w.data).balanced w.settings.limiter).Carries w.lastPass := by
  obtain ⟨k, more⟩ := Nat.exists_eq_succ_of_ne_zero passing.ne'
  rw [lastPass, more]
  exact (Stage.carries_recosted _ _).trans
    ((valid.shaped_start.pass _).carries_passes _ k)

theorem Valid.keepsNaN [Ordered α] (small : w.cones.extent < countLimit) :
    w.KeepsNaN w.equilibrated := by
  have start := valid.shaped_start
  have last := start.passes w.settings.limiter w.settings.passes
  have carried := valid.carries_lastPass passing
  have finished : w.lastPass.Carries w.final := (last.carries_rectified w.cones).trans
    (Stage.carries_finished _ _ _ _)
  have column (e : Entry α) (absent : isNaN e.value)
      (he : e ∈ w.data.P.storage.entries ∨ e ∈ w.data.A.storage.entries) :
      w.equilibrated.LosesColumn e.col := by
    obtain ⟨D, q⟩ := start.naNAt_balanced_column w.settings.limiter
      (valid.data.naNAt_columnNorms absent he)
    have carried := carried.trans finished
    exact valid.losesColumn (carried.D _ D) (carried.q _ q)
  have row (e : Entry α) (absent : isNaN e.value) (he : e ∈ w.data.A.storage.entries) :=
    start.naNAt_balanced_row w.settings.limiter (valid.data.naNAt_rowNorms absent he)
  constructor
  case P =>
    intro e he absent
    exact column e absent (.inl he)
  case A =>
    intro e he absent
    obtain ⟨E, b⟩ := row e absent he
    have carried := carried.trans finished
    exact ⟨column e absent (.inr he), valid.losesFactor (carried.E _ E), carried.b _ b⟩
  case block =>
    intro e he absent i b placed needed several low high k low' high'
    have size : w.lastPass.E.size = w.cones.extent := last.sizeE.trans (valid.extent small).symm
    -- the rectification starts from what the passes have left in the row
    have lost := carried.E _ (row e absent he).1
    refine valid.losesFactor ?_
    rw [final, Stage.E_finished]
    exact Stage.naNAt_rectified small size placed needed several low high lost low' high'

end Workspace

/-! ## The cost factor -/

section Cost

variable [Ordered α] [Absorbing α]

theorem isNaN_costFactor {maxNorm : α} (h : isNaN maxNorm) (l : Limiter α) (meanNorm : α) :
    isNaN (Workspace.costFactor l maxNorm meanNorm) := by
  have limited := l.isNaN_limit h
  have raised : raise (l.limit maxNorm) meanNorm = l.limit maxNorm :=
    if_neg (not_lt_of_isNaN (.inl limited))
  rw [Workspace.costFactor, raised]
  exact Absorbing.div (.inr (l.isNaN_limit limited))

namespace Stage

variable {s : Stage α} {m n : Nat}

/-- Not-a-number in `q` either keeps the objective from being scaled or makes the factor
not-a-number. -/
theorem same_cost_recosted (l : Limiter α) (lost : ∃ j, NaNAt s.data.q j)
    (nonzero : same s.progress.cost 0 = false) :
    same (s.recosted l).progress.cost 0 = false := by
  unfold recosted
  cases found : s.data.costFactor? l with
  | none => exact nonzero
  | some factor =>
    obtain ⟨j, lost⟩ := lost
    refine same_of_isNaN (Absorbing.mul (.inr ?_)) 0
    rw [Data.eq_of_costFactor? found]
    exact isNaN_costFactor (isNaN_infNorm lost.exists) _ _

theorem Shaped.same_cost_passes (h : s.Shaped m n) (l : Limiter α)
    (lost : ∃ j, NaNAt s.data.q j) (nonzero : same s.progress.cost 0 = false) (k : Nat) :
    same (s.passes l k).progress.cost 0 = false := by
  induction k generalizing s with
  | zero => exact nonzero
  | succ k ih =>
    have lost : ∃ j, NaNAt (s.balanced l).data.q j := lost.imp (h.carries_balanced l).q
    exact ih (h.pass l) (lost.imp (carries_recosted l _).q) (same_cost_recosted l lost nonzero)

end Stage

end Cost

namespace Workspace

section Reach

variable [Absorbing α] [Ordered α] {r : Run α} {given : Option (Source α)} {s : Settings α}
  (valid : r.workspace.Valid) (raw : r.workspace.phase = .raw)
  (small : r.workspace.cones.extent < countLimit)
  (chosen : r.workspace.settings.chosen? given = .ok s) (passing : 0 < s.passes)

include valid raw small chosen passing

/-- Not-a-number in the matrices does not keep equilibration from reaching its end. -/
theorem run_equilibrate_of_isNaN (nonzero : same (1 : α) 0 = false) {e : Entry α}
    (he : e ∈ r.workspace.data.P.storage.entries ∨ e ∈ r.workspace.data.A.storage.entries)
    (absent : isNaN e.value) :
    ∃ report journal, (equilibrate given).run r =
      .ok report ⟨{ r.workspace with settings := s }.equilibrated, journal⟩ := by
  refine run_equilibrate_of_nonzero valid raw (valid.fits small) chosen ?_
  have start := valid.shaped_start
  obtain ⟨-, q⟩ := start.naNAt_balanced_column s.limiter (valid.data.naNAt_columnNorms absent he)
  obtain ⟨k, more⟩ := Nat.exists_eq_succ_of_ne_zero passing.ne'
  rw [progress_final, lastPass, more]
  have lost : ∃ j, NaNAt ((Stage.start r.workspace.data).balanced s.limiter).data.q j := ⟨_, q⟩
  exact (start.pass s.limiter).same_cost_passes s.limiter
    (lost.imp (Stage.carries_recosted s.limiter _).q)
    (Stage.same_cost_recosted s.limiter lost nonzero) k

/-- Where the rows of the sets can be counted and there is some pass, equilibration hides no
not-a-number that the data contain. -/
theorem equilibrate_keeps_nan {report : Report α} {r' : Run α}
    (ran : (equilibrate given).run r = .ok report r') : r.workspace.KeepsNaN r'.workspace := by
  have valid' := valid.with_settings s
  obtain ⟨journal, fitting, -⟩ :=
    run_equilibrateChosen (r := { r with workspace.settings := s }) valid'
  rw [run_equilibrate_of_chosen raw chosen, fitting (valid.fits small)] at ran
  split at ran
  · cases ran
  · cases ran
    exact { valid'.keepsNaN passing small with }

end Reach

/-- Not-a-number in a column of `P`, and in a row of `A` that belongs to a second-order cone. -/
def spoiled : Run Double.Guarded where
  workspace := fresh
    { P := ⟨.double, .sparse .column 2 #[[(0, 1)], [(1, nan)]]⟩
      A := ⟨.single, .sparse .row 2 #[[(1, 1)], [(0, 1)], [(0, nan), (1, 1)], []]⟩
      q := #[1, 0]
      b := #[1, 0, 1, 1] }
    (.product [.block (.zero 1), .product [.block (.secondOrder 3)]]) .standard
  journal := #[]

theorem valid_spoiled : spoiled.workspace.Valid where
  data := by
    constructor <;> simp [spoiled, fresh, Storage.WellFormed, Storage.count, m, n]
    grind
  scaling := by constructor <;> rfl
  iterates := by constructor <;> rfl
  dim := rfl
  balanced := by
    intro b hb
    simp only [spoiled, fresh, Cone.leaves, Cone.leavesOf, List.cons_append, List.nil_append,
      List.append_nil, List.mem_cons, List.not_mem_nil, or_false] at hb
    rcases hb with rfl | rfl <;> trivial

theorem equilibrate_keeps_nan_spoiled :
    spoiled.workspace.Valid ∧ spoiled.workspace.cones.extent < countLimit ∧
    ∃ report r', (equilibrate none).run spoiled = .ok report r' ∧
      spoiled.workspace.KeepsNaN r'.workspace ∧ r'.workspace.LosesColumn 1 ∧
      r'.workspace.LosesFactor 3 := by
  have small : spoiled.workspace.cones.extent < countLimit := by decide
  have absent : isNaN (nan : Double.Guarded) := by decide +kernel
  have nonzero : same (1 : Double.Guarded) 0 = false := by decide +kernel
  have chosen : spoiled.workspace.settings.chosen? none = .ok .standard := rfl
  have stored : ⟨2, 0, nan⟩ ∈ spoiled.workspace.data.A.storage.entries := by
    simp [spoiled, fresh, Storage.entries, Axis.position]
  obtain ⟨report, journal, ran⟩ := run_equilibrate_of_isNaN valid_spoiled rfl small chosen
    (by decide) nonzero (.inr stored) absent
  have keeps := equilibrate_keeps_nan valid_spoiled rfl small chosen (by decide) ran
  refine ⟨valid_spoiled, small, report, _, ran, keeps, ?_, ?_⟩
  · exact keeps.P ⟨1, 1, nan⟩ (by simp [spoiled, fresh, Storage.entries, Axis.position]) absent
  · refine keeps.block _ stored absent 1 (.secondOrder 3) ?_ rfl ?_ ?_ ?_ 3 ?_ ?_
    all_goals
      simp [spoiled, fresh, Cone.placed, Cone.leaves, Cone.leavesOf, Block.placed, Block.dim]

end Workspace

end ConicScaling
