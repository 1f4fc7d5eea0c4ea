import ConicScaling.Proofs.Evenness
import ConicScaling.Proofs.Independence
import ConicScaling.Proofs.Resubmission

/-!
# Continuing an equilibration

A pass depends on the data alone, so passes may be interrupted: a workspace that is set up on what
an equilibration left, and equilibrated in turn, ends where a single equilibration with all the
passes ends. Nothing has to be rectified or made symmetric on the way where no set needs its rows
scaled alike and `P` is symmetric. The factors of the two runs multiply.
-/
namespace ConicScaling

/-! ## Products of diagonals -/

namespace Diagonal

theorem times_times (e d v : Array ℝ) : times e (times d v) = times (times e d) v := by
  apply Array.ext
  · simp [times, min_assoc]
  · intro i _ _
    simp [times, mul_assoc]

theorem times_map_mul (c : ℝ) (d v : Array ℝ) :
    times d (v.map (· * c)) = (times d v).map (· * c) := by
  apply Array.ext
  · simp [times]
  · intro i _ _
    simp only [times, Array.getElem_zipWith, Array.getElem_map]
    exact mul_right_comm ..

theorem map_reciprocal_times (d v : Array ℝ) :
    (times d v).map Scalar.reciprocal =
      times (d.map Scalar.reciprocal) (v.map Scalar.reciprocal) := by
  apply Array.ext
  · simp [times]
  · intro i _ _
    simp only [times, Array.getElem_zipWith, Array.getElem_map, Scalar.reciprocal_real]
    exact mul_inv ..

end Diagonal

theorem RowRange.read_times (rows : RowRange) {d v : Array ℝ} (size : d.size = v.size) :
    rows.read (Diagonal.times d v) = Diagonal.times (rows.read d) (rows.read v) := by
  have whole : (Diagonal.times d v).size = v.size := Diagonal.size_times size
  simp only [read, low, high, extract_times, whole, size]

/-! ## Boxes -/

/-- Factors that each stand for all rows multiply to one that does. -/
theorem Diagonal.expand_times (n : Nat) {d e : Array ℝ} (size : d.size = e.size) :
    expand n (times d e) = times (expand n d) (expand n e) := by
  by_cases one : e.size = 1
  · simp [expand, times, size, one]
  · simp [expand, times, size, one]

theorem Block.rescaled_rescaled {b : Block ℝ} {e f : Array ℝ} (size : f.size = e.size)
    (fits : b.Fits e.size) : (b.rescaled e).rescaled f = b.rescaled (Diagonal.times f e) := by
  rw [rescaled, dim_rescaled fits, rescaled, rescaled, Diagonal.expand_times _ size]
  cases b <;> simp [scaled, Diagonal.times_times]

namespace Cone

theorem scaledMembers_scaledMembers {e f : Array ℝ} (size : f.size = e.size)
    (members : List (Cone ℝ)) (rows : List RowRange) (fits : FitMembers e.size members rows)
    (each : ∀ c ∈ members, ∀ e f : Array ℝ, f.size = e.size → c.Fits e.size →
      (c.scaled e).scaled f = c.scaled (Diagonal.times f e)) :
    scaledMembers f (scaledMembers e members rows) rows =
      scaledMembers (Diagonal.times f e) members rows := by
  induction members generalizing rows with
  | nil => cases rows <;> rfl
  | cons c cs ih =>
    cases rows with
    | nil => rfl
    | cons r rest =>
      obtain ⟨first, fits⟩ := fits
      rw [← RowRange.size_read_eq_count] at first
      have same : (r.read f).size = (r.read e).size := by
        rw [RowRange.size_read_eq_count, RowRange.size_read_eq_count, size]
      have head := each c (by simp) _ _ same first
      have tail := ih rest fits fun d hd => each d (by simp [hd])
      simp only [scaledMembers, head, tail, RowRange.read_times r size]

/-- Boxes that are scaled twice are scaled by the products of the factors. -/
theorem scaled_scaled {c : Cone ℝ} {e f : Array ℝ} (size : f.size = e.size)
    (fits : c.Fits e.size) : (c.scaled e).scaled f = c.scaled (Diagonal.times f e) := by
  induction c using induction generalizing e f with
  | block b => rw [scaled, scaled, scaled, Block.rescaled_rescaled size fits]
  | product members ih =>
    rw [scaled, scaled, scaled, rows_scaledMembers fits]
    refine congrArg product (scaledMembers_scaledMembers size members _ fits ?_)
    exact fun c hc e f size fits => ih c hc size fits

end Cone

namespace Block

variable {e : Array ℝ} {start : Nat} {bs : List (Block ℝ)}

theorem balanced_scaled {b : Block ℝ} (h : b.Balanced) : (b.scaled e).Balanced := by
  cases b with
  | box lower upper =>
    have sizes : upper.size = lower.size := h
    simp [scaled, Balanced, Diagonal.times, sizes]
  | _ => trivial

theorem balanced_scaledFrom (h : ∀ b ∈ bs, b.Balanced) :
    ∀ b ∈ scaledFrom e start bs, b.Balanced := by
  induction bs generalizing start with
  | nil => simp [scaledFrom]
  | cons b bs ih =>
    have first := balanced_scaled (e := e.extract start (start + b.dim)) (h b (by simp))
    have rest : ∀ d ∈ scaledFrom e (start + b.dim) bs, d.Balanced :=
      ih fun d hd => h d (by simp [hd])
    simpa [scaledFrom] using ⟨first, rest⟩

theorem any_uniformScaling_scaledFrom :
    (scaledFrom e start bs).any uniformScaling = bs.any uniformScaling := by
  induction bs generalizing start with
  | nil => rfl
  | cons b bs ih => simp [scaledFrom, uniformScaling_scaled, ih]

end Block

namespace Cone

variable {c : Cone ℝ} {e : Array ℝ} (size : e.size = c.extent) (small : c.extent < countLimit)

include size small

theorem balanced_scaled (h : c.Balanced) : (c.scaled e).Balanced := by
  rw [Balanced, leaves_scaled size small]
  exact Block.balanced_scaledFrom h

theorem uniformScaling_scaled : (c.scaled e).uniformScaling = c.uniformScaling := by
  rw [uniformScaling_eq_any, uniformScaling_eq_any, leaves_scaled size small,
    Block.any_uniformScaling_scaledFrom]

end Cone

/-! ## Stages -/

namespace Stage

/-- The passes of `t` after those of `s`: the factors multiply. -/
noncomputable def continued (s t : Stage ℝ) : Stage ℝ where
  data := t.data
  D := Diagonal.times t.D s.D
  E := Diagonal.times t.E s.E
  progress := ⟨s.progress.cost * t.progress.cost, s.progress.costPasses + t.progress.costPasses⟩

variable {l : Limiter ℝ} {s t : Stage ℝ} {m n : Nat}

/-- A pass does not look at the factors that were accumulated before. -/
theorem pass_continued : (s.continued t).pass l = s.continued (t.pass l) := by
  have balanced : (s.continued t).balanced l = s.continued (t.balanced l) := by
    simp only [Stage.balanced, continued, columnFactors, rowFactors, Diagonal.times_times]
  rw [Stage.pass, balanced, Stage.pass, Stage.recosted, Stage.recosted]
  cases found : (t.balanced l).data.costFactor? l with
  | none => simp only [continued, found]
  | some factor => simp only [continued, found, mul_assoc, Nat.add_assoc]

theorem passes_continued (k : Nat) :
    (s.continued t).passes l k = s.continued (t.passes l k) := by
  induction k generalizing t with
  | zero => rfl
  | succ k ih => rw [Stage.passes, pass_continued, ih, Stage.passes]

theorem continued_start (h : s.Shaped m n) : s.continued (start s.data) = s := by
  have columns : s.D.size = s.data.A.storage.count .column := h.sizeD.trans h.data.columnsA.symm
  have rows : s.E.size = s.data.A.storage.count .row := h.sizeE.trans h.data.rowsA.symm
  simp [continued, start, ones, times_replicate_one columns, times_replicate_one rows]

theorem passes_add (k j : Nat) : s.passes l (k + j) = (s.passes l k).passes l j := by
  induction k generalizing s with
  | zero => simp [Stage.passes]
  | succ k ih => rw [Nat.succ_add, Stage.passes, ih, Stage.passes]

/-- The last of all passes are those that start anew from what the first ones left. -/
theorem passes_add_eq_continued (h : s.Shaped m n) (k j : Nat) :
    s.passes l (k + j) =
      (s.passes l k).continued ((start (s.passes l k).data).passes l j) := by
  rw [passes_add, ← passes_continued, continued_start (h.passes l k)]

/-- Where no set needs its rows scaled alike and `P` is symmetric, nothing is left to be done after
the passes. -/
theorem finished_start_of_symmetric {d : Data (DataMatrix ℝ) ℝ} (proper : l.Proper)
    (shaped : d.Shaped m n) (symmetric : ∀ i j, d.P.storage.value i j = d.P.storage.value j i)
    {cones : Cone ℝ} (free : cones.uniformScaling = false) (k : Nat) :
    (start d).finished l cones k = (start d).passes l k := by
  have last := (composed_start shaped).passes proper k
  have settled : ((start d).passes l k).symmetrized = (start d).passes l k :=
    if_pos (last.isSymmetric_iff.2 symmetric)
  simp [finished, rectified, correction?, free, settled]

end Stage

/-! ## Workspaces -/

namespace Settings

/-- The passes of one run are made in two runs, within the same bounds. -/
structure Splits (whole first second : Settings ℝ) : Prop where
  passes : whole.passes = first.passes + second.passes
  first : first.limiter = whole.limiter
  second : second.limiter = whole.limiter

end Settings

namespace Workspace

variable {w : Workspace ℝ}

/-- What one run leaves compared with what two runs leave one after the other. -/
structure Continues (first second whole : Workspace ℝ) : Prop where
  data : second.data = whole.data
  cones : second.cones = whole.cones
  iterates : second.iterates = whole.iterates
  D : whole.scaling.D = Array.zipWith (· * ·) first.scaling.D second.scaling.D
  E : whole.scaling.E = Array.zipWith (· * ·) first.scaling.E second.scaling.E
  c : whole.scaling.c = first.scaling.c * second.scaling.c

/-- Iterates that are mapped twice are mapped by the products of the factors. -/
theorem scaledIterates_scaledIterates (s t : Stage ℝ) (i : Iterates ℝ) :
    scaledIterates (w.scaledTo t).scaling (scaledIterates (w.scaledTo s).scaling i) =
      scaledIterates (w.scaledTo (s.continued t)).scaling i := by
  simp only [scaledIterates, scaledTo, reached, Stage.continued, Diagonal.map_reciprocal_times,
    Diagonal.times_times, Diagonal.times_map_mul, Array.map_map, Function.comp_def, mul_assoc]

/-- One run continues another one if its stage does. -/
theorem continues_equilibrated {first second whole : Workspace ℝ}
    (final : whole.final = first.final.continued second.final)
    (scaled : second.cones = first.equilibrated.cones) (cones : whole.cones = first.cones)
    (mapped : second.iterates = first.equilibrated.iterates)
    (iterates : whole.iterates = first.iterates)
    (size : second.final.E.size = first.final.E.size) (fits : first.cones.Fits first.final.E.size) :
    Continues first.equilibrated second.equilibrated whole.equilibrated where
  data := (congrArg Stage.data final).symm
  cones := by
    calc second.cones.scaled second.final.E
        = (first.cones.scaled first.final.E).scaled second.final.E := by rw [scaled]; rfl
      _ = first.cones.scaled (Diagonal.times second.final.E first.final.E) :=
          Cone.scaled_scaled size fits
      _ = whole.cones.scaled whole.final.E := by rw [cones, final]; rfl
  iterates := by
    have twice := scaledIterates_scaledIterates (w := first) first.final second.final first.iterates
    simp only [equilibrated, scaledTo, mapped, iterates, final] at twice ⊢
    exact twice
  D := congrArg Stage.D final
  E := congrArg Stage.E final
  c := congrArg (fun s => s.progress.cost) final

section Equilibrated

variable (valid : w.Valid) (fits : w.cones.Fits w.m)

include valid

theorem Valid.m_equilibrated : w.equilibrated.m = w.m := valid.shaped_final.data.rowsA

theorem Valid.n_equilibrated : w.equilibrated.n = w.n := valid.shaped_final.data.columnsA

include fits

/-- An equilibrated workspace can be set up again. -/
theorem Valid.resubmittable_equilibrated (kept : w.equilibrated.data.Kept)
    (product : ∃ members, w.cones = .product members) : w.equilibrated.Resubmittable where
  data := by
    rw [valid.m_equilibrated, valid.n_equilibrated]
    exact valid.shaped_final.data
  kept := kept
  iterates := by
    rw [valid.m_equilibrated, valid.n_equilibrated]
    exact sized_scaledIterates valid.sized_scaledTo valid.iterates
  product := by
    obtain ⟨members, product⟩ := product
    refine ⟨Cone.scaledMembers w.final.E members (Cone.rows members), ?_⟩
    refine (congrArg (Cone.scaled w.final.E) product).trans ?_
    rw [Cone.scaled]
  dim := by
    rw [valid.m_equilibrated, ← valid.dim]
    exact Cone.dim_scaled (valid.shaped_final.sizeE ▸ fits)

end Equilibrated

/-- Where no set needs its rows scaled alike and `P` is symmetric, equilibration ends with its last
pass. -/
theorem Valid.final_of_symmetric (valid : w.Valid) (free : w.cones.uniformScaling = false)
    (symmetric : ∀ i j, w.data.P.storage.value i j = w.data.P.storage.value j i) :
    w.final = (Stage.start w.data).passes w.settings.limiter w.settings.passes :=
  Stage.finished_start_of_symmetric w.settings.proper valid.data symmetric free _

/-- The matrix `P` stays symmetric. -/
theorem Valid.symmetric_final (valid : w.Valid)
    (symmetric : ∀ i j, w.data.P.storage.value i j = w.data.P.storage.value j i) (i j : Nat) :
    w.final.data.P.storage.value i j = w.final.data.P.storage.value j i := by
  have finished := valid.finished
  rw [finished.value_P i j, finished.value_P j i, symmetric j i]
  split <;> ring

/-- The stage that one run leads to is the one that two runs lead to. -/
theorem final_eq_continued {s t u : Settings ℝ} (valid : w.Valid)
    (small : w.cones.extent < countLimit) (free : w.cones.uniformScaling = false)
    (symmetric : ∀ i j, w.data.P.storage.value i j = w.data.P.storage.value j i)
    (splits : u.Splits s t)
    (valid₂ : ({ w with settings := s }.equilibrated.restarted t).Valid) :
    { w with settings := u }.final =
      { w with settings := s }.final.continued
        ({ w with settings := s }.equilibrated.restarted t).final := by
  have valid₁ := valid.with_settings s
  have free₂ : ({ w with settings := s }.equilibrated.restarted t).cones.uniformScaling = false :=
    (Cone.uniformScaling_scaled (valid₁.shaped_final.sizeE.trans (valid.extent small).symm)
      small).trans free
  have final₁ := valid₁.final_of_symmetric free symmetric
  have final₂ := valid₂.final_of_symmetric free₂ (valid₁.symmetric_final symmetric)
  have final := (valid.with_settings u).final_of_symmetric free symmetric
  have data : ({ w with settings := s }.equilibrated.restarted t).data =
      { w with settings := s }.final.data := rfl
  rw [final₂, data, final₁, final]
  simp only [restarted, fresh, splits.first, splits.second, splits.passes]
  exact Stage.passes_add_eq_continued (Stage.shaped_start valid.data) _ _

/-- Equilibrating in two runs, with a workspace set up in between, is equilibrating once. -/
theorem equilibrate_continues {p : Submission ℝ} (wellFormed : p.WellFormed)
    {journal after : Journal ℝ} (ran : (setUp p).run journal = .ok w after)
    (small : w.cones.extent < countLimit) (free : w.cones.uniformScaling = false)
    (symmetric : (w.data.P.storage.toMatrix w.n w.n).IsSymm)
    {first second whole : Option (Source ℝ)} {renewed : Source ℝ} {s t u v : Settings ℝ}
    (chosenFirst : w.settings.chosen? first = .ok s) (read : Settings.ofSource? renewed = .ok v)
    (chosenSecond : v.chosen? second = .ok t) (chosenWhole : w.settings.chosen? whole = .ok u)
    (splits : u.Splits s t) :
    ∃ report₁ r₁ w₂ report₂ r₂ report r,
      (equilibrate first).run ⟨w, after⟩ = .ok report₁ r₁ ∧
      (setUp (r₁.workspace.resubmitted renewed)).run r₁.journal = .ok w₂ r₁.journal ∧
      (equilibrate second).run ⟨w₂, r₁.journal⟩ = .ok report₂ r₂ ∧
      (equilibrate whole).run ⟨w, after⟩ = .ok report r ∧
      Continues r₁.workspace r₂.workspace r.workspace := by
  obtain ⟨valid, raw, -⟩ := valid_setUp ran wellFormed
  have fits := valid.fits small
  have values := (Storage.isSymm_toMatrix valid.data.wellFormedP valid.data.rowsP
    valid.data.columnsP).1 symmetric
  have valid₁ := valid.with_settings s
  obtain ⟨report₁, journal₁, ran₁⟩ := run_equilibrate_of_fits (r := ⟨w, after⟩) valid raw fits
    chosenFirst
  have kept : { w with settings := s }.equilibrated.data.Kept := by
    have evolves := takes_equilibrate (d := w.data) first ⟨w, after⟩ ⟨rfl, rfl⟩
    rw [ran₁] at evolves
    exact (kept_setUp ran wellFormed).evolves evolves
  have again := valid₁.resubmittable_equilibrated fits kept
    (Member.product_of_toProduct? (cones_setUp ran).1)
  have rows : { w with settings := s }.final.E.size = w.m := valid₁.shaped_final.sizeE
  have balanced := Cone.balanced_scaled (rows.trans (valid.extent small).symm) small valid.balanced
  have fits₂ := valid₁.fits_equilibrated fits
  rw [← valid₁.m_equilibrated] at fits₂
  obtain ⟨report₂, journal₂, ran₂⟩ := run_equilibrate_of_fits
    (r := ⟨{ w with settings := s }.equilibrated.restarted v, journal₁⟩) (again.valid balanced v)
    rfl fits₂ chosenSecond
  obtain ⟨report, journal, ranWhole⟩ := run_equilibrate_of_fits (r := ⟨w, after⟩) valid raw fits
    chosenWhole
  refine ⟨_, _, _, _, _, _, _, ran₁, again.run_setUp read, ran₂, ranWhole, ?_⟩
  have valid₂ := again.valid balanced t
  have final := final_eq_continued valid small free values splits valid₂
  refine continues_equilibrated final rfl rfl rfl rfl ?_ (rows ▸ fits)
  exact valid₂.shaped_final.sizeE.trans (valid₁.m_equilibrated.trans rows.symm)

/-- A workspace without sets that need their rows scaled alike, and with a symmetric `P`. -/
noncomputable def even (a : ℝ) : Workspace ℝ where
  data :=
    { P := ⟨.single, .sparse .column 2 #[[(0, a), (1, 1)], [(0, 1), (1, -a)]]⟩
      A := ⟨.double, .sparse .row 2 #[[(0, 1)], [(0, a), (1, -1)], []]⟩
      q := #[1, -a]
      b := #[1, 0, a] }
  cones := .product [.block (.box #[-1] #[1]), .product [.block (.nonnegative 1), .block (.zero 1)]]
  settings := .standard
  scaling := .identity 2 3
  iterates := ⟨#[1, -1], #[0, 1, a], #[1, a, 1]⟩
  phase := .raw

theorem resubmittable_even (a : ℝ) : (even a).Resubmittable where
  data := by
    constructor <;> simp [even, Storage.WellFormed, Storage.count, m, n] <;> grind
  kept := by
    constructor <;> constructor <;> simp [even, Storage.WellFormed, Storage.EverySlice,
      Slice.Canonical, Storage.layout] <;> grind
  iterates := by constructor <;> rfl
  product := ⟨_, rfl⟩
  dim := by
    refine Cone.dim_eq_extent ?_
    simp [even, Cone.extent, Cone.leaves, Cone.leavesOf, Block.dim, countLimit]

theorem balanced_even (a : ℝ) : (even a).cones.Balanced := by
  simp [Cone.Balanced, even, Cone.leaves, Cone.leavesOf, Block.Balanced]

noncomputable def passing (k : Nat) : Settings ℝ := { Settings.standard with passes := k }

theorem equilibrate_continues_even :
    ∃ w, (setUp ((even 4).resubmitted (.settings .standard))).run #[] = .ok w #[] ∧
      ∃ report₁ r₁ w₂ report₂ r₂ report r,
        (equilibrate (some (.settings (passing 2)))).run ⟨w, #[]⟩ = .ok report₁ r₁ ∧
        (setUp (r₁.workspace.resubmitted (.settings (passing 3)))).run r₁.journal =
          .ok w₂ r₁.journal ∧
        (equilibrate none).run ⟨w₂, r₁.journal⟩ = .ok report₂ r₂ ∧
        (equilibrate (some (.settings (passing 5)))).run ⟨w, #[]⟩ = .ok report r ∧
        Continues r₁.workspace r₂.workspace r.workspace := by
  have ran : (setUp ((even 4).resubmitted (.settings .standard))).run #[] =
      .ok ((even 4).restarted .standard) #[] := (resubmittable_even 4).run_setUp rfl
  have wellFormed := (resubmittable_even 4).wellFormed (balanced_even 4) (.settings .standard)
  refine ⟨_, ran, equilibrate_continues wellFormed ran ?_ rfl ?_ rfl rfl rfl rfl
    ⟨rfl, rfl, rfl⟩⟩
  · decide
  · ext i j
    simp only [Matrix.transpose_apply, Storage.toMatrix_apply]
    fin_cases i <;> fin_cases j <;>
      simp [even, restarted, fresh, Storage.value, Storage.entry]

end Workspace

end ConicScaling
