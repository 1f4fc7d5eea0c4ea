import ConicScaling.Proofs.Norms

/-!
# Convergence of the norms

With a symmetric `P` and no linear objective a pass only divides lines by the square roots of their
norms. An entry is at most as large as the norms of both lines it stands in, so after a pass no norm
exceeds one. From then on no factor is below one, so norms only grow, and one that is not limited
grows at least to its square root.
-/
namespace ConicScaling

/-! ## Limits and factors -/

theorem infNorm_of_zero {v : Array ℝ} (zero : ∀ x ∈ v, x = 0) : infNorm v = 0 := by
  obtain ⟨k, rfl⟩ : ∃ k, v = Array.replicate k 0 := ⟨_, Array.eq_replicate_iff.2 ⟨rfl, zero⟩⟩
  have magnitude : (Scalar.abs : ℝ → ℝ) 0 = 0 := abs_zero
  have first : (Array.replicate k (0 : ℝ)).getD 0 0 = 0 := by
    by_cases inside : 0 < k <;> simp [inside]
  rw [infNorm, Array.map_replicate, magnitude, largest, first]
  exact foldl_replicate (by simp) k

namespace Limiter.Proper

variable {l : Limiter ℝ} (h : l.Proper) {x : ℝ}

include h

theorem le_limit (bounded : x ≤ l.high) : x ≤ l.limit x := by
  unfold limit
  split
  · rename_i degenerate
    rw [h.degenerate_eq_one]
    exact degenerate.trans zero_le_one
  · simp [bounded]

theorem limit_le_one (bounded : x ≤ 1) : l.limit x ≤ 1 := by
  unfold limit
  split
  · exact h.degenerate_eq_one.le
  · simp [bounded, h.low_le_one]

theorem limit_eq_self (low : l.low ≤ x) (high : x ≤ l.high) : l.limit x = x := by
  have positive : ¬ x ≤ 0 := not_le.2 (h.low_pos.trans_le low)
  simp [limit, positive, low, high]

theorem limit_zero : l.limit 0 = 1 := by
  simp [limit, h.degenerate_eq_one]

/-- The factor of a line, one beyond the lines. -/
theorem weight_factors (norms : Array ℝ) (j : Nat) :
    (Diagonal.entries (Workspace.factors l norms)).weight j = (√(l.limit (norms.getD j 0)))⁻¹ := by
  by_cases inside : j < norms.size
  · have size : j < (Workspace.factors l norms).size := by simpa [Workspace.factors] using inside
    rw [Diagonal.weight_eq _ size]
    simp only [Workspace.factors, invSqrt, limitVector, Array.getElem_map, Scalar.reciprocal_real,
      limitEntry_real, Array.getD_eq_getD_getElem?, Array.getElem?_eq_getElem inside,
      Option.getD_some]
    rfl
  · simp [Diagonal.weight, Workspace.factors, inside, h.limit_zero]

end Limiter.Proper

/-- An entry divided by the square roots of two numbers that it does not exceed. -/
theorem abs_mul_inv_sqrt_le_one {x a b : ℝ} (ha : 0 < a) (hb : 0 < b) (left : |x| ≤ a)
    (right : |x| ≤ b) : |x * ((√a)⁻¹ * (√b)⁻¹)| ≤ 1 := by
  have root : |x| ≤ √a * √b := by
    rw [← Real.sqrt_mul ha.le]
    exact Real.le_sqrt_of_sq_le (by rw [sq]; exact mul_le_mul left right (abs_nonneg x) ha.le)
  have positive : 0 < √a * √b := mul_pos (Real.sqrt_pos.2 ha) (Real.sqrt_pos.2 hb)
  rw [← mul_inv, ← div_eq_mul_inv, abs_div, abs_of_pos positive]
  exact (div_le_one positive).2 root

/-- An entry that is divided by square roots, of which one is that of a number below one. -/
theorem abs_le_mul_sqrt {x a b v : ℝ} (ha : 0 < a) (le_one : a ≤ 1) (hb : 0 < b)
    (scaled : |x * ((√a)⁻¹ * (√b)⁻¹)| ≤ v) : |x| ≤ v * √b := by
  have rootb : 0 < √b := Real.sqrt_pos.2 hb
  have roota : 0 < √a := Real.sqrt_pos.2 ha
  have grows : 1 ≤ (√a)⁻¹ := (one_le_inv₀ roota).2 (Real.sqrt_le_one.2 le_one)
  rw [← div_le_iff₀ rootb]
  calc |x| / √b = |x * (√b)⁻¹| := by rw [abs_mul, abs_inv, abs_of_pos rootb, div_eq_mul_inv]
    _ ≤ (√a)⁻¹ * |x * (√b)⁻¹| := le_mul_of_one_le_left (abs_nonneg _) grows
    _ = |x * ((√a)⁻¹ * (√b)⁻¹)| := by
      rw [mul_left_comm x, abs_mul (√a)⁻¹, abs_of_pos (inv_pos.2 roota)]
    _ ≤ v := scaled

/-- How the norm of a line changes from one pass to the next. -/
structure Grows (low v v' : ℝ) : Prop where
  le : v ≤ v'
  sqrt_le : low ≤ v → √v ≤ v'
  zero : v = 0 → v' = 0

theorem grows_of_le_mul_sqrt {l : Limiter ℝ} (proper : l.Proper) {v v' : ℝ} (le_one : v ≤ 1)
    (nonneg : 0 ≤ v') (bound : v ≤ v' * √(l.limit v)) (zero : v = 0 → v' = 0) :
    Grows l.low v v' where
  le := by
    have root : √(l.limit v) ≤ 1 := Real.sqrt_le_one.2 (proper.limit_le_one le_one)
    exact bound.trans (mul_le_of_le_one_right nonneg root)
  sqrt_le := by
    intro unlimited
    have positive : 0 < v := proper.low_pos.trans_le unlimited
    rw [proper.limit_eq_self unlimited (le_one.trans proper.one_le_high)] at bound
    refine le_of_mul_le_mul_right ?_ (Real.sqrt_pos.2 positive)
    rwa [Real.mul_self_sqrt positive.le]
  zero := zero

/-! ## Lines -/

namespace Data

/-- The entries of `P` and `A` in one symmetric matrix: a line of it is a column of `P` on top of
`A`, or a row of `A`. -/
noncomputable def kkt (d : Data (DataMatrix ℝ) ℝ) : Nat ⊕ Nat → Nat ⊕ Nat → ℝ
  | .inl i, .inl j => d.P.storage.value i j
  | .inl j, .inr i => d.A.storage.value i j
  | .inr i, .inl j => d.A.storage.value i j
  | .inr _, .inr _ => 0

noncomputable def lineNorm (d : Data (DataMatrix ℝ) ℝ) : Nat ⊕ Nat → ℝ
  | .inl j => d.columnNorms.getD j 0
  | .inr i => d.rowNorms.getD i 0

variable {d : Data (DataMatrix ℝ) ℝ} {m n : Nat} (shaped : d.Shaped m n) (canonical : d.Canonical)

include shaped canonical

theorem lineNorm_le_iff (v : Nat ⊕ Nat) (bound : ℝ) :
    d.lineNorm v ≤ bound ↔ 0 ≤ bound ∧ ∀ u, |d.kkt u v| ≤ bound := by
  cases v with
  | inl j =>
    rw [lineNorm, columnNorms_le_iff shaped canonical, Sum.forall, forall_and]
    rfl
  | inr i =>
    rw [lineNorm, rowNorms_le_iff shaped canonical, Sum.forall]
    simp only [kkt, abs_zero]
    grind

theorem lineNorm_nonneg (v : Nat ⊕ Nat) : 0 ≤ d.lineNorm v :=
  ((lineNorm_le_iff shaped canonical v _).1 le_rfl).1

theorem abs_kkt_le (u v : Nat ⊕ Nat) : |d.kkt u v| ≤ d.lineNorm v :=
  ((lineNorm_le_iff shaped canonical v _).1 le_rfl).2 u

theorem lineNorm_column (j : Fin n) : d.lineNorm (.inl j) = d.columnNorm m n j :=
  toVector_columnNorms shaped canonical j

theorem lineNorm_row (i : Fin m) : d.lineNorm (.inr i) = d.rowNorm m n i :=
  toVector_rowNorms shaped canonical i

omit canonical in
/-- There is nothing to measure beyond the lines. -/
theorem lineNorm_of_le {v : Nat ⊕ Nat} (beyond : v.elim (n ≤ ·) (m ≤ ·)) : d.lineNorm v = 0 := by
  have columns := shaped.size_columnNorms
  have rows := shaped.size_rowNorms
  cases v with
  | inl j => simp [lineNorm, columns, not_lt.2 (show n ≤ j from beyond)]
  | inr i => simp [lineNorm, rows, not_lt.2 (show m ≤ i from beyond)]

end Data

/-! ## Passes -/

namespace Stage

variable {m n : Nat}

/-- A stage with symmetric `P` and no linear objective, where no position is stored twice. -/
structure Plain (s : Stage ℝ) (m n : Nat) : Prop where
  shaped : s.Shaped m n
  canonical : s.data.Canonical
  symmetric : ∀ i j, s.data.P.storage.value i j = s.data.P.storage.value j i
  q_zero : ∀ x ∈ s.data.q, x = 0

/-- What a line is multiplied by in the next pass. -/
noncomputable def factor (l : Limiter ℝ) (s : Stage ℝ) (v : Nat ⊕ Nat) : ℝ :=
  (√(l.limit (s.data.lineNorm v)))⁻¹

/-- Whether no line has a norm above a bound. -/
def NormsLE (s : Stage ℝ) (bound : ℝ) : Prop := ∀ v, s.data.lineNorm v ≤ bound

namespace Plain

variable {s : Stage ℝ} (h : s.Plain m n) {l : Limiter ℝ} (proper : l.Proper)

include h

theorem lineNorm_le_iff (v : Nat ⊕ Nat) (bound : ℝ) :
    s.data.lineNorm v ≤ bound ↔ 0 ≤ bound ∧ ∀ u, |s.data.kkt u v| ≤ bound :=
  Data.lineNorm_le_iff h.shaped.data h.canonical v bound

theorem lineNorm_nonneg (v : Nat ⊕ Nat) : 0 ≤ s.data.lineNorm v :=
  Data.lineNorm_nonneg h.shaped.data h.canonical v

theorem abs_kkt_le (u v : Nat ⊕ Nat) : |s.data.kkt u v| ≤ s.data.lineNorm v :=
  Data.abs_kkt_le h.shaped.data h.canonical u v

theorem kkt_symmetric (u v : Nat ⊕ Nat) : s.data.kkt u v = s.data.kkt v u := by
  rcases u with i | i <;> rcases v with j | j <;> simp only [Data.kkt]
  exact h.symmetric i j

/-- An entry is bounded by the norms of both lines that it stands in. -/
theorem abs_kkt_le_left (u v : Nat ⊕ Nat) : |s.data.kkt u v| ≤ s.data.lineNorm u := by
  rw [h.kkt_symmetric]
  exact h.abs_kkt_le v u

include proper

theorem data_balanced : (s.balanced l).data =
    s.data.weighted (fun j => s.factor l (.inl j)) (fun i => s.factor l (.inr i)) 1 := by
  have columns := Diagonal.spans_entries (h.shaped.size_columnFactors l)
  have rows := Diagonal.spans_entries (h.shaped.size_rowFactors l)
  have onColumns : (Diagonal.entries (s.columnFactors l)).weight = fun j => s.factor l (.inl j) :=
    funext (proper.weight_factors _)
  have onRows : (Diagonal.entries (s.rowFactors l)).weight = fun i => s.factor l (.inr i) :=
    funext (proper.weight_factors _)
  rw [← onColumns, ← onRows]
  exact Data.scaled_real h.shaped.data columns rows 1

theorem q_zero_balanced : ∀ x ∈ (s.balanced l).data.q, x = 0 := by
  rw [h.data_balanced proper]
  intro x hx
  obtain ⟨i, hi, rfl⟩ := Array.mem_mapIdx.1 hx
  rw [h.q_zero _ (Array.getElem_mem hi), zero_mul]

/-- Without a linear objective there is no cost factor. -/
theorem pass_eq_balanced : s.pass l = s.balanced l := by
  have zero := infNorm_of_zero (h.q_zero_balanced proper)
  have none : (s.balanced l).data.costFactor? l = none := by simp [Data.costFactor?, zero]
  rw [Stage.pass, recosted, none]

theorem data_pass : (s.pass l).data =
    s.data.weighted (fun j => s.factor l (.inl j)) (fun i => s.factor l (.inr i)) 1 := by
  rw [h.pass_eq_balanced proper, h.data_balanced proper]

/-- A pass multiplies every entry by the factors of both lines that it stands in. -/
theorem kkt_pass (u v : Nat ⊕ Nat) :
    (s.pass l).data.kkt u v = s.data.kkt u v * (s.factor l u * s.factor l v) := by
  rw [h.data_pass proper]
  rcases u with i | i <;> rcases v with j | j
  · refine (Storage.value_weighted _ _ i j).trans ?_
    rw [one_mul]
    rfl
  · refine (Storage.value_weighted _ _ j i).trans ?_
    rw [mul_comm (s.factor l (.inr j))]
    rfl
  · exact Storage.value_weighted _ _ i j
  · exact (zero_mul _).symm

theorem pass : (s.pass l).Plain m n where
  shaped := h.shaped.pass l
  canonical := by
    rw [h.data_pass proper]
    exact h.canonical.weighted _ _ _
  symmetric i j := by
    have across := h.kkt_pass proper (.inl i) (.inl j)
    have back := h.kkt_pass proper (.inl j) (.inl i)
    rw [h.kkt_symmetric, mul_comm (s.factor l _)] at back
    exact across.trans back.symm
  q_zero := by
    rw [h.pass_eq_balanced proper]
    exact h.q_zero_balanced proper

theorem passes (k : Nat) : (s.passes l k).Plain m n := by
  induction k generalizing s with
  | zero => exact h
  | succ k ih => exact ih (h.pass proper)

/-- After a pass no norm exceeds one, unless one was above the limits. -/
theorem normsLE_pass (limited : s.NormsLE l.high) : (s.pass l).NormsLE 1 := by
  intro v
  rw [(h.pass proper).lineNorm_le_iff]
  refine ⟨zero_le_one, fun u => ?_⟩
  rw [h.kkt_pass proper]
  exact abs_mul_inv_sqrt_le_one (proper.limit_pos _) (proper.limit_pos _)
    ((h.abs_kkt_le_left u v).trans (proper.le_limit (limited u)))
    ((h.abs_kkt_le u v).trans (proper.le_limit (limited v)))

theorem normsLE_passes (limited : s.NormsLE l.high) (k : Nat) : (s.passes l (k + 1)).NormsLE 1 := by
  induction k generalizing s with
  | zero => exact h.normsLE_pass proper limited
  | succ k ih =>
    have one := h.normsLE_pass proper limited
    exact ih (h.pass proper) fun v => (one v).trans proper.one_le_high

theorem lineNorm_pass_of_zero {v : Nat ⊕ Nat} (zero : s.data.lineNorm v = 0) :
    (s.pass l).data.lineNorm v = 0 := by
  have next := h.pass proper
  refine le_antisymm ?_ (next.lineNorm_nonneg v)
  rw [next.lineNorm_le_iff]
  refine ⟨le_rfl, fun u => ?_⟩
  have entry := h.abs_kkt_le u v
  rw [zero, abs_nonpos_iff] at entry
  rw [h.kkt_pass proper, entry, zero_mul, abs_zero]

theorem lineNorm_passes_of_zero {v : Nat ⊕ Nat} (zero : s.data.lineNorm v = 0) (k : Nat) :
    (s.passes l k).data.lineNorm v = 0 := by
  induction k generalizing s with
  | zero => exact zero
  | succ k ih => exact ih (h.pass proper) (h.lineNorm_pass_of_zero proper zero)

/-- A line loses at most the square root of its own norm, since no other factor is below one. -/
theorem grows_pass (one : s.NormsLE 1) (v : Nat ⊕ Nat) :
    Grows l.low (s.data.lineNorm v) ((s.pass l).data.lineNorm v) := by
  have next := h.pass proper
  have nonneg := next.lineNorm_nonneg v
  refine grows_of_le_mul_sqrt proper (one v) nonneg ?_ (h.lineNorm_pass_of_zero proper)
  rw [h.lineNorm_le_iff]
  refine ⟨mul_nonneg nonneg (Real.sqrt_nonneg _), fun u => ?_⟩
  have scaled := next.abs_kkt_le u v
  rw [h.kkt_pass proper] at scaled
  exact abs_le_mul_sqrt (proper.limit_pos _) (proper.limit_le_one (one u)) (proper.limit_pos _)
    scaled

end Plain

theorem plain_start {d : Data (DataMatrix ℝ) ℝ} (shaped : d.Shaped m n) (canonical : d.Canonical)
    (symmetric : (d.P.storage.toMatrix n n).IsSymm) (q_zero : toVector d.q n = 0) :
    (start d).Plain m n where
  shaped := shaped_start shaped
  canonical := canonical
  symmetric :=
    (Storage.isSymm_toMatrix shaped.wellFormedP shaped.rowsP shaped.columnsP).1 symmetric
  q_zero := by
    intro x hx
    obtain ⟨j, inside, rfl⟩ := Array.mem_iff_getElem.1 hx
    have within : j < d.q.size := inside
    have entry : d.q[j] = 0 := by
      simpa [toVector, within] using congrFun q_zero ⟨j, shaped.sizeq ▸ within⟩
    exact entry

theorem passes_succ (l : Limiter ℝ) (s : Stage ℝ) (k : Nat) :
    s.passes l (k + 1) = (s.passes l k).pass l := by
  induction k generalizing s with
  | zero => rfl
  | succ k ih => exact ih (s.pass l)

/-- With nothing to rectify and `P` symmetric the last pass is the end. -/
theorem Plain.finished {s : Stage ℝ} (h : s.Plain m n) {l : Limiter ℝ} (proper : l.Proper)
    {cones : Cone ℝ} (free : cones.uniformScaling = false) (k : Nat) :
    s.finished l cones k = s.passes l k := by
  have none (t : Stage ℝ) : t.rectified cones = t := by
    simp [Stage.rectified, correction?, free]
  have symmetric : (s.passes l k).symmetrized = s.passes l k :=
    if_pos (DataMatrix.isSymmetric_iff.2 (h.passes proper k).symmetric)
  simp only [Stage.finished, none, symmetric, ite_self]

end Stage

/-! ## The whole procedure -/

/-- What `k` passes make of the norms of given data, and what one more pass does to them. -/
structure Converges (d d₁ d₂ : Data (DataMatrix ℝ) ℝ) (low : ℝ) (m n : Nat) : Prop where
  column_le_one : ∀ j, d₁.columnNorm m n j ≤ 1
  row_le_one : ∀ i, d₁.rowNorm m n i ≤ 1
  column_grows : ∀ j, Grows low (d₁.columnNorm m n j) (d₂.columnNorm m n j)
  row_grows : ∀ i, Grows low (d₁.rowNorm m n i) (d₂.rowNorm m n i)
  column_zero : ∀ j, d.columnNorm m n j = 0 → d₁.columnNorm m n j = 0
  row_zero : ∀ i, d.rowNorm m n i = 0 → d₁.rowNorm m n i = 0

theorem Stage.Plain.converges {s : Stage ℝ} {m n : Nat} (h : s.Plain m n) {l : Limiter ℝ}
    (proper : l.Proper) (columns : ∀ j, s.data.columnNorm m n j ≤ l.high)
    (rows : ∀ i, s.data.rowNorm m n i ≤ l.high) (k : Nat) :
    Converges s.data (s.passes l (k + 1)).data (s.passes l (k + 2)).data l.low m n := by
  have column {t : Stage ℝ} (h : t.Plain m n) (j : Fin n) :=
    Data.lineNorm_column h.shaped.data h.canonical j
  have row {t : Stage ℝ} (h : t.Plain m n) (i : Fin m) :=
    Data.lineNorm_row h.shaped.data h.canonical i
  have limited : s.NormsLE l.high := by
    have beyond {v : Nat ⊕ Nat} (outside : v.elim (n ≤ ·) (m ≤ ·)) : s.data.lineNorm v ≤ l.high :=
      (Data.lineNorm_of_le h.shaped.data outside).trans_le proper.high_pos.le
    rintro (j | i)
    · by_cases inside : j < n
      · exact (column h ⟨j, inside⟩).trans_le (columns _)
      · exact beyond (not_lt.1 inside)
    · by_cases inside : i < m
      · exact (row h ⟨i, inside⟩).trans_le (rows _)
      · exact beyond (not_lt.1 inside)
  have one := h.normsLE_passes proper limited k
  have last := h.passes proper (k + 1)
  have next := h.passes proper (k + 2)
  have grows (v : Nat ⊕ Nat) : Grows l.low ((s.passes l (k + 1)).data.lineNorm v)
      ((s.passes l (k + 2)).data.lineNorm v) := by
    rw [passes_succ l s (k + 1)]
    exact last.grows_pass proper one v
  constructor
  case column_le_one => exact fun j => column last j ▸ one _
  case row_le_one => exact fun i => row last i ▸ one _
  case column_grows => exact fun j => column last j ▸ column next j ▸ grows _
  case row_grows => exact fun i => row last i ▸ row next i ▸ grows _
  case column_zero =>
    intro j zero
    rw [← column last]
    exact h.lineNorm_passes_of_zero proper ((column h j).trans zero) (k + 1)
  case row_zero =>
    intro i zero
    rw [← row last]
    exact h.lineNorm_passes_of_zero proper ((row h i).trans zero) (k + 1)

namespace Workspace

/-- Equilibrating a raw workspace with `k ≥ 1` passes and with one more. No objective is scaled as
`q` is zero, no set has to be rectified, and no position is stored twice, which setting up sees to.
If the limits do not cut off a norm of the data, then no norm exceeds one, and further passes only
let the norms grow towards one. -/
theorem equilibrate_converges {r : Run ℝ} (valid : r.workspace.Valid)
    (canonical : r.workspace.data.Canonical) (raw : r.workspace.phase = .raw)
    (small : r.workspace.cones.extent < countLimit)
    (symmetric : (r.workspace.data.P.storage.toMatrix r.workspace.n r.workspace.n).IsSymm)
    (q_zero : toVector r.workspace.data.q r.workspace.n = 0)
    (free : ∀ b ∈ r.workspace.cones.leaves, b.uniformScaling = false)
    {given given' : Option (Source ℝ)} {s s' : Settings ℝ}
    (chosen : r.workspace.settings.chosen? given = .ok s)
    (chosen' : r.workspace.settings.chosen? given' = .ok s')
    (some : 1 ≤ s.passes) (next : s'.passes = s.passes + 1)
    (low : s'.minScaling = s.minScaling) (high : s'.maxScaling = s.maxScaling)
    (columns : ∀ j, r.workspace.data.columnNorm r.workspace.m r.workspace.n j ≤ s.maxScaling)
    (rows : ∀ i, r.workspace.data.rowNorm r.workspace.m r.workspace.n i ≤ s.maxScaling) :
    ∃ report r₁ report' r₂, (equilibrate given).run r = .ok report r₁ ∧
      (equilibrate given').run r = .ok report' r₂ ∧
        Converges r.workspace.data r₁.workspace.data r₂.workspace.data s.minScaling
          r.workspace.m r.workspace.n := by
  have same : s'.limiter = s.limiter := by simp [Settings.limiter, low, high]
  have plain := Stage.plain_start valid.data canonical symmetric q_zero
  have unrectified : r.workspace.cones.uniformScaling = false := by
    rw [Cone.uniformScaling_eq_any]
    simpa using free
  obtain ⟨journal, ran⟩ := run_equilibrateChosen_real
    (r := { r with workspace.settings := s }) (valid.with_settings s) small
  obtain ⟨journal', ran'⟩ := run_equilibrateChosen_real
    (r := { r with workspace.settings := s' }) (valid.with_settings s') small
  refine ⟨_, _, _, _, (run_equilibrate_of_chosen raw chosen).trans ran,
    (run_equilibrate_of_chosen raw chosen').trans ran', ?_⟩
  obtain ⟨k, count⟩ := Nat.exists_eq_add_of_le' some
  have converges := plain.converges s.proper columns rows k
  rw [← plain.finished s.proper unrectified, ← plain.finished s.proper unrectified] at converges
  simp only [equilibrated, scaledTo, reached, final, next, same, count]
  exact converges

/-- A problem without linear objective. Its second column is zero in `A`, and no set restricts the
factors of its rows. -/
noncomputable def unpriced (a : ℝ) : Workspace ℝ where
  data :=
    { P := ⟨.double, .sparse .column 2 #[[(0, a), (1, 1)], [(0, 1)]]⟩
      A := ⟨.double, .dense 2 #[#[1, 0], #[-a, 0]]⟩
      q := #[0, 0]
      b := #[1, 0] }
  cones := .product [.block (.box #[-1] #[1]), .block (.nonnegative 1)]
  settings := .standard
  scaling := .identity 2 2
  iterates := .zeros 2 2
  phase := .raw

theorem valid_unpriced (a : ℝ) : (unpriced a).Valid where
  data := by
    constructor <;> simp [unpriced, Storage.WellFormed, Storage.count, Axis.select, m, n]
    grind
  scaling := by constructor <;> rfl
  iterates := by constructor <;> rfl
  dim := rfl
  balanced := by
    intro b hb
    simp only [unpriced, Cone.leaves, Cone.leavesOf, List.cons_append, List.nil_append,
      List.append_nil, List.mem_cons, List.not_mem_nil, or_false] at hb
    rcases hb with rfl | rfl
    · rfl
    · trivial

theorem canonical_unpriced (a : ℝ) : (unpriced a).data.Canonical where
  P := by simp [unpriced, Storage.EverySlice, Slice.Canonical]
  A := trivial

theorem isSymm_unpriced (a : ℝ) : ((unpriced a).data.P.storage.toMatrix 2 2).IsSymm := by
  ext i j
  fin_cases i <;> fin_cases j <;>
    simp [unpriced, Storage.toMatrix, Storage.value, Storage.entry, Storage.sliceEntry]

theorem columnNorm_unpriced (j : Fin 2) : (unpriced 4).data.columnNorm 2 2 j ≤ 10 ^ 4 := by
  rw [Data.columnNorm, pi_norm_le_iff_of_nonneg (by norm_num)]
  rintro (i | i) <;> fin_cases i <;> fin_cases j <;>
    norm_num [unpriced, Storage.toMatrix, Storage.value, Storage.entry, Storage.sliceEntry]

theorem rowNorm_unpriced (i : Fin 2) : (unpriced 4).data.rowNorm 2 2 i ≤ 10 ^ 4 := by
  rw [Data.rowNorm, pi_norm_le_iff_of_nonneg (by norm_num)]
  intro j
  fin_cases i <;> fin_cases j <;>
    norm_num [unpriced, Storage.toMatrix, Storage.value, Storage.entry]

theorem equilibrate_converges_unpriced :
    ∃ report r₁ report' r₂, (equilibrate none).run ⟨unpriced 4, #[]⟩ = .ok report r₁ ∧
      (equilibrate (some (.settings { Settings.standard with passes := 11 }))).run
        ⟨unpriced 4, #[]⟩ = .ok report' r₂ ∧
        Converges (unpriced 4).data r₁.workspace.data r₂.workspace.data
          (Settings.standard).minScaling 2 2 :=
  have limit : (Settings.standard : Settings ℝ).maxScaling = 10 ^ 4 := by
    norm_num [Settings.standard, Scalar.decimal]
  equilibrate_converges (r := ⟨unpriced 4, #[]⟩) (s := .standard) (valid_unpriced 4)
    (canonical_unpriced 4) rfl
    (by decide) (isSymm_unpriced 4) (by funext j; fin_cases j <;> rfl)
    (by simp [unpriced, Cone.leaves, Cone.leavesOf, Block.uniformScaling]) rfl rfl
    (by decide) rfl rfl rfl (fun j => limit ▸ columnNorm_unpriced j)
    (fun i => limit ▸ rowNorm_unpriced i)

end Workspace

end ConicScaling
