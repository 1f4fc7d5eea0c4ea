import ConicScaling.Proofs.Backward
import ConicScaling.Proofs.Evenness
import ConicScaling.Proofs.Extended

/-!
# Feasible points

A point satisfies the constraints of a product if each of its parts lies in the member that stands
at its rows. Scaling the rows takes the points of the original sets to those of the scaled sets and
no others: the bounds of every box follow the factors of its own rows, zero and infinite bounds
included.
-/
namespace ConicScaling

namespace Extended

/-- Multiplying by a positive number keeps the order, also of infinite numbers. -/
theorem mul_le_mul_iff {x y : EReal} {c : ℝ} (positive : 0 < c) : x * c ≤ y * c ↔ x ≤ y := by
  have nonneg (a : ℝ) (ha : 0 < a) : (0 : EReal) ≤ a := EReal.coe_nonneg.2 ha.le
  have cancel (z : EReal) : z * c * (c⁻¹ : ℝ) = z := by
    rw [mul_assoc, ← EReal.coe_mul, mul_inv_cancel₀ positive.ne', EReal.coe_one, mul_one]
  constructor
  · intro le
    rw [← cancel x, ← cancel y]
    exact mul_le_mul_of_nonneg_right le (nonneg _ (inv_pos.2 positive))
  · intro le
    exact mul_le_mul_of_nonneg_right le (nonneg c positive)

end Extended

/-! ## Sets of points -/

/-- Which points a curved set admits is given from outside. It admits each multiple of a point that
it admits, by any positive number. -/
def Conical (curved : Block EReal → Array ℝ → Prop) : Prop :=
  ∀ (b : Block EReal) (v : Array ℝ) (c : ℝ), b.uniformScaling = true → 0 < c →
    (curved b (v.map (· * c)) ↔ curved b v)

namespace Block

/-- Whether no lower bound exceeds its upper bound. -/
def Ordered : Block EReal → Prop
  | box lower upper => ∀ k, (low : k < lower.size) → (high : k < upper.size) → lower[k] ≤ upper[k]
  | _ => True

/-- Whether the set admits a point with an entry for each of its rows. -/
def Admits (curved : Block EReal → Array ℝ → Prop) (v : Array ℝ) : Block EReal → Prop
  | zero _ => ∀ x ∈ v, x = 0
  | nonnegative _ => ∀ x ∈ v, 0 ≤ x
  | box lower upper => ∀ k, (inside : k < v.size) → (low : k < lower.size) →
      (high : k < upper.size) → lower[k] ≤ v[k] ∧ v[k] ≤ upper[k]
  | b => curved b v

/-- Whether factors are the same for all rows, if they have to be. -/
def Level (e : Array EReal) (b : Block EReal) : Prop :=
  b.uniformScaling = true → ∀ x ∈ e, ∀ y ∈ e, x = y

theorem Level.times {d e : Array EReal} {b : Block EReal} (hd : b.Level d) (he : b.Level e) :
    b.Level (Diagonal.times d e) := by
  intro needed x hx y hy
  obtain ⟨k, inside, rfl⟩ := Array.mem_iff_getElem.1 hx
  obtain ⟨l, inside', rfl⟩ := Array.mem_iff_getElem.1 hy
  simp only [Diagonal.times, Array.getElem_zipWith]
  rw [he needed _ (Array.getElem_mem _) _ (Array.getElem_mem _),
    hd needed _ (Array.getElem_mem _) _ (Array.getElem_mem _)]

/-- Factors that are the same for all rows are corrected alike, if at all. -/
theorem Level.corrected {e : Array EReal} {b : Block EReal} (h : b.Level e) (n : Nat) :
    b.Level (b.corrected e (Array.replicate n 1)).2 := by
  unfold Block.corrected
  split
  · intro needed x hx y hy
    obtain ⟨u, hu, rfl⟩ := Array.mem_map.1 hx
    obtain ⟨v, hv, rfl⟩ := Array.mem_map.1 hy
    rw [h needed u hu v hv]
  · intro _ x hx y hy
    rw [(Array.mem_replicate.1 hx).2, (Array.mem_replicate.1 hy).2]

theorem admits_of_uniformScaling {curved : Block EReal → Array ℝ → Prop} {v : Array ℝ}
    {b : Block EReal} (h : b.uniformScaling = true) : b.Admits curved v ↔ curved b v := by
  cases b <;> first | rfl | cases h

variable {e : Array ℝ} (positive : ∀ x ∈ e, 0 < x) {b : Block EReal}

/-- What each factor keeps of an entry holds of all scaled entries if it holds of all entries. -/
theorem forall_mem_times_iff {e v : Array ℝ} (size : e.size = v.size) {p : ℝ → Prop}
    (keeps : ∀ c ∈ e, ∀ x, p (x * c) ↔ p x) :
    (∀ x ∈ Diagonal.times e v, p x) ↔ ∀ x ∈ v, p x := by
  simp only [Array.forall_mem_iff_forall_getElem, Diagonal.times, Array.getElem_zipWith,
    Array.size_zipWith, size, min_self]
  exact forall₂_congr fun k inside => keeps _ (Array.getElem_mem _) _

theorem times_eq_map {e v : Array ℝ} (size : e.size = v.size) {c : ℝ} (same : ∀ x ∈ e, x = c) :
    Diagonal.times e v = v.map (· * c) := by
  apply Array.ext
  · simp [Diagonal.times, size]
  · intro k scaled mapped
    have inside : k < e.size := by simp_all [Diagonal.times]
    simp [Diagonal.times, same e[k] (Array.getElem_mem inside)]

include positive

theorem Level.exists_eq (level : b.Level (e.map Real.toEReal)) (h : b.uniformScaling = true) :
    ∃ c, 0 < c ∧ ∀ x ∈ e, x = c := by
  rcases Nat.eq_zero_or_pos e.size with empty | some
  · refine ⟨1, one_pos, fun x hx => ?_⟩
    simp [Array.size_eq_zero_iff.1 empty] at hx
  · have first := Array.getElem_mem some
    refine ⟨e[0], positive _ first, fun x hx => EReal.coe_injective ?_⟩
    exact level h _ (Array.mem_map_of_mem hx) _ (Array.mem_map_of_mem first)

theorem ordered_scaled (h : b.Ordered) : (b.scaled (e.map Real.toEReal)).Ordered := by
  cases b with
  | box lower upper =>
    intro k low high
    have inside : k < e.size ∧ k < lower.size ∧ k < upper.size := by
      simp [Diagonal.times] at low high
      omega
    have factor := positive e[k] (Array.getElem_mem inside.1)
    simpa [Diagonal.times, Extended.mul_le_mul_iff factor] using h k inside.2.1 inside.2.2
  | _ => trivial

/-- The scaled set admits the scaled points of the original one. -/
theorem admits_times {curved : Block EReal → Array ℝ → Prop} (conical : Conical curved)
    (level : b.Level (e.map Real.toEReal)) {v : Array ℝ} (size : e.size = v.size) :
    (b.scaled (e.map Real.toEReal)).Admits curved (Diagonal.times e v) ↔ b.Admits curved v := by
  by_cases uniform : b.uniformScaling = true
  · obtain ⟨c, factor, same⟩ := level.exists_eq positive uniform
    rw [scaled_of_uniformScaling uniform, admits_of_uniformScaling uniform,
      admits_of_uniformScaling uniform, times_eq_map size same]
    exact conical b v c uniform factor
  · cases b with
    | zero dim =>
      refine forall_mem_times_iff size fun c hc x => ?_
      simp [(positive c hc).ne']
    | nonnegative dim =>
      exact forall_mem_times_iff size fun c hc x => mul_nonneg_iff_of_pos_right (positive c hc)
    | box lower upper =>
      simp only [scaled, Admits, Diagonal.times, Array.size_zipWith, Array.size_map, lt_min_iff,
        Array.getElem_zipWith, Array.getElem_map, EReal.coe_mul]
      refine forall_congr' fun k => ⟨fun scaled inside low high => ?_, fun h inside low high => ?_⟩
      · have row : k < e.size := size ▸ inside
        have factor := positive e[k] (Array.getElem_mem row)
        have bounds := scaled ⟨inside, row⟩ ⟨low, row⟩ ⟨high, row⟩
        rwa [Extended.mul_le_mul_iff factor, Extended.mul_le_mul_iff factor] at bounds
      · have factor := positive e[k] (Array.getElem_mem inside.2)
        rw [Extended.mul_le_mul_iff factor, Extended.mul_le_mul_iff factor]
        exact h inside.1 low.1 high.1
    | _ => exact absurd rfl uniform

end Block

namespace Cone

/-- Whether no lower bound of a box exceeds its upper bound. -/
def Ordered (c : Cone EReal) : Prop := ∀ b ∈ c.leaves, b.Ordered

theorem ordered_iff {c : Cone EReal} : c.Ordered ↔ ∀ p ∈ c.placed, p.2.Ordered := by
  rw [Ordered, placed, ← Block.map_snd_placed 0 c.leaves, List.forall_mem_map, Block.map_snd_placed]

/-- Whether factors are the same for all rows of each set that needs its rows scaled alike. -/
def Level (e : Array EReal) (c : Cone EReal) : Prop :=
  ∀ p ∈ c.placed, p.2.Level (e.extract p.1 (p.1 + p.2.dim))

mutual

/-- Whether the set admits a point. Each member of a product takes as many entries as it has rows
and leaves the others to the members after it. -/
def Admits (curved : Block EReal → Array ℝ → Prop) (v : Array ℝ) : Cone EReal → Prop
  | block b => b.Admits curved v
  | product members => AdmitsAll curved v members

def AdmitsAll (curved : Block EReal → Array ℝ → Prop) (v : Array ℝ) : List (Cone EReal) → Prop
  | [] => True
  | c :: cs => c.Admits curved (v.extract 0 c.dim) ∧ AdmitsAll curved (v.extract c.dim) cs

end

variable {curved : Block EReal → Array ℝ → Prop} {v : Array ℝ}

theorem admitsAll_extract_iff {start stop : Nat} (high : stop ≤ v.size)
    (members : List (Cone EReal))
    (within : start + (members.map extent).sum ≤ stop)
    (exact : ∀ c ∈ members, c.dim = c.extent)
    (each : ∀ c ∈ members, ∀ start, start + c.extent ≤ v.size →
      (c.Admits curved (v.extract start (start + c.extent)) ↔
        ∀ p ∈ Block.placed start c.leaves, p.2.Admits curved (v.extract p.1 (p.1 + p.2.dim)))) :
    AdmitsAll curved (v.extract start stop) members ↔
      ∀ p ∈ Block.placed start (leavesOf members),
        p.2.Admits curved (v.extract p.1 (p.1 + p.2.dim)) := by
  induction members generalizing start with
  | nil => simp [AdmitsAll, leavesOf, Block.placed]
  | cons c cs ih =>
    simp only [List.map_cons, List.sum_cons] at within
    have first : (v.extract start stop).extract 0 c.extent =
        v.extract start (start + c.extent) := by
      rw [Array.extract_extract, Nat.add_zero, Nat.min_eq_left (by omega)]
    have rest : (v.extract start stop).extract c.extent = v.extract (start + c.extent) stop := by
      rw [Array.extract_extract, Array.size_extract, Nat.min_eq_right (by omega)]
    rw [AdmitsAll, exact c (by simp), first, rest, each c (by simp) start (by omega),
      ih (by omega) (fun d hd => exact d (by simp [hd])) fun d hd => each d (by simp [hd]),
      leavesOf, Block.placed_append]
    simp only [List.forall_mem_append]
    rfl

/-- However deep the nesting, a point is admitted if each elementary set admits what stands at its
rows. -/
theorem admits_extract_iff {c : Cone EReal} (small : c.extent < countLimit) {start : Nat}
    (within : start + c.extent ≤ v.size) :
    c.Admits curved (v.extract start (start + c.extent)) ↔
      ∀ p ∈ Block.placed start c.leaves, p.2.Admits curved (v.extract p.1 (p.1 + p.2.dim)) := by
  induction c using induction generalizing start with
  | block b => simp [Admits, leaves, Block.placed]
  | product members ih =>
    have smaller (c : Cone EReal) (hc : c ∈ members) : c.extent < countLimit :=
      Nat.lt_of_le_of_lt (extent_le_of_mem hc) small
    rw [Admits, leaves]
    refine admitsAll_extract_iff within members ?_ ?_ ?_
    · rw [extent_product]
    · exact fun c hc => dim_eq_extent (smaller c hc)
    · exact fun c hc start within => ih c hc (smaller c hc) within

theorem admits_iff {c : Cone EReal} (small : c.extent < countLimit) (size : v.size = c.extent) :
    c.Admits curved v ↔ ∀ p ∈ c.placed, p.2.Admits curved (v.extract p.1 (p.1 + p.2.dim)) := by
  have whole : v.extract 0 (0 + c.extent) = v := by simp [← size]
  have parts : c.Admits curved (v.extract 0 (0 + c.extent)) ↔
      ∀ p ∈ c.placed, p.2.Admits curved (v.extract p.1 (p.1 + p.2.dim)) :=
    admits_extract_iff small (by omega)
  rwa [whole] at parts

/-- A rectification leaves factors the same for all rows of a set where they are so already. -/
theorem level_rectified {s : Stage EReal} {c : Cone EReal} (small : c.extent < countLimit)
    (size : s.E.size = c.extent) (level : c.Level s.E) : c.Level (s.rectified c).E := by
  unfold Stage.rectified
  cases found : s.correction? c with
  | none => exact level
  | some e =>
    intro p placed
    dsimp only
    rw [Stage.eq_of_correction? found, extract_times, extract_corrections small size placed]
    exact ((level p placed).corrected _).times (level p placed)

section Scaled

variable {c : Cone EReal} (small : c.extent < countLimit) {e : Array ℝ} (size : e.size = c.extent)
  (positive : ∀ x ∈ e, 0 < x)

include small size positive

theorem ordered_scaled (h : c.Ordered) : (c.scaled (e.map Real.toEReal)).Ordered := by
  have size' : (e.map Real.toEReal).size = c.extent := by rw [Array.size_map, size]
  rw [ordered_iff, placed_scaled size' small, List.forall_mem_map]
  intro ⟨i, b⟩ placed
  dsimp only
  rw [← Array.map_extract]
  exact Block.ordered_scaled (fun x hx => positive x (mem_of_mem_extract hx))
    (ordered_iff.1 h _ placed)

/-- The scaled set admits the scaled points of the original one, and no others. -/
theorem admits_scaled_iff (conical : Conical curved) (level : c.Level (e.map Real.toEReal))
    (points : v.size = c.extent) :
    (c.scaled (e.map Real.toEReal)).Admits curved (Diagonal.times e v) ↔ c.Admits curved v := by
  have size' : (e.map Real.toEReal).size = c.extent := by rw [Array.size_map, size]
  have extent := extent_scaled size' small
  have points' : (Diagonal.times e v).size = v.size := Diagonal.size_times (size.trans points.symm)
  have points'' := points'.trans (points.trans extent.symm)
  rw [admits_iff small points, admits_iff (extent ▸ small) points'', placed_scaled size' small,
    List.forall_mem_map]
  refine forall₂_congr fun ⟨i, b⟩ placed => ?_
  have parts := extract_times e v i (i + b.dim)
  have sizes : (e.extract i (i + b.dim)).size = (v.extract i (i + b.dim)).size := by
    simp only [Array.size_extract, size, points]
  have level' := level _ placed
  have dim : (b.scaled ((e.map Real.toEReal).extract i (i + b.dim))).dim = b.dim :=
    Block.dim_scaled_extract (size' ▸ le_extent_of_placed placed)
  simp only [dim, parts]
  rw [← Array.map_extract] at level' ⊢
  exact Block.admits_times (fun x hx => positive x (mem_of_mem_extract hx)) conical level' sizes

end Scaled

end Cone

/-! ## Workspaces -/

namespace Workspace

/-- What equilibration makes of the points that are admitted, from one workspace to the other. -/
structure KeepsFeasible (w w' : Workspace EReal) : Prop where
  ordered : w'.cones.Ordered
  /-- The factors of the rows are positive real numbers. Where they are the same for all rows of
  each set that needs it, a point is admitted before if and only if the scaled point is after. -/
  admits : ∃ e : Array ℝ, w'.scaling.E = e.map Real.toEReal ∧ (∀ x ∈ e, 0 < x) ∧
    ∀ curved, Conical curved → w.cones.Level w'.scaling.E → ∀ v : Array ℝ, v.size = w.m →
      (w'.cones.Admits curved (Diagonal.times e v) ↔ w.cones.Admits curved v)

variable {w : Workspace EReal}

theorem keepsFeasible_equilibrated (valid : w.Valid) (small : w.cones.extent < countLimit)
    (ordered : w.cones.Ordered) (real : w.data.IsReal) :
    w.KeepsFeasible w.equilibrated := by
  obtain ⟨e, factors, positive⟩ := Extended.exists_eq_map (isPositive_E_final real)
  have rows : w.final.E.size = w.cones.extent :=
    valid.shaped_final.sizeE.trans (valid.extent small).symm
  have size : e.size = w.cones.extent := by rw [← rows, factors, Array.size_map]
  have scaled : w.equilibrated.cones = w.cones.scaled (e.map Real.toEReal) := by
    rw [← factors]
    rfl
  refine ⟨scaled ▸ Cone.ordered_scaled small size positive ordered, e, factors, positive, ?_⟩
  intro curved conical level v points
  rw [scaled]
  have points' := points.trans (valid.extent small).symm
  refine Cone.admits_scaled_iff small size positive conical ?_ points'
  rw [← factors]
  exact level

/-- The inverse factors take every bound back. -/
theorem cones_returned (valid : w.Valid) (small : w.cones.extent < countLimit)
    (real : w.data.IsReal)
    (flag : w.settings.reverseData.isTrue = true) : w.equilibrated.returned.cones = w.cones := by
  refine (if_pos flag).trans ?_
  refine Cone.scaled_scaled_map valid.balanced (valid.shaped_final.sizeE ▸ valid.fits small) ?_
  intro x hx v
  obtain ⟨r, positive, rfl⟩ := isPositive_E_final real x hx
  have inverse : (r : EReal) * (1 / r : EReal) = 1 := by
    rw [← EReal.coe_one, ← EReal.coe_div, ← EReal.coe_mul, mul_one_div_cancel positive.ne']
  exact (mul_assoc _ _ _).trans ((congrArg (v * ·) inverse).trans (mul_one v))

/-- Equilibrating a raw workspace takes the feasible points to those of the scaled sets, and mapping
back restores the bounds. -/
theorem equilibrate_keeps_feasible {r : Run EReal} (valid : r.workspace.Valid)
    (raw : r.workspace.phase = .raw) (small : r.workspace.cones.extent < countLimit)
    (ordered : r.workspace.cones.Ordered) (real : r.workspace.data.IsReal)
    {given : Option (Source EReal)} {s : Settings EReal}
    (chosen : r.workspace.settings.chosen? given = .ok s) :
    ∃ report r₁ r₂, (equilibrate given).run r = .ok report r₁ ∧
      r.workspace.KeepsFeasible r₁.workspace ∧ reverse.run r₁ = .ok () r₂ ∧
      (s.reverseData.isTrue = true → r₂.workspace.cones = r.workspace.cones) := by
  have valid' := valid.with_settings s
  have fits := valid.fits small
  have cost : Scalar.same { r.workspace with settings := s }.final.progress.cost 0 = false :=
    (isPositive_cost_final (w := { r.workspace with settings := s }) real).same_zero
  obtain ⟨report, journal, ran⟩ := run_equilibrate_of_nonzero valid raw fits chosen cost
  have iterates := sized_scaledIterates valid'.sized_scaledTo valid'.iterates
  have back := run_reverse_of_equilibrated valid' fits iterates journal
  have keeps := keepsFeasible_equilibrated valid' small ordered real
  exact ⟨_, _, _, ran, ⟨keeps.ordered, keeps.admits⟩, back,
    cones_returned valid' small real⟩

/-- A box with zero and infinite bounds before a nested product, and settings without an upper
limit. The rows of the second-order cone are those of `A` that store sixteen. -/
noncomputable def unlimited : Workspace EReal where
  data :=
    { P := ⟨.double, .dense 1 #[#[1]]⟩
      A := ⟨.double, .dense 1 #[#[1], #[0], #[16], #[16], #[1]]⟩
      q := #[1]
      b := #[0, 1, 1, 0, 0] }
  cones := .product [.block (.box #[⊥, 0] #[0, ⊤]),
    .product [.block (.secondOrder 2), .block (.nonnegative 1)]]
  settings := { Settings.standard with
    passes := 1
    maxScaling := ⊤
    admissible := ⟨Settings.standard.admissible.1, Settings.standard.admissible.2.1, le_top⟩ }
  scaling := .identity 1 5
  iterates := .zeros 1 5
  phase := .raw

theorem valid_unlimited : unlimited.Valid where
  data := by
    constructor <;> simp [unlimited, Storage.WellFormed, Storage.count, m, n, Axis.select]
  scaling := by constructor <;> rfl
  iterates := by constructor <;> rfl
  dim := Cone.dim_eq_extent (c := unlimited.cones) (by decide)
  balanced := by
    simp [Cone.Balanced, unlimited, Cone.leaves, Cone.leavesOf, Block.Balanced]

theorem ordered_unlimited : unlimited.cones.Ordered := by
  intro b hb
  simp only [unlimited, Cone.leaves, Cone.leavesOf, List.cons_append, List.nil_append,
    List.append_nil, List.mem_cons, List.not_mem_nil, or_false] at hb
  rcases hb with rfl | rfl | rfl
  · rintro (_ | _ | k) low high
    · exact bot_le
    · exact le_top
    · simp at low
  · trivial
  · trivial

theorem isReal_unlimited : unlimited.data.IsReal := by
  have zero := Extended.isReal_zero
  have one := Extended.isPositive_one.isReal
  have sixteen : Extended.IsReal 16 := ⟨16, rfl⟩
  constructor <;> simp [unlimited, DataMatrix.IsReal, Storage.entries, zero, one, sixteen]

/-- The two rows of the second-order cone have the same norm, so a pass gives them the same
factor. -/
theorem level_unlimited : unlimited.cones.Level unlimited.final.E := by
  obtain ⟨first, second, last, norm, norms⟩ : ∃ first second last norm,
      unlimited.data.rowNorms = #[first, second, norm, norm, last] := ⟨_, _, _, _, rfl⟩
  obtain ⟨e, e', e'', factor, pass⟩ : ∃ e e' e'' factor,
      unlimited.lastPass.E = #[e, e', factor, factor, e''] := by
    have pass : unlimited.lastPass.E = Diagonal.times
        (factors unlimited.settings.limiter unlimited.data.rowNorms) (ones 5) :=
      Stage.E_recosted _ _
    rw [pass, norms]
    simp [Diagonal.times, factors, invSqrt, Limiter.limitVector, ones, Array.replicate]
  rw [final, Stage.E_finished]
  refine Cone.level_rectified (by decide) (congrArg Array.size pass) ?_
  change unlimited.cones.Level unlimited.lastPass.E
  rw [pass]
  intro p placed needed x hx y hy
  simp only [unlimited, Cone.placed, Cone.leaves, Cone.leavesOf, List.cons_append, List.nil_append,
    List.append_nil, Block.placed, Block.dim, List.mem_cons, List.not_mem_nil, or_false] at placed
  rcases placed with rfl | rfl | rfl
  · cases needed
  · simp_all [Block.dim]
  · cases needed

theorem conical_nonneg : Conical fun _ v => ∀ x ∈ v, 0 ≤ x := by
  intro b v c _ positive
  simp only [Array.forall_mem_map, mul_nonneg_iff_of_pos_right positive]

theorem equilibrate_keeps_feasible_unlimited :
    ∃ report r₁ r₂, (equilibrate none).run ⟨unlimited, #[]⟩ = .ok report r₁ ∧
      r₁.workspace.cones.Ordered ∧
      (∃ e : Array ℝ, r₁.workspace.scaling.E = e.map Real.toEReal ∧ ∀ v : Array ℝ, v.size = 5 →
        (r₁.workspace.cones.Admits (fun _ v => ∀ x ∈ v, 0 ≤ x) (Diagonal.times e v) ↔
          unlimited.cones.Admits (fun _ v => ∀ x ∈ v, 0 ≤ x) v)) ∧
      reverse.run r₁ = .ok () r₂ ∧ r₂.workspace.cones = unlimited.cones := by
  have chosen : unlimited.settings.chosen? none = .ok unlimited.settings := rfl
  obtain ⟨report, r₁, r₂, ran, ⟨ordered, e, factors, -, admits⟩, back, restored⟩ :=
    equilibrate_keeps_feasible (r := ⟨unlimited, #[]⟩) valid_unlimited rfl (by decide)
      ordered_unlimited isReal_unlimited chosen
  have scaled : r₁.workspace.scaling.E = unlimited.final.E := by
    obtain ⟨_, _, ran'⟩ := run_equilibrate_of_nonzero (r := ⟨unlimited, #[]⟩) valid_unlimited rfl
      (valid_unlimited.fits (by decide)) chosen (isPositive_cost_final isReal_unlimited).same_zero
    cases ran.symm.trans ran'
    rfl
  refine ⟨report, r₁, r₂, ran, ordered, ⟨e, factors, fun v size => ?_⟩, back, restored rfl⟩
  exact admits _ conical_nonneg (scaled ▸ level_unlimited) v size

end Workspace

end ConicScaling
