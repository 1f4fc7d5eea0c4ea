import ConicScaling.Cone.Rectify
import ConicScaling.Proofs.Placement

/-!
# Running the rectification

Each member of a product reads the same rows of the scaling as of the work vector, so lengths agree
at every depth and the rectification cannot fail, not even where row counts wrap. It leaves the
corrections of the blocks that are not uniform, and everything else as it was.
-/
namespace ConicScaling

variable {α β : Type}

theorem RowRange.mem_of_mem_write {r : RowRange} {part v : Array β} {x : β}
    (h : x ∈ r.write part v) : x ∈ part ∨ x ∈ v := by
  simp only [write, Array.mem_append] at h
  rcases h with (before | inside) | after
  · exact .inr (mem_of_mem_extract before)
  · exact .inl inside
  · exact .inr (mem_of_mem_extract after)

/-- Whether an event tells of a single block. -/
def Event.IsRectifiedBlock : Event α → Prop
  | rectifiedBlock .. => True
  | _ => False

/-- Between two journals only changes of single blocks were recorded. -/
def BlocksRecorded (before after : Journal α) : Prop :=
  ∃ events : Array (Event α), (∀ e ∈ events, e.IsRectifiedBlock) ∧ after = before ++ events

namespace BlocksRecorded

theorem refl (journal : Journal α) : BlocksRecorded journal journal := ⟨#[], by simp, by simp⟩

theorem push {before after : Journal α} (h : BlocksRecorded before after) {e : Event α}
    (block : e.IsRectifiedBlock) : BlocksRecorded before (after.push e) := by
  obtain ⟨events, blocks, rfl⟩ := h
  refine ⟨events.push e, ?_, by simp⟩
  intro other he
  rcases Array.mem_push.1 he with he | rfl
  · exact blocks other he
  · exact block

theorem trans {first second third : Journal α} (h : BlocksRecorded first second)
    (g : BlocksRecorded second third) : BlocksRecorded first third := by
  obtain ⟨events, blocks, rfl⟩ := h
  obtain ⟨others, otherBlocks, rfl⟩ := g
  refine ⟨events ++ others, ?_, by simp⟩
  intro e he
  rcases Array.mem_append.1 he with he | he
  · exact blocks e he
  · exact otherBlocks e he

end BlocksRecorded

variable [Scalar α]

theorem run_rectifyVector {e work : Array α} (size : e.size = work.size) (journal : Journal α) :
    (rectifyVector e).run ⟨work, journal⟩ =
      if isUniform e then .ok false ⟨work, journal⟩ else .ok true ⟨correction e, journal⟩ := by
  unfold rectifyVector
  cases isUniform e with
  | true => rfl
  | false =>
    refine bind_of_ok (modify?_of_ok ?_) rfl
    exact if_pos size

namespace Cone

mutual

/-- Whether a rectification by `e` changes some block, and what it leaves of the work vector. -/
def corrected (e work : Array α) : Cone α → Bool × Array α
  | block b =>
    if b.uniformScaling && !isUniform e then (true, correction e) else (false, work)
  | product members => correctedMembers e work members (rows members)

def correctedMembers (e work : Array α) : List (Cone α) → List RowRange → Bool × Array α
  | c :: cs, rows :: rest =>
    let own := c.corrected (rows.read e) (rows.read work)
    let others := correctedMembers e (rows.write own.2 work) cs rest
    (own.1 || others.1, others.2)
  | _, _ => (false, work)

end

/-- What each correction of some rows keeps of the work vector, a product keeps. -/
theorem correctedMembers_induction {I : Array α → Prop} {e work : Array α}
    (members : List (Cone α)) (rows : List RowRange) (old : I work)
    (each : ∀ c ∈ members, ∀ (r : RowRange) {work : Array α}, I work →
      I (r.write (c.corrected (r.read e) (r.read work)).2 work)) :
    I (correctedMembers e work members rows).2 := by
  induction members generalizing rows work with
  | nil => cases rows <;> exact old
  | cons c cs ih =>
    cases rows with
    | nil => exact old
    | cons r rest => exact ih rest (each c (by simp) r old) fun d hd => each d (by simp [hd])

theorem size_correctedMembers {e work : Array α} (members : List (Cone α)) (rows : List RowRange)
    (size : e.size = work.size)
    (each : ∀ c ∈ members, ∀ {e work : Array α}, e.size = work.size →
      (c.corrected e work).2.size = work.size) :
    (correctedMembers e work members rows).2.size = work.size := by
  refine correctedMembers_induction (I := fun v => v.size = work.size) members rows rfl ?_
  intro c hc r v same
  have part : (r.read e).size = (r.read v).size := by
    simp only [RowRange.size_read_eq_count, size, same]
  exact (r.size_write (each c hc part)).trans same

@[simp] theorem size_corrected {c : Cone α} {e work : Array α} (size : e.size = work.size) :
    (c.corrected e work).2.size = work.size := by
  induction c using induction generalizing e work with
  | block b =>
    rw [corrected]
    split
    · simpa [correction] using size
    · rfl
  | product members ih =>
    exact size_correctedMembers members _ size fun c hc _ _ => ih c hc

/-- Entries of the work vector stay or come from the correction of a part that is not uniform. -/
theorem forall_mem_correctedMembers {p : α → Prop} {e work : Array α} (members : List (Cone α))
    (rows : List RowRange) (old : ∀ x ∈ work, p x)
    (each : ∀ c ∈ members, ∀ (r : RowRange) {work : Array α}, (∀ x ∈ work, p x) →
      ∀ x ∈ (c.corrected (r.read e) work).2, p x) :
    ∀ x ∈ (correctedMembers e work members rows).2, p x := by
  refine correctedMembers_induction (I := fun v => ∀ x ∈ v, p x) members rows old ?_
  intro c hc r v kept x hx
  rcases RowRange.mem_of_mem_write hx with part | rest
  · exact each c hc r (fun y hy => kept y (RowRange.mem_of_mem_read hy)) x part
  · exact kept x rest

theorem forall_mem_corrected {p : α → Prop} {c : Cone α} {e work : Array α}
    (old : ∀ x ∈ work, p x)
    (new : ∀ part : Array α, (∀ x ∈ part, x ∈ e) → isUniform part = false →
      ∀ x ∈ correction part, p x) :
    ∀ x ∈ (c.corrected e work).2, p x := by
  induction c using induction generalizing e work with
  | block b =>
    rw [corrected]
    split
    · rename_i changes
      exact new e (fun _ => id) (by simp_all)
    · exact old
  | product members ih =>
    apply forall_mem_correctedMembers members _ old
    intro c hc r work old
    exact ih c hc old fun part within =>
      new part fun x hx => RowRange.mem_of_mem_read (within x hx)

theorem correctedMembers_of_uniform {e work : Array α} (members : List (Cone α))
    (rows : List RowRange)
    (each : ∀ c ∈ members, ∀ (r : RowRange) (work : Array α),
      c.corrected (r.read e) work = (false, work)) :
    correctedMembers e work members rows = (false, work) := by
  induction members generalizing rows with
  | nil => cases rows <;> rfl
  | cons c cs ih =>
    cases rows with
    | nil => rfl
    | cons r rest =>
      have tail := ih rest fun d hd => each d (by simp [hd])
      simp [correctedMembers, each c (by simp) r, RowRange.write_read, tail]

/-- Where every part is uniform nothing is corrected. -/
theorem corrected_of_uniform {c : Cone α} {e : Array α} (work : Array α)
    (uniform : ∀ part : Array α, (∀ x ∈ part, x ∈ e) → isUniform part = true) :
    c.corrected e work = (false, work) := by
  induction c using induction generalizing e work with
  | block b => simp [corrected, uniform e fun _ => id]
  | product members ih =>
    apply correctedMembers_of_uniform members
    intro c hc r work
    exact ih c hc work fun part within =>
      uniform part fun x hx => RowRange.mem_of_mem_read (within x hx)

theorem run_rectifyMembers {e work : Array α} (members : List (Cone α)) (rows : List RowRange)
    (size : e.size = work.size) (journal : Journal α)
    (each : ∀ c ∈ members, ∀ {e work : Array α}, e.size = work.size → ∀ journal : Journal α,
      ∃ after, BlocksRecorded journal after ∧
        (c.rectify e).run ⟨work, journal⟩ =
          .ok (c.corrected e work).1 ⟨(c.corrected e work).2, after⟩) :
    ∃ after, BlocksRecorded journal after ∧
      (rectifyMembers e members rows).run ⟨work, journal⟩ =
        .ok (correctedMembers e work members rows).1
          ⟨(correctedMembers e work members rows).2, after⟩ := by
  induction members generalizing rows work journal with
  | nil => exact ⟨journal, .refl journal, by cases rows <;> rfl⟩
  | cons c cs ih =>
    cases rows with
    | nil => exact ⟨journal, .refl journal, rfl⟩
    | cons r rest =>
      have part : (r.read e).size = (r.read work).size := by
        simp only [RowRange.size_read_eq_count, size]
      have written := size.trans (r.size_write (size_corrected (c := c) part)).symm
      obtain ⟨after, own, first⟩ := each c (by simp) part journal
      -- the block is recorded only if it changed
      cases changed : (c.corrected (r.read e) (r.read work)).1 with
      | false =>
        obtain ⟨last, others, final⟩ :=
          ih rest written after fun d hd => each d (by simp [hd])
        refine ⟨last, own.trans others, ?_⟩
        refine bind_of_ok (focus_of_ok first) ?_
        rw [changed]
        refine bind_of_ok final ?_
        simp [correctedMembers, changed]
      | true =>
        have recorded : BlocksRecorded journal (after.push (.rectifiedBlock c r)) :=
          own.push (e := .rectifiedBlock c r) trivial
        obtain ⟨last, others, final⟩ :=
          ih rest written (after.push (.rectifiedBlock c r)) fun d hd => each d (by simp [hd])
        refine ⟨last, recorded.trans others, ?_⟩
        refine bind_of_ok (focus_of_ok first) ?_
        rw [changed]
        refine bind_of_ok rfl (bind_of_ok final ?_)
        simp [correctedMembers, changed]

/-- Rectification always succeeds where the work vector has an entry for each row. -/
theorem run_rectify {c : Cone α} {e work : Array α} (size : e.size = work.size)
    (journal : Journal α) :
    ∃ after, BlocksRecorded journal after ∧
      (c.rectify e).run ⟨work, journal⟩ =
        .ok (c.corrected e work).1 ⟨(c.corrected e work).2, after⟩ := by
  induction c using induction generalizing e work journal with
  | block b =>
    refine ⟨journal, .refl journal, ?_⟩
    rw [rectify, corrected]
    cases b.uniformScaling with
    | false => rfl
    | true =>
      rw [if_pos rfl, run_rectifyVector size]
      cases isUniform e <;> rfl
  | product members ih =>
    exact run_rectifyMembers members _ size journal fun c hc _ _ size journal =>
      ih c hc size journal

/-- What a rectification from a correction of all ones finds. -/
def corrections (e : Array α) (c : Cone α) : Bool × Array α :=
  c.corrected e (Array.replicate e.size 1)

theorem run_rectifySets {c : Cone α} {e work : Array α} (size : e.size = work.size)
    (journal : Journal α) :
    ∃ after, BlocksRecorded journal after ∧
      (c.rectifySets e).run ⟨work, journal⟩ =
        .ok (c.corrections e).1 ⟨(c.corrections e).2, after⟩ := by
  have start : e.size = (Array.replicate e.size (1 : α)).size := by simp
  obtain ⟨after, blocks, ran⟩ := run_rectify (c := c) start journal
  have ones : (work.map fun _ => (1 : α)) = Array.replicate e.size 1 := by
    rw [Array.map_const', size]
  rw [← ones] at ran
  exact ⟨after, blocks, bind_of_ok rfl (by simpa only [corrections, ones] using ran)⟩

end Cone

end ConicScaling
