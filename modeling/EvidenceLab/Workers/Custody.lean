/-
# No work is lost

What is to be done for a document is, in every state, still to be done by somebody: by the request
that has committed it, by a task in the queue, or by a worker in one of its slots
(`Workshop.Inv`).  A task that ends has done its part, has recorded a failure, or has handed on:
an ingestion queues the embedding of the rows that it has committed.

So when the queue is empty and the workers are free, every document is completed, with a vector in
each of its rows, or failed (`no_work_lost`); unless something was dropped: by a request that ends
before it has queued anything, by the queue that gives a task up, or by an exception that ends a
task and that nobody records.  Each of these can lose work (`lost_by_drop`).
-/

import EvidenceLab.Ingest.Keys
import EvidenceLab.Ingest.Vectors
import EvidenceLab.Workers.Queue

namespace EvidenceLab
namespace Workers

open EvidenceLab.Core Data Ingest Runs

variable {V Slot : Type}

/-! ### What is to be done -/

/-- What has to be done for a document: its ingestion has to end, and its rows have to get their
vectors. -/
inductive Duty (V : Type)
  | finish
  | embed (row : Stored V)

/-- The task does this, or ends with a failure that is recorded, or queues a task that does. -/
def Task.Carries : Task → Duty V → Prop
  | .ingestDocument, _ => True
  | .embedDocumentChunks, .embed _ => True
  | .embedDocumentChunks, .finish => False

/-- The embedding job is to write to this row. -/
def Covers (row : Stored V) : Job V → Prop
  | .embed _ .started => True
  | .embed _ (.loaded pending) => row.id ∈ pending.map (·.id)
  | .embed _ (.writing todo begun done) =>
      row.id ∈ todo.map (·.id) ∨ row.stamp ∈ (begun.toList ++ done).map Prod.fst
  | _ => False

/-- The worker that stands here with this job still does it. -/
def Stand.Carries (job : Job V) (duty : Duty V) : Stand → Prop
  | .free => False
  | .ingesting _ => Task.ingestDocument.Carries duty
  | .chaining => Task.embedDocumentChunks.Carries duty
  | .embedding => ∃ row, duty = .embed row ∧ Covers row job
  | .failed task => task.Carries duty
  -- A status that is failed already is not written again.
  | .recording task status => status ≠ .failed ∧ task.Carries duty
  | .ended _ => False

/-! ### What a job goes on with -/

section Jobs

variable {chunkIdFor : ℕ → Uuid} {modelId : String} {j j' : Jobs Slot V} {slot : Slot}
  {event : Event V}

/-- What is sent to the provider covers the rows that are pending. -/
theorem covers_load {row : Stored V} (hrow : row ∈ j.rows) (hpending : row.Pending modelId) :
    Covers row (.embed modelId (.loaded
      (pendingChunks modelId (j.rows.map (·.toChunkRow))))) :=
  List.mem_map_of_mem (mem_pendingChunks.mpr ⟨List.mem_map_of_mem hrow, hpending⟩)

/-- So does what is to be written when it has answered. -/
theorem covers_writes {row : Stored V} {pending : List (ChunkRow V)} {vectors : List V}
    (hlength : vectors.length = pending.length)
    (h : Covers row (.embed modelId (.loaded pending))) :
    Covers row (.embed modelId (.writing (Jobs.writes pending vectors) none [])) := by
  have hids : (Jobs.writes pending vectors).map (·.id) = pending.map (·.id) := by
    have hfst := congrArg (List.map ChunkRow.id) (List.map_fst_zip hlength.ge)
    rw [List.map_map] at hfst
    rw [Jobs.writes, List.map_map]
    exact hfst
  exact Or.inl (hids ▸ h)

/-- An `UPDATE` that begins finds the row by its id. -/
theorem covers_update (hkeyed : j.Keyed chunkIdFor) {row : Stored V} (hrow : row ∈ j.rows)
    {todo : List (Write V)} {done : List (ℕ × Write V)} {position : ℕ} {w : Write V}
    (hw : todo[position]? = some w) (h : Covers row (.embed modelId (.writing todo none done))) :
    Covers row (.embed modelId (.writing (todo.eraseIdx position)
      ((j.rows.find? (·.id = w.id)).map fun row => (row.stamp, w)) done)) := by
  rcases h with hid | hdone
  · obtain ⟨w', hw', hid⟩ := List.mem_map.mp hid
    rcases eq_or_ne w' w with rfl | hne
    · refine Or.inr ?_
      have hfind : j.rows.find? (·.id = w'.id) = some row := by
        cases hfind : j.rows.find? (·.id = w'.id) with
        | none => exact absurd (List.find?_eq_none.mp hfind row hrow) (by simp [hid])
        | some row' =>
            have hid' : row'.id = w'.id := by simpa using List.find?_some hfind
            rw [hkeyed.eq_of_id (List.mem_of_find?_eq_some hfind) hrow (hid'.trans hid)]
      rw [hfind]
      exact List.mem_cons_self
    · refine Or.inl (List.mem_map.mpr ⟨w', ?_, hid⟩)
      obtain ⟨i, hi⟩ := List.mem_iff_getElem?.mp hw'
      have hpos : i ≠ position := by
        rintro rfl
        exact hne (Option.some.inj (hi.symm.trans hw))
      exact List.mem_eraseIdx_iff_getElem?.mpr ⟨i, hpos, hi⟩
  · exact Or.inr (by simpa using Or.inr (by simpa using hdone))

/-- An `UPDATE` that is carried out writes to the row if it is there. -/
theorem covers_updated {row : Stored V} (hrow : row ∈ j.rows) {todo : List (Write V)} {stamp : ℕ}
    {w : Write V} {done : List (ℕ × Write V)}
    (h : Covers row (.embed modelId (.writing todo (some (stamp, w)) done))) :
    (stamp ∈ j.rows.map (·.stamp) →
      Covers row (.embed modelId (.writing todo none (done ++ [(stamp, w)])))) ∧
    (stamp ∉ j.rows.map (·.stamp) → Covers row (.embed modelId (.writing todo none done))) := by
  simp only [Covers, Option.toList_some, Option.toList_none, List.nil_append, List.map_append,
    List.map_cons, List.map_nil, List.mem_append, List.mem_cons, List.not_mem_nil, or_false] at h ⊢
  refine ⟨fun _ => h.imp_right Or.symm, fun hgone => h.imp_right fun hdone => ?_⟩
  rcases hdone with rfl | hdone
  · exact absurd (List.mem_map_of_mem hrow) hgone
  · exact hdone

/-- A row that is pending after a job has written was pending before, and was not covered. -/
theorem of_pending_written {done : List (ℕ × Write V)} {row : Stored V}
    (h : (Jobs.written modelId done row).Pending modelId) :
    row.stamp ∉ done.map Prod.fst ∧ Jobs.written modelId done row = row := by
  unfold Jobs.written at h ⊢
  cases hfind : done.find? (·.1 = row.stamp) with
  | none =>
      refine ⟨fun hmem => ?_, rfl⟩
      obtain ⟨p, hp, hstamp⟩ := List.mem_map.mp hmem
      exact absurd (List.find?_eq_none.mp hfind p hp) (by simp [hstamp])
  | some p =>
      rw [hfind] at h
      simp [ChunkRow.Pending] at h

variable [Fintype Slot] [DecidableEq Slot]

/-- A step of a job leaves the others. -/
theorem job_of_step (hstep : j.step chunkIdFor (slot, event) = some j') {other : Slot}
    (hne : other ≠ slot) : j'.job other = j.job other := by
  have hput : ∀ job, (j.put slot job).job other = j.job other := j.job_put_of_ne slot hne
  unfold Jobs.step at hstep
  split at hstep
  · unfold Jobs.startStep at hstep
    split at hstep
    all_goals first | exact Option.some.inj hstep ▸ hput _ | cases hstep
  · unfold Jobs.ingestStep at hstep
    split at hstep <;> try split_ifs at hstep
    all_goals first | exact Option.some.inj hstep ▸ hput _ | cases hstep
  · unfold Jobs.embedStep at hstep
    split at hstep <;> (try split_ifs at hstep) <;> (try split at hstep)
    all_goals first | exact Option.some.inj hstep ▸ hput _ | cases hstep

/-- An ingestion leaves the rows until it commits. -/
theorem rows_of_ingestStep {stage : IngestStage} (hjob : j.job slot = .ingest stage)
    (hstep : j.step chunkIdFor (slot, event) = some j') (hcommit : event ≠ .commit) :
    j'.rows = j.rows := by
  simp only [Jobs.step, hjob] at hstep
  unfold Jobs.ingestStep at hstep
  split at hstep <;> try split_ifs at hstep
  all_goals first | exact Option.some.inj hstep ▸ rfl | exact absurd rfl hcommit | cases hstep

/-- **An embedding job goes on with the rows that it covers**, until it commits. -/
theorem covers_embedStep (hkeyed : j.Keyed chunkIdFor) {stage : EmbedStage V}
    (hjob : j.job slot = .embed modelId stage)
    (hstep : j.step chunkIdFor (slot, event) = some j') (hcommit : event ≠ .commit)
    (habort : event ≠ .abort) :
    j'.rows = j.rows ∧ (∃ stage', j'.job slot = .embed modelId stage') ∧
      ∀ row ∈ j.rows, row.Pending modelId → Covers row (j.job slot) → Covers row (j'.job slot) := by
  have hput : ∀ job, (j.put slot job).job slot = job := j.job_put_self slot
  simp only [Jobs.step, hjob] at hstep ⊢
  unfold Jobs.embedStep at hstep
  split at hstep
  · obtain rfl := Option.some.inj hstep
    rw [hput]
    exact ⟨rfl, ⟨_, rfl⟩, fun row hrow hpending _ => covers_load hrow hpending⟩
  · split_ifs at hstep with hlength
    obtain rfl := Option.some.inj hstep
    refine ⟨rfl, ⟨_, hput _⟩, fun row _ _ h => ?_⟩
    rw [Jobs.recordAnswer, hput]
    exact covers_writes hlength.2 h
  · split at hstep
    · rename_i w hw
      obtain rfl := Option.some.inj hstep
      rw [hput]
      exact ⟨rfl, ⟨_, rfl⟩, fun row hrow _ h => covers_update hkeyed hrow hw h⟩
    · cases hstep
  · split_ifs at hstep with hlocked hthere
    · obtain rfl := Option.some.inj hstep
      rw [hput]
      exact ⟨rfl, ⟨_, rfl⟩, fun row hrow _ h => (covers_updated hrow h).1 hthere⟩
    · obtain rfl := Option.some.inj hstep
      rw [hput]
      exact ⟨rfl, ⟨_, rfl⟩, fun row hrow _ h => (covers_updated hrow h).2 hthere⟩
  · exact absurd rfl hcommit
  · exact absurd rfl habort
  · cases hstep

/-- It commits when everything is written. -/
theorem commit_of_embedStep {stage : EmbedStage V} (hjob : j.job slot = .embed modelId stage)
    (hstep : j.step chunkIdFor (slot, .commit) = some j') :
    ∃ done, stage = .writing [] none done ∧ j' = j.commitEmbed slot modelId done := by
  simp only [Jobs.step, hjob] at hstep
  rcases stage with - | pending | ⟨todo, begun, done⟩
  · cases hstep
  · cases hstep
  · cases todo with
    | nil =>
        cases begun with
        | none => exact ⟨done, rfl, (Option.some.inj hstep).symm⟩
        | some begun => cases hstep
    | cons w todo => cases begun <;> cases hstep

end Jobs

namespace Workshop

variable (s : Workshop Slot V)

/-- It is not done, and there is no failure that would say why. -/
def Open (modelId : String) (embeddingsEnabled : Bool) : Duty V → Prop
  | .finish => s.status = some .pending ∨ s.status = some .parsing ∨ s.status = some .chunking
  | .embed row => embeddingsEnabled ∧ row ∈ s.jobs.rows ∧ row.Pending modelId ∧
      s.status ≠ some .failed

/-- Somebody is to do it: the request that is to queue the ingestion, a task in the queue, or a
worker in one of its slots. -/
def Carried (duty : Duty V) : Prop :=
  (s.request ∧ duty = .finish) ∨ (∃ task ∈ s.queue, task.Carries duty) ∨
    ∃ slot, (s.stand slot).Carries (s.jobs.job slot) duty

/-! ### The invariant -/

section Invariant

variable (chunkIdFor : ℕ → Uuid) (modelId : String) (embeddingsEnabled : Bool)

/-- What is to be done is carried by somebody; before the upload there is nothing. -/
structure Inv (s : Workshop Slot V) : Prop where
  carried : ∀ duty, s.Open modelId embeddingsEnabled duty → s.Carried duty
  absent : s.status = none → s.Drained
  embedding : ∀ slot, s.stand slot = .embedding → ∃ stage, s.jobs.job slot = .embed modelId stage
  keyed : s.jobs.Keyed chunkIdFor

end Invariant

variable {chunkIdFor : ℕ → Uuid} {modelId : String} {embeddingsEnabled : Bool}
  {s s' : Workshop Slot V} {slot : Slot} {duty : Duty V}

theorem open_congr (hstatus : s'.status = s.status) (hrows : s'.jobs.rows = s.jobs.rows) :
    s'.Open modelId embeddingsEnabled duty ↔ s.Open modelId embeddingsEnabled duty := by
  cases duty <;> simp only [Open, hstatus, hrows]

/-- Nothing is to be done for a document that has failed. -/
theorem not_open_of_failed (h : s.status = some .failed) :
    ¬ s.Open modelId embeddingsEnabled duty := by
  cases duty with
  | finish => simp [Open, h]
  | embed row => exact fun hopen => hopen.2.2.2 h

theorem Carried.of_queue {task : Task} (hmem : task ∈ s.queue) (h : task.Carries duty) :
    s.Carried duty :=
  Or.inr (Or.inl ⟨task, hmem, h⟩)

theorem Carried.of_stand (slot : Slot) (h : (s.stand slot).Carries (s.jobs.job slot) duty) :
    s.Carried duty :=
  Or.inr (Or.inr ⟨slot, h⟩)

/-- Somebody else goes on with it. -/
theorem Carried.of_others (h : s.Carried duty) (slot : Slot)
    (hstands : ∀ other, other ≠ slot → s'.stand other = s.stand other)
    (hjobs : ∀ other, other ≠ slot → s'.jobs.job other = s.jobs.job other)
    (hrequest : s'.request = s.request) (hqueue : s.queue ⊆ s'.queue)
    (hslot : (s.stand slot).Carries (s.jobs.job slot) duty → s'.Carried duty) :
    s'.Carried duty := by
  rcases h with ⟨hreq, hduty⟩ | ⟨task, hmem, htask⟩ | ⟨other, hother⟩
  · exact Or.inl ⟨hrequest ▸ hreq, hduty⟩
  · exact Carried.of_queue (hqueue hmem) htask
  · rcases eq_or_ne other slot with rfl | hne
    · exact hslot hother
    · refine Carried.of_stand other ?_
      rw [hstands other hne, hjobs other hne]
      exact hother

/-- What a worker is at, its task does. -/
theorem carries_task {stand : Stand} {job : Job V} (h : stand.Carries job duty) :
    ∃ task, stand.task = some task ∧ task.Carries duty := by
  cases stand with
  | free => exact h.elim
  | ingesting status => exact ⟨_, rfl, h⟩
  | chaining => exact ⟨_, rfl, trivial⟩
  | embedding =>
      obtain ⟨row, rfl, -⟩ := h
      exact ⟨_, rfl, trivial⟩
  | failed task => exact ⟨task, rfl, h⟩
  | recording task status => exact ⟨task, rfl, h.2⟩
  | ended task => exact h.elim

/-- A worker that goes on in its slot keeps the invariant, if somebody still does what it did. -/
theorem Inv.of_slot (h : s.Inv chunkIdFor modelId embeddingsEnabled) (slot : Slot)
    (htask : (s.stand slot).task ≠ none)
    (hstands : ∀ other, other ≠ slot → s'.stand other = s.stand other)
    (hjobs : ∀ other, other ≠ slot → s'.jobs.job other = s.jobs.job other)
    (hrequest : s'.request = s.request) (hqueue : s.queue ⊆ s'.queue)
    (hstatus : s'.status = none → s.status = none)
    (hduty : ∀ duty, s'.Open modelId embeddingsEnabled duty → s'.Carried duty ∨
      (s.Carried duty ∧ ((s.stand slot).Carries (s.jobs.job slot) duty → s'.Carried duty)))
    (hembedding : s'.stand slot = .embedding → ∃ stage, s'.jobs.job slot = .embed modelId stage)
    (hkeyed : s'.jobs.Keyed chunkIdFor) : s'.Inv chunkIdFor modelId embeddingsEnabled where
  carried duty hopen := by
    rcases hduty duty hopen with hcarried | ⟨hcarried, hslot⟩
    · exact hcarried
    · exact hcarried.of_others slot hstands hjobs hrequest hqueue hslot
  absent hnone := absurd ((h.absent (hstatus hnone)).2.2 slot) htask
  embedding other hother := by
    rcases eq_or_ne other slot with rfl | hne
    · exact hembedding hother
    · rw [hjobs other hne]
      exact h.embedding other ((hstands other hne).symm.trans hother)
  keyed := hkeyed

theorem not_carried_of_drained (h : s.Drained) : ¬ s.Carried duty := by
  obtain ⟨hrequest, hqueue, hstands⟩ := h
  rintro (⟨hreq, -⟩ | ⟨task, hmem, -⟩ | ⟨slot, hslot⟩)
  · cases hrequest.symm.trans hreq
  · rw [hqueue] at hmem
    exact absurd hmem List.not_mem_nil
  · obtain ⟨task, htask, -⟩ := carries_task hslot
    cases (hstands slot).symm.trans htask

theorem inv_init : ({} : Workshop Slot V).Inv chunkIdFor modelId embeddingsEnabled where
  carried duty hopen := by
    cases duty with
    | finish => simp [Open] at hopen
    | embed row => exact absurd hopen.2.1 List.not_mem_nil
  absent _ := ⟨rfl, rfl, fun _ => rfl⟩
  embedding _ hstand := by cases hstand
  keyed := Jobs.keyed_init

/-! ### The queue -/

/-- Tasks are added to the queue. -/
theorem Inv.of_queue (h : s.Inv chunkIdFor modelId embeddingsEnabled) {request : Bool}
    {queue : List Task} (hqueue : s.queue ⊆ queue) (hstatus : s.status ≠ none)
    (hrequest : s.request → request ∨ Task.ingestDocument ∈ queue) :
    ({ s with request, queue } : Workshop Slot V).Inv chunkIdFor modelId embeddingsEnabled where
  carried duty hopen := by
    rcases h.carried duty hopen with ⟨hreq, hduty⟩ | ⟨task, hmem, htask⟩ | ⟨slot, hslot⟩
    · rcases hrequest hreq with hreq | hmem
      · exact Or.inl ⟨hreq, hduty⟩
      · exact Carried.of_queue hmem trivial
    · exact Carried.of_queue (hqueue hmem) htask
    · exact Carried.of_stand slot hslot
  absent hnone := absurd hnone hstatus
  embedding := h.embedding
  keyed := h.keyed

/-- The document is there, and its request is to queue its ingestion. -/
theorem Inv.upload (h : s.Inv chunkIdFor modelId embeddingsEnabled) (hnone : s.status = none) :
    ({ s with status := some .pending, request := true } : Workshop Slot V).Inv chunkIdFor modelId
      embeddingsEnabled where
  carried duty hopen := by
    cases duty with
    | finish => exact Or.inl ⟨rfl, rfl⟩
    | embed row =>
        obtain ⟨henabled, hrow, hpending, -⟩ := hopen
        have hopen : s.Open modelId embeddingsEnabled (.embed row) :=
          ⟨henabled, hrow, hpending, by rw [hnone]; exact (Option.some_ne_none _).symm⟩
        exact absurd (h.carried _ hopen) (not_carried_of_drained (h.absent hnone))
  absent hstatus := by cases hstatus
  embedding := h.embedding
  keyed := h.keyed

variable [DecidableEq Slot]

@[simp] theorem stand_place_self (stand : Stand) : (s.place slot stand).stand slot = stand :=
  Function.update_self ..

theorem stand_place_of_ne {other : Slot} (h : other ≠ slot) (stand : Stand) :
    (s.place slot stand).stand other = s.stand other :=
  Function.update_of_ne h ..

/-- The slot that takes a task does what the task was to do. -/
theorem Inv.take (h : s.Inv chunkIdFor modelId embeddingsEnabled) {task : Task}
    (hfree : (s.stand slot).task = none) (hmem : task ∈ s.queue) :
    (s.take slot modelId task).Inv chunkIdFor modelId embeddingsEnabled := by
  have hstatus : (s.take slot modelId task).status = s.status := by cases task <;> rfl
  have hrows : (s.take slot modelId task).jobs.rows = s.jobs.rows := by cases task <;> rfl
  have hqueue : (s.take slot modelId task).queue = s.queue.erase task := by cases task <;> rfl
  have hrequest : (s.take slot modelId task).request = s.request := by cases task <;> rfl
  have hothers : ∀ other, other ≠ slot →
      (s.take slot modelId task).stand other = s.stand other ∧
      (s.take slot modelId task).jobs.job other = s.jobs.job other := by
    intro other hother
    cases task <;> exact ⟨Function.update_of_ne hother .., Function.update_of_ne hother ..⟩
  have hslot : ∀ duty, task.Carries duty →
      ((s.take slot modelId task).stand slot).Carries
        ((s.take slot modelId task).jobs.job slot) duty := by
    intro duty hcarries
    cases task with
    | ingestDocument =>
        rw [Workshop.take, stand_place_self]
        exact trivial
    | embedDocumentChunks =>
        cases duty with
        | finish => exact hcarries.elim
        | embed row =>
            rw [Workshop.take, stand_place_self, Jobs.job_put_self]
            exact ⟨row, rfl, trivial⟩
  constructor
  · intro duty hopen
    rcases h.carried duty ((open_congr hstatus hrows).mp hopen) with
      ⟨hreq, hduty⟩ | ⟨task', hmem', htask'⟩ | ⟨other, hother⟩
    · exact Or.inl ⟨hrequest ▸ hreq, hduty⟩
    · rcases eq_or_ne task' task with rfl | hne
      · exact Carried.of_stand slot (hslot duty htask')
      · refine Carried.of_queue ?_ htask'
        rw [hqueue]
        exact (List.mem_erase_of_ne hne).mpr hmem'
    · have hne : other ≠ slot := by
        rintro rfl
        obtain ⟨task', htask', -⟩ := carries_task hother
        cases hfree.symm.trans htask'
      refine Carried.of_stand other ?_
      rw [(hothers other hne).1, (hothers other hne).2]
      exact hother
  · intro hnone
    rw [(h.absent (hstatus ▸ hnone)).2.1] at hmem
    exact absurd hmem List.not_mem_nil
  · intro other hother
    rcases eq_or_ne other slot with rfl | hne
    · cases task with
      | ingestDocument =>
          rw [Workshop.take, stand_place_self] at hother
          cases hother
      | embedDocumentChunks =>
          exact ⟨.started, by rw [Workshop.take, Jobs.job_put_self]⟩
    · rw [(hothers other hne).1] at hother
      rw [(hothers other hne).2]
      exact h.embedding other hother
  · cases task with
    | ingestDocument => exact h.keyed.put slot rfl
    | embedDocumentChunks => exact h.keyed.put slot rfl

/-! ### The worker -/

/-- A worker moves on, and leaves the rows and the status. -/
theorem Inv.place (h : s.Inv chunkIdFor modelId embeddingsEnabled) (slot : Slot) {stand : Stand}
    (htask : (s.stand slot).task ≠ none) (hstand : stand ≠ .embedding)
    (hduty : ∀ duty, s.Open modelId embeddingsEnabled duty →
      (s.stand slot).Carries (s.jobs.job slot) duty → stand.Carries (s.jobs.job slot) duty) :
    (s.place slot stand).Inv chunkIdFor modelId embeddingsEnabled := by
  refine h.of_slot slot htask (fun other hother => stand_place_of_ne hother stand)
    (fun _ _ => rfl) rfl (List.Subset.refl _) id ?_ ?_ h.keyed
  · intro duty hopen
    refine Or.inr ⟨h.carried duty hopen, fun hslot => Carried.of_stand slot ?_⟩
    rw [stand_place_self]
    exact hduty duty hopen hslot
  · rw [stand_place_self]
    exact fun heq => absurd heq hstand

theorem Inv.read (h : s.Inv chunkIdFor modelId embeddingsEnabled)
    (hstep : s.read slot = some s') : s'.Inv chunkIdFor modelId embeddingsEnabled := by
  unfold Workshop.read at hstep
  split at hstep
  · rename_i status hstand hstatus
    obtain rfl := Option.some.inj hstep
    refine h.place slot (by rw [hstand]; exact Option.some_ne_none _) (by simp) ?_
    exact fun duty _ _ => trivial
  · rename_i task status hstand hstatus
    obtain rfl := Option.some.inj hstep
    refine h.place slot (by rw [hstand]; exact Option.some_ne_none _) (by simp) ?_
    intro duty hopen hslot
    rw [hstand] at hslot
    refine ⟨?_, hslot⟩
    rintro rfl
    exact not_open_of_failed hstatus hopen
  · cases hstep

/-- A job ends, and its slot does not go on with what is to be done. -/
theorem Inv.skip (h : s.Inv chunkIdFor modelId embeddingsEnabled)
    (hstep : s.skip slot = some s') : s'.Inv chunkIdFor modelId embeddingsEnabled := by
  unfold Workshop.skip at hstep
  split at hstep
  · rename_i model hstand hjob
    obtain rfl := Option.some.inj hstep
    refine h.of_slot slot (by rw [hstand]; exact Option.some_ne_none _)
      (fun other hother => stand_place_of_ne hother _)
      (fun other hother => s.jobs.job_put_of_ne slot hother _) rfl (List.Subset.refl _) id ?_ ?_
      (h.keyed.put slot rfl)
    · intro duty hopen
      refine Or.inr ⟨h.carried duty ((open_congr rfl rfl).mp hopen), fun hslot => ?_⟩
      rw [hstand, hjob] at hslot
      obtain ⟨row, -, hcovers⟩ := hslot
      exact absurd hcovers List.not_mem_nil
    · exact fun heq => by cases (stand_place_self _).symm.trans heq
  · cases hstep

theorem Inv.chain (h : s.Inv chunkIdFor modelId embeddingsEnabled)
    (hstep : s.chain slot embeddingsEnabled = some s') :
    s'.Inv chunkIdFor modelId embeddingsEnabled := by
  unfold Workshop.chain at hstep
  split at hstep
  · rename_i hstand
    obtain rfl := Option.some.inj hstep
    refine h.of_slot slot (by rw [hstand]; exact Option.some_ne_none _)
      (fun other hother => stand_place_of_ne hother _) (fun _ _ => rfl) rfl ?_ id ?_ ?_ h.keyed
    · dsimp only
      split
      · exact List.subset_append_left _ _
      · exact List.Subset.refl _
    · intro duty hopen
      refine Or.inr ⟨h.carried duty ((open_congr rfl rfl).mp hopen), fun hslot => ?_⟩
      rw [hstand] at hslot
      cases duty with
      | finish => exact hslot.elim
      | embed row =>
          have hmem : Task.embedDocumentChunks ∈ if embeddingsEnabled then
              s.queue ++ [.embedDocumentChunks] else s.queue := by
            rw [if_pos hopen.1]
            exact List.mem_append_right _ List.mem_cons_self
          exact Carried.of_queue hmem trivial
    · exact fun heq => by cases (stand_place_self _).symm.trans heq
  · cases hstep

/-- A handler that catches goes on with what the task was to do. -/
theorem Inv.fail (h : s.Inv chunkIdFor modelId embeddingsEnabled) {exc : Exc}
    (hstep : s.fail slot exc = some s') : s'.Inv chunkIdFor modelId embeddingsEnabled := by
  unfold Workshop.fail at hstep
  split_ifs at hstep with hcatches
  obtain ⟨task, htask, rfl⟩ := Option.map_eq_some_iff.mp hstep
  refine h.of_slot slot (by rw [htask]; exact Option.some_ne_none _)
    (fun other hother => stand_place_of_ne hother _)
    (fun other hother => s.jobs.job_put_of_ne slot hother _) rfl (List.Subset.refl _) id ?_ ?_
    (h.keyed.put slot rfl)
  · intro duty hopen
    refine Or.inr ⟨h.carried duty ((open_congr rfl rfl).mp hopen), fun hslot => ?_⟩
    obtain ⟨task', htask', hcarries⟩ := carries_task hslot
    obtain rfl := Option.some.inj (htask.symm.trans htask')
    refine Carried.of_stand slot ?_
    rw [show ({ s.place slot (.failed task) with jobs := s.jobs.put slot .idle } :
      Workshop Slot V).stand slot = .failed task from stand_place_self _]
    exact hcarries
  · exact fun heq => by cases (stand_place_self _).symm.trans heq

/-- A failure that is recorded is the end of it; where the session has read that the document has
failed, it was at an end before. -/
theorem Inv.record (h : s.Inv chunkIdFor modelId embeddingsEnabled)
    (hstep : s.record slot = some s') : s'.Inv chunkIdFor modelId embeddingsEnabled := by
  unfold Workshop.record at hstep
  split at hstep
  · rename_i task status hstand
    obtain rfl := Option.some.inj hstep
    refine h.of_slot slot (by rw [hstand]; exact Option.some_ne_none _)
      (fun other hother => stand_place_of_ne hother _) (fun _ _ => rfl) rfl (List.Subset.refl _)
      ?_ ?_ ?_ h.keyed
    · dsimp only [write]
      split
      · exact id
      · exact fun hnone => by cases hnone
    · intro duty hopen
      by_cases hfailed : status = .failed
      · have hsame : s.write status .failed = s.status := if_pos hfailed
        rw [hsame] at hopen
        refine Or.inr ⟨h.carried duty ((open_congr rfl rfl).mp hopen), fun hslot => ?_⟩
        rw [hstand] at hslot
        exact absurd hfailed hslot.1
      · exact absurd hopen (not_open_of_failed (if_neg hfailed))
    · exact fun heq => by cases (stand_place_self _).symm.trans heq
  · cases hstep

/-- A task that goes back in the queue does what the worker was at. -/
theorem Inv.redeliver (h : s.Inv chunkIdFor modelId embeddingsEnabled) {task : Task}
    (htask : (s.stand slot).task = some task) :
    ({ s.leave slot with queue := s.queue ++ [task] } : Workshop Slot V).Inv chunkIdFor modelId
      embeddingsEnabled := by
  refine h.of_slot slot (by rw [htask]; exact Option.some_ne_none _)
    (fun other hother => stand_place_of_ne hother _)
    (fun other hother => s.jobs.job_put_of_ne slot hother _) rfl (List.subset_append_left _ _) id
    ?_ ?_ (h.keyed.put slot rfl)
  · intro duty hopen
    refine Or.inr ⟨h.carried duty ((open_congr rfl rfl).mp hopen), fun hslot => ?_⟩
    obtain ⟨task', htask', hcarries⟩ := carries_task hslot
    obtain rfl := Option.some.inj (htask.symm.trans htask')
    exact Carried.of_queue (List.mem_append_right _ List.mem_cons_self) hcarries
  · exact fun heq => by cases (stand_place_self _).symm.trans heq

/-- A session that has the status that it has stays where it is. -/
theorem place_self {stand : Stand} (h : s.stand slot = stand) : s.place slot stand = s := by
  rw [← h, place, Function.update_eq_self]

/-! ### The statements on the rows -/

section Work

variable [Fintype Slot] {jobs : Jobs Slot V} {event : Event V}

/-- An ingestion that goes on carries everything. -/
theorem Inv.ingesting (h : s.Inv chunkIdFor modelId embeddingsEnabled) {status : IngestionStatus}
    (hstand : s.stand slot = .ingesting (some status))
    (hjobs : s.jobs.step chunkIdFor (slot, event) = some jobs) (status' : IngestionStatus)
    {written : Option IngestionStatus} (hwritten : written = none → s.status = none) :
    ({ s.place slot (.ingesting (some status')) with
      jobs, status := written } : Workshop Slot V).Inv chunkIdFor modelId embeddingsEnabled := by
  refine h.of_slot slot (by rw [hstand]; exact Option.some_ne_none _)
    (fun other hother => stand_place_of_ne hother _) (fun other => job_of_step hjobs) rfl
    (List.Subset.refl _) hwritten ?_ ?_ (h.keyed.step hjobs)
  · intro duty _
    refine Or.inl (Carried.of_stand slot ?_)
    rw [show ({ s.place slot (.ingesting (some status')) with jobs, status := written } :
      Workshop Slot V).stand slot = .ingesting (some status') from stand_place_self _]
    exact trivial
  · exact fun heq => by cases (stand_place_self _).symm.trans heq

/-- An ingestion that commits is at its end, but for the embedding of its rows. -/
theorem Inv.complete (h : s.Inv chunkIdFor modelId embeddingsEnabled) {status : IngestionStatus}
    (hstand : s.stand slot = .ingesting (some status))
    (hjobs : s.jobs.step chunkIdFor (slot, event) = some jobs) :
    ({ s.place slot .chaining with jobs, status := some .completed } : Workshop Slot V).Inv
      chunkIdFor modelId embeddingsEnabled := by
  refine h.of_slot slot (by rw [hstand]; exact Option.some_ne_none _)
    (fun other hother => stand_place_of_ne hother _) (fun other => job_of_step hjobs) rfl
    (List.Subset.refl _) (fun hnone => by cases hnone) ?_ ?_ (h.keyed.step hjobs)
  · intro duty hopen
    cases duty with
    | finish => simp [Open] at hopen
    | embed row =>
        refine Or.inl (Carried.of_stand slot ?_)
        rw [show ({ s.place slot .chaining with jobs, status := some .completed } :
          Workshop Slot V).stand slot = .chaining from stand_place_self _]
        exact trivial
  · exact fun heq => by cases (stand_place_self _).symm.trans heq

/-- An embedding job that goes on carries what it carried. -/
theorem Inv.embedding_step (h : s.Inv chunkIdFor modelId embeddingsEnabled)
    (hstand : s.stand slot = .embedding)
    (hjobs : s.jobs.step chunkIdFor (slot, event) = some jobs) (hcommit : event ≠ .commit)
    (habort : event ≠ .abort) :
    ({ s with jobs } : Workshop Slot V).Inv chunkIdFor modelId embeddingsEnabled := by
  obtain ⟨stage, hjob⟩ := h.embedding slot hstand
  obtain ⟨hrows, hstage, hcovers⟩ := covers_embedStep h.keyed hjob hjobs hcommit habort
  refine h.of_slot slot (by rw [hstand]; exact Option.some_ne_none _) (fun _ _ => rfl)
    (fun other => job_of_step hjobs) rfl (List.Subset.refl _) id ?_ (fun _ => hstage)
    (h.keyed.step hjobs)
  intro duty hopen
  have hbefore : s.Open modelId embeddingsEnabled duty := by
    cases duty with
    | finish => exact hopen
    | embed row => exact ⟨hopen.1, hrows ▸ hopen.2.1, hopen.2.2⟩
  refine Or.inr ⟨h.carried duty hbefore, fun hslot => Carried.of_stand slot ?_⟩
  rw [hstand] at hslot
  obtain ⟨row, rfl, hcovered⟩ := hslot
  change (s.stand slot).Carries (jobs.job slot) (.embed row)
  rw [hstand]
  exact ⟨row, rfl, hcovers row hbefore.2.1 hbefore.2.2.1 hcovered⟩

/-- An embedding job that commits leaves no row pending that it has carried. -/
theorem Inv.embedding_commit (h : s.Inv chunkIdFor modelId embeddingsEnabled)
    (hstand : s.stand slot = .embedding)
    (hjobs : s.jobs.step chunkIdFor (slot, .commit) = some jobs) :
    ({ s.place slot (.ended .embedDocumentChunks) with jobs } : Workshop Slot V).Inv
      chunkIdFor modelId embeddingsEnabled := by
  obtain ⟨stage, hjob⟩ := h.embedding slot hstand
  obtain ⟨done, rfl, rfl⟩ := commit_of_embedStep hjob hjobs
  refine h.of_slot slot (by rw [hstand]; exact Option.some_ne_none _)
    (fun other hother => stand_place_of_ne hother _) (fun other => job_of_step hjobs) rfl
    (List.Subset.refl _) id ?_ ?_ (h.keyed.step hjobs)
  · intro duty hopen
    cases duty with
    | finish =>
        refine Or.inr ⟨h.carried .finish hopen, fun hslot => ?_⟩
        rw [hstand] at hslot
        obtain ⟨row, hduty, -⟩ := hslot
        cases hduty
    | embed row' =>
        obtain ⟨henabled, hrow', hpending, hstatus⟩ := hopen
        obtain ⟨row, hrow, rfl⟩ := List.mem_map.mp hrow'
        obtain ⟨hnot, hsame⟩ := of_pending_written hpending
        rw [hsame] at hpending ⊢
        refine Or.inr ⟨h.carried _ ⟨henabled, hrow, hpending, hstatus⟩, fun hslot => ?_⟩
        rw [hstand, hjob] at hslot
        obtain ⟨covered, hduty, hcovers⟩ := hslot
        obtain rfl := (Duty.embed.inj hduty).symm
        rcases hcovers with htodo | hdone
        · exact absurd htodo List.not_mem_nil
        · exact absurd hdone hnot
  · exact fun heq => by cases (stand_place_self _).symm.trans heq

theorem Inv.work (h : s.Inv chunkIdFor modelId embeddingsEnabled)
    (hstep : s.work slot chunkIdFor event = some s') :
    s'.Inv chunkIdFor modelId embeddingsEnabled := by
  replace hstep := Option.bind_eq_some_iff.mp hstep
  obtain ⟨jobs, hjobs, hstep⟩ := hstep
  have hstays : ∀ {status : IngestionStatus}, s.stand slot = .ingesting (some status) →
      ({ s with jobs } : Workshop Slot V).Inv chunkIdFor modelId embeddingsEnabled := by
    intro status hstand
    have hstay := h.ingesting hstand hjobs status (fun hnone => hnone)
    rwa [place_self hstand] at hstay
  dsimp only at hstep
  split at hstep
  · rename_i status hstand
    obtain rfl := Option.some.inj hstep
    refine h.ingesting hstand hjobs _ fun hnone => ?_
    unfold write at hnone
    split at hnone
    · exact hnone
    · cases hnone
  · rename_i status chunks hstand
    obtain rfl := Option.some.inj hstep
    exact h.ingesting hstand hjobs _ fun hnone => by cases hnone
  · rename_i status hstand
    obtain rfl := Option.some.inj hstep
    exact h.complete hstand hjobs
  · rename_i status hstand
    obtain rfl := Option.some.inj hstep
    exact hstays hstand
  · rename_i status hstand
    obtain rfl := Option.some.inj hstep
    exact hstays hstand
  · rename_i status hstand
    obtain rfl := Option.some.inj hstep
    exact hstays hstand
  · rename_i hstand
    obtain rfl := Option.some.inj hstep
    exact h.embedding_step hstand hjobs (by simp) (by simp)
  · rename_i vectors hstand
    obtain rfl := Option.some.inj hstep
    exact h.embedding_step hstand hjobs (by simp) (by simp)
  · rename_i position hstand
    obtain rfl := Option.some.inj hstep
    exact h.embedding_step hstand hjobs (by simp) (by simp)
  · rename_i hstand
    obtain rfl := Option.some.inj hstep
    exact h.embedding_step hstand hjobs (by simp) (by simp)
  · rename_i hstand
    obtain rfl := Option.some.inj hstep
    exact h.embedding_commit hstand hjobs
  · cases hstep

end Work

/-! ### Every run -/

variable [Fintype Slot]

/-- **A step that drops nothing keeps the invariant.** -/
theorem Inv.step (h : s.Inv chunkIdFor modelId embeddingsEnabled) {action : Action Slot V}
    (hstep : s.step chunkIdFor modelId embeddingsEnabled action = some s')
    (hkeeps : action.keeps = true) : s'.Inv chunkIdFor modelId embeddingsEnabled := by
  have hthere : ∀ {slot : Slot}, (s.stand slot).task ≠ none → s.status ≠ none :=
    fun htask hnone => htask ((h.absent hnone).2.2 _)
  cases action with
  | upload =>
      simp only [Workshop.step] at hstep
      split_ifs at hstep with hnone
      obtain rfl := Option.some.inj hstep
      exact h.upload hnone
  | enqueue =>
      simp only [Workshop.step] at hstep
      split_ifs at hstep with hrequest
      obtain rfl := Option.some.inj hstep
      refine h.of_queue (List.subset_append_left _ _) (fun hnone => ?_)
        fun _ => Or.inr (List.mem_append_right _ List.mem_cons_self)
      cases (h.absent hnone).1.symm.trans hrequest
  | rerun task =>
      simp only [Workshop.step] at hstep
      split_ifs at hstep with hnone
      obtain rfl := Option.some.inj hstep
      exact h.of_queue (List.subset_append_left _ _) hnone Or.inl
  | take slot task =>
      simp only [Workshop.step] at hstep
      split_ifs at hstep with hfree
      obtain rfl := Option.some.inj hstep
      exact h.take hfree.1 hfree.2
  | read slot => exact h.read hstep
  | work slot event => exact h.work hstep
  | skip slot => exact h.skip hstep
  | chain slot => exact h.chain hstep
  | fail slot exc => exact h.fail hstep
  | record slot => exact h.record hstep
  | finish slot =>
      simp only [Workshop.step] at hstep
      split at hstep
      · rename_i task hstand
        obtain rfl := Option.some.inj hstep
        refine h.place slot (by rw [hstand]; exact Option.some_ne_none _) (by simp) ?_
        intro duty _ hslot
        rw [hstand] at hslot
        exact hslot
      · cases hstep
  | redeliver slot =>
      obtain ⟨task, htask, rfl⟩ := Option.map_eq_some_iff.mp hstep
      exact h.redeliver htask
  | escape slot => cases hkeeps
  | drop slot => cases hkeeps
  | dropRequest => cases hkeeps

theorem Inv.run (h : s.Inv chunkIdFor modelId embeddingsEnabled) {actions : List (Action Slot V)}
    (hkeeps : ∀ action ∈ actions, action.keeps = true)
    (hrun : Runs.run (Workshop.step chunkIdFor modelId embeddingsEnabled) s actions = some s') :
    s'.Inv chunkIdFor modelId embeddingsEnabled := by
  induction actions generalizing s with
  | nil => exact Option.some.inj hrun ▸ h
  | cons action actions ih =>
      obtain ⟨m, hm, hrest⟩ := run_cons.mp hrun
      obtain ⟨hkeep, hkeeps⟩ := List.forall_mem_cons.mp hkeeps
      exact ih (h.step hm hkeep) hkeeps hrest

/-- **No work is lost.**  However uploads, workers and their failures interleave, as long as
nothing is dropped: every task is about a document that is there; what is not done is still to be
done by somebody; and when there is nothing more to do, the document has failed, or it is completed
and, where embedding is configured, every row of it has its vector. -/
theorem no_work_lost {actions : List (Action Slot V)}
    (hkeeps : ∀ action ∈ actions, action.keeps = true)
    (hrun : Runs.run (step chunkIdFor modelId embeddingsEnabled) {} actions = some s) :
    (s.status = none → s.Drained) ∧
    (∀ duty, s.Open modelId embeddingsEnabled duty → s.Carried duty) ∧
    (s.Drained → s.status = none ∨ s.status = some .failed ∨ (s.status = some .completed ∧
      (embeddingsEnabled = true → ∀ row ∈ s.jobs.rows, row.Pending modelId = false))) := by
  have h : s.Inv chunkIdFor modelId embeddingsEnabled := inv_init.run hkeeps hrun
  refine ⟨h.absent, h.carried, fun hdrained => ?_⟩
  have hnone : ∀ duty, ¬ s.Open modelId embeddingsEnabled duty :=
    fun duty hopen => not_carried_of_drained hdrained (h.carried duty hopen)
  have hunfinished := hnone .finish
  have hrows : s.status = some .completed → embeddingsEnabled = true →
      ∀ row ∈ s.jobs.rows, row.Pending modelId = false := by
    intro hstatus henabled row hrow
    refine Bool.eq_false_iff.mpr fun hpending => hnone (.embed row) ?_
    exact ⟨henabled, hrow, hpending, by rw [hstatus]; simp⟩
  cases hstatus : s.status with
  | none => exact Or.inl rfl
  | some status =>
      cases status with
      | pending => exact absurd (Or.inl hstatus) hunfinished
      | parsing => exact absurd (Or.inr (Or.inl hstatus)) hunfinished
      | chunking => exact absurd (Or.inr (Or.inr hstatus)) hunfinished
      | completed => exact Or.inr (Or.inr ⟨rfl, hrows hstatus⟩)
      | failed => exact Or.inr (Or.inl rfl)

/-- An upload, a worker that dies when its ingestion has crashed, and one that ingests a chunk. -/
def sampleActions (first second : Bool) : List (Action Bool ℕ) :=
  [.upload, .enqueue, .take first .ingestDocument, .read first, .work first .parse,
    .fail first .crash, .redeliver first, .take second .ingestDocument, .read second,
    .work second .parse,
    .work second (.chunk [{ text := [0x61], ordinal := 0, tokenCount := 1 }]),
    .work second .delete, .work second .deleted, .work second .insert, .work second .commit,
    .chain second, .finish second]

/-- The embedding of its row. -/
def sampleEmbedding (i : Bool) : List (Action Bool ℕ) :=
  [.take i .embedDocumentChunks, .work i .load, .work i (.answer [7]), .work i (.update 0),
    .work i .updated, .work i .commit, .finish i]

/-- The system in which they run. -/
abbrev sampleStep : Workshop Bool ℕ → Action Bool ℕ → Option (Workshop Bool ℕ) :=
  step (fun ordinal => Fin.ofNat _ ordinal) "mistral-embed" true

instance : Decidable s.Drained := inferInstanceAs (Decidable (_ ∧ _ ∧ ∀ _, _))

/-- They leave the document completed, and no row of it pending. -/
theorem no_work_lost_sample :
    ∃ s, run sampleStep {} (sampleActions false true ++ sampleEmbedding false) = some s ∧
    s.status = some .completed ∧ s.jobs.rows.map (·.embedding) = [some 7] ∧
    ∀ row ∈ s.jobs.rows, row.Pending "mistral-embed" = false := by
  have hends : ∃ s ∈ run sampleStep {} (sampleActions false true ++ sampleEmbedding false),
      s.Drained ∧ s.status = some .completed ∧ s.jobs.rows.map (·.embedding) = [some 7] := by
    decide +kernel
  obtain ⟨s, hrun, hdrained, hstatus, hvectors⟩ := hends
  refine ⟨s, hrun, hstatus, hvectors, ?_⟩
  rcases (no_work_lost (by decide) hrun).2.2 hdrained with h | h | ⟨-, hrows⟩
  · cases hstatus.symm.trans h
  · cases hstatus.symm.trans h
  · exact hrows rfl

/-- Each way to drop something loses work: a request that ends before it queues the ingestion, an
ingestion that the queue gives up, one that cannot queue the embedding, and an embedding that
raises what is no `DomainError` leave nobody to go on. -/
theorem lost_by_drop :
    (∃ s, run sampleStep {} [.upload, .dropRequest] = some s ∧ s.Drained ∧
      s.status = some .pending) ∧
    (∃ s, run sampleStep {} ((sampleActions false true).take 5 ++ [.drop false]) = some s ∧
      s.Drained ∧ s.status = some .parsing) ∧
    (∃ s, run sampleStep {} ((sampleActions false true).take 15 ++ [.escape true]) = some s ∧
      s.Drained ∧ s.status = some .completed ∧
        ∃ row ∈ s.jobs.rows, row.Pending "mistral-embed") ∧
    ∃ s, run sampleStep {} (sampleActions false true ++
        [.take true .embedDocumentChunks, .escape true]) = some s ∧
      s.Drained ∧ s.status = some .completed ∧
        ∃ row ∈ s.jobs.rows, row.Pending "mistral-embed" := by
  have hrequest : ∃ s ∈ run sampleStep {} [.upload, .dropRequest],
      s.Drained ∧ s.status = some .pending := by decide +kernel
  have hingestion : ∃ s ∈ run sampleStep {} ((sampleActions false true).take 5 ++ [.drop false]),
      s.Drained ∧ s.status = some .parsing := by decide +kernel
  have hchain : ∃ s ∈ run sampleStep {} ((sampleActions false true).take 15 ++ [.escape true]),
      s.Drained ∧ s.status = some .completed ∧
        ∃ row ∈ s.jobs.rows, row.Pending "mistral-embed" := by decide +kernel
  have hembedding : ∃ s ∈ run sampleStep {}
      (sampleActions false true ++ [.take true .embedDocumentChunks, .escape true]),
      s.Drained ∧ s.status = some .completed ∧
        ∃ row ∈ s.jobs.rows, row.Pending "mistral-embed" := by decide +kernel
  exact ⟨hrequest, hingestion, hchain, hembedding⟩

end Workshop
end Workers
end EvidenceLab
