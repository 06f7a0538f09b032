/-
# Every row is in a project of its owner

Traces, datasets and runs name their project and their owner, and a run names its dataset, each
in a column of its own.  No constraint says that these agree.  What writes the rows has looked
the project or the dataset up by the owner before, and an attempt at a run leaves it where it
is; so they do (`housing_of_run`).
-/

import EvidenceLab.Evaluation.Scope
import EvidenceLab.Tenancy.Ownership

namespace EvidenceLab
namespace Tenancy

open Text Data EvidenceLab.Core Retrieval Ingest Evaluation Reasoning Runs Session

variable {V K : Type}

/-- The project of a dataset, and whose it is. -/
def EvaluationDataset.home (d : EvaluationDataset) : Uuid × Uuid := (d.projectId, d.organizationId)

/-- The project of a run, and whose it is. -/
def StoredRun.home (r : StoredRun K) : Uuid × Uuid := (r.projectId, r.organizationId)

/-- The project of a trace, and whose it is. -/
def StoredTrace.home (t : StoredTrace) : Uuid × Uuid := (t.row.projectId, t.organizationId)

/-- Traces and datasets have the owner of their project, and runs are where their datasets are. -/
structure Tables.Housed (s : Tables V K) : Prop where
  traces : ∀ t ∈ s.traces, t.home ∈ s.owners
  datasets : ∀ d ∈ s.datasets, d.home ∈ s.owners
  runs : ∀ r ∈ s.runs, ∃ d ∈ s.datasets, d.id = r.datasetId ∧ d.home = r.home

/-- All states have been so, and no dataset is gone. -/
structure Housing (h : History (Tables V K)) : Prop where
  housed : ∀ s ∈ h.states, s.Housed
  datasets : ∀ s ∈ h.states, s.datasets ⊆ h.now.datasets

theorem Housing.now {h : History (Tables V K)} (hh : Housing h) : h.now.Housed :=
  hh.housed _ List.mem_cons_self

/-- What a transaction may make of the tables. -/
structure Houses (s s' : Tables V K) : Prop where
  housed : s'.Housed
  datasets : s.datasets ⊆ s'.datasets

section Operations

variable {b : Backend V} {chunkIdFor : Uuid → ℕ → Uuid} {h : History (Tables V K)}
  {snapshot : ℕ → ℕ} {principal : Principal} {s : Tables V K} {now : ℤ}

/-- An operation on other tables. -/
theorem Housing.unwritten (hh : Housing h) (howners : h.now.owners ⊆ s.owners)
    (htraces : s.traces = h.now.traces) (hdatasets : s.datasets = h.now.datasets)
    (hruns : s.runs = h.now.runs) : Houses h.now s where
  housed := by
    refine ⟨fun t ht => howners ?_, fun d hd => howners ?_, fun r hr => ?_⟩
    · exact hh.now.traces t (htraces ▸ ht)
    · exact hh.now.datasets d (hdatasets ▸ hd)
    · rw [hdatasets]
      exact hh.now.runs r (hruns ▸ hr)
  datasets := hdatasets ▸ fun _ => id

/-- A new trace, of a query in a project that was looked up. -/
theorem Housing.createQuery (hh : Housing h) (hinv : Inv chunkIdFor h) {deps : TracedDeps}
    {embeddings : Option (EmbeddingPipeline V)} {request : QueryRequest} :
    Houses h.now (h.now.createQuery b (h.seen snapshot) principal deps embeddings request now) := by
  refine ⟨⟨fun t ht => ?_, hh.now.datasets, hh.now.runs⟩, fun _ => id⟩
  rcases List.mem_append.mp ht with ht | ht
  · exact hh.now.traces t ht
  · obtain ⟨saved, hsaved, rfl⟩ := List.mem_map.mp ht
    obtain ⟨project, hproject, howner, hrow, -⟩ := mem_createQueryTraced hsaved
    show (saved.row.projectId, saved.organizationId) ∈ h.now.owners
    rw [hrow, howner]
    exact hinv.checked hproject

/-- A new dataset, in a project that was looked up. -/
theorem Housing.createDataset (hh : Housing h) (hinv : Inv chunkIdFor h) {payload : DatasetCreate}
    {datasetId : Uuid} {itemId : ℕ → Uuid}
    (hs : h.now.createDataset b (h.seen snapshot) principal payload datasetId itemId now = some s) :
    Houses h.now s := by
  obtain ⟨project, hproject, hs⟩ := Option.bind_eq_some_iff.mp hs
  obtain rfl := Option.some.inj hs
  refine ⟨⟨hh.now.traces, fun d hd => ?_, fun r hr => ?_⟩, List.subset_append_left _ _⟩
  · rcases List.mem_append.mp hd with hd | hd
    · exact hh.now.datasets d hd
    · obtain ⟨hp, -, howner⟩ := of_getProject (toOption_eq_some.mp hproject)
      rw [List.mem_singleton.mp hd]
      show (project.id, principal.organizationId) ∈ h.now.owners
      rw [← howner]
      exact hinv.owner_now (h.seen_mem snapshot 0) (List.mem_map_of_mem hp)
  · obtain ⟨d, hd, hsame⟩ := hh.now.runs r hr
    exact ⟨d, List.mem_append_left _ hd, hsame⟩

/-- What is found of a dataset is a row of the principal's organization. -/
theorem of_getDataset {datasetId : Uuid} {dataset : EvaluationDataset}
    (hget : getDataset b s principal datasetId = .ok dataset) :
    ∃ row ∈ s.datasets, dataset = row.load b ∧ row.id = datasetId ∧
      row.organizationId = principal.organizationId := by
  rw [getDataset] at hget
  cases hrow : orRaise (datasetNotFound datasetId) (b.engine.scalar (·.id)
      (fun d => d.id = datasetId ∧ d.organizationId = principal.organizationId) s.datasets) with
  | error e =>
      rw [hrow] at hget
      cases hget
  | ok row =>
      rw [hrow] at hget
      obtain ⟨hmem, hselected⟩ := Engine.of_scalar (orRaise_eq_ok.mp hrow)
      obtain ⟨hid, howner⟩ := of_decide_eq_true hselected
      exact ⟨row, hmem, (Except.ok.inj hget).symm, hid, howner⟩

/-- The dataset of a new run, which is looked up twice, is one row. -/
theorem Housing.checked (hh : Housing h) (hinv : Inv chunkIdFor h) {datasetId : Uuid}
    {checked dataset : EvaluationDataset}
    (hchecked : getDataset b (h.seen snapshot 0) principal datasetId = .ok checked)
    (hdataset : getDataset b (h.seen snapshot 1) principal checked.id = .ok dataset) :
    ∃ row ∈ h.now.datasets, checked = row.load b ∧ dataset = row.load b ∧
      row.organizationId = principal.organizationId := by
  obtain ⟨row, hrow, rfl, -, -⟩ := of_getDataset hchecked
  obtain ⟨row', hrow', rfl, hid, howner⟩ := of_getDataset hdataset
  have hmem := hh.datasets _ (h.seen_mem snapshot 0) hrow
  have hmem' := hh.datasets _ (h.seen_mem snapshot 1) hrow'
  obtain rfl := List.inj_on_of_nodup_map hinv.now.keyed.datasets hmem' hmem hid
  exact ⟨row', hmem', rfl, rfl, howner⟩

/-- A new run, of a dataset that was looked up. -/
theorem Housing.createRun (hh : Housing h) (hinv : Inv chunkIdFor h) {payload : RunCreate}
    {runId : Uuid}
    (hs : h.now.createRun b (h.seen snapshot) principal payload runId now = some s) :
    Houses h.now s := by
  obtain ⟨checked, hchecked, hs⟩ := Option.bind_eq_some_iff.mp hs
  obtain ⟨dataset, hdataset, hs⟩ := Option.bind_eq_some_iff.mp hs
  obtain rfl := Option.some.inj hs
  obtain ⟨row, hrow, rfl, rfl, howner⟩ :=
    hh.checked hinv (toOption_eq_some.mp hchecked) (toOption_eq_some.mp hdataset)
  refine ⟨⟨hh.now.traces, hh.now.datasets, fun r hr => ?_⟩, fun _ => id⟩
  rcases List.mem_append.mp hr with hr | hr
  · exact hh.now.runs r hr
  · rw [List.mem_singleton.mp hr]
    exact ⟨row, hrow, rfl, Prod.ext rfl howner⟩

/-- An attempt at a run. -/
theorem Housing.execute [Field K] [LinearOrder K] {log2 : ℕ → K} (hh : Housing h)
    {a : ExecuteAttempt} {embeddings : Option (EmbeddingPipeline V)} {resultId : ℕ → Uuid}
    {times : Option ℤ × Option ℤ} (hinv : Inv chunkIdFor h)
    (hs : h.now.execute b log2 (h.seen snapshot) a embeddings resultId times now = some s) :
    Houses h.now s := by
  obtain ⟨row, hrow, hs⟩ := Option.bind_eq_some_iff.mp hs
  obtain ⟨dataset, -, hs⟩ := Option.bind_eq_some_iff.mp hs
  obtain ⟨left, hleft, hs⟩ := Option.bind_eq_some_iff.mp hs
  obtain rfl := Option.some.inj hs
  refine ⟨⟨hh.now.traces, hh.now.datasets, fun r hr => ?_⟩, fun _ => id⟩
  obtain ⟨other, hother, rfl⟩ := List.mem_map.mp hr
  split
  · rename_i hid
    obtain rfl :=
      List.inj_on_of_nodup_map hinv.now.keyed.runs hother (List.mem_of_find?_eq_some hrow) hid
    obtain ⟨d, hd, hsame, hhome⟩ := hh.now.runs other hother
    exact ⟨d, hd, hsame, hhome.trans (Prod.ext (projectId_execute hleft).symm rfl)⟩
  · exact hh.now.runs other hother

end Operations

/-! ### Every run -/

section Runs

variable [Field K] [LinearOrder K] {b : Backend V} {log2 : ℕ → K} {chunkIdFor : Uuid → ℕ → Uuid}
  {h h' : History (Tables V K)}

theorem Housing.effect (hh : Housing h) (hinv : Inv chunkIdFor h) {command : Command V}
    {snapshot : ℕ → ℕ} {s : Tables V K}
    (hs : effect b log2 chunkIdFor (h.seen snapshot) h.now command = some s) :
    Houses h.now s := by
  have howners := (hinv.effect hs).grows.owners
  cases command with
  | createProject principal payload projectId now =>
      obtain rfl := Option.some.inj hs
      exact hh.unwritten howners rfl rfl rfl
  | upload principal projectId a now =>
      obtain ⟨projectId', -, hs⟩ := Option.bind_eq_some_iff.mp hs
      dsimp only at hs
      split at hs
      · obtain rfl := Option.some.inj hs
        exact hh.unwritten howners rfl rfl rfl
      · cases hs
  | createQuery principal deps embeddings request now =>
      obtain rfl := Option.some.inj hs
      exact hh.createQuery hinv
  | createDataset principal payload datasetId itemId now => exact hh.createDataset hinv hs
  | createRun principal payload runId now => exact hh.createRun hinv hs
  | runIngestion a now =>
      obtain ⟨d, -, hs⟩ := Option.bind_eq_some_iff.mp hs
      obtain rfl := Option.some.inj hs
      exact hh.unwritten howners rfl rfl rfl
  | embedDocument a now =>
      obtain ⟨d, -, hs⟩ := Option.bind_eq_some_iff.mp hs
      obtain rfl := Option.some.inj hs
      exact hh.unwritten howners rfl rfl rfl
  | execute a embeddings resultId times now => exact hh.execute hinv hs

theorem Housing.step (hh : Housing h) (hinv : Inv chunkIdFor h) {e : Command V × (ℕ → ℕ)}
    (hstep : h.step (commit b log2 chunkIdFor) e = some h') : Housing h' := by
  obtain ⟨s, hcommit, rfl⟩ := History.step_eq_some.mp hstep
  obtain ⟨s', heffect, hchecked⟩ := Option.bind_eq_some_iff.mp hcommit
  obtain ⟨-, rfl⟩ := Tables.checked_eq_some.mp hchecked
  have hhouses := hh.effect hinv heffect
  refine ⟨fun s' hs' => ?_, fun s' hs' => ?_⟩
  · rcases List.mem_cons.mp hs' with rfl | hs'
    · exact hhouses.housed
    · exact hh.housed s' hs'
  · rcases List.mem_cons.mp hs' with rfl | hs'
    · exact fun _ => id
    · exact fun _ hd => hhouses.datasets (hh.datasets s' hs' hd)

omit [Field K] [LinearOrder K] in
/-- Before anything is written. -/
theorem housing_init : Housing (⟨{}, []⟩ : History (Tables V K)) := by
  constructor
  · intro s hs
    rw [List.mem_singleton.mp hs]
    constructor
    · exact fun t ht => absurd ht List.not_mem_nil
    · exact fun d hd => absurd hd List.not_mem_nil
    · exact fun r hr => absurd hr List.not_mem_nil
  · intro s hs
    rw [List.mem_singleton.mp hs]
    exact fun _ => id

/-- **Every row is in a project of its owner**, in every state of every history. -/
theorem housing_of_run {es : List (Command V × (ℕ → ℕ))}
    (hrun : run (History.step (commit b log2 chunkIdFor)) ⟨{}, []⟩ es = some h) : Housing h := by
  refine (invariant_of_run (I := fun h : History (Tables V K) => Inv chunkIdFor h ∧ Housing h)
    ?_ ⟨inv_init, housing_init⟩ hrun).2
  rintro h e h' ⟨hinv, hh⟩ hstep
  exact ⟨Inv.step hinv hstep, hh.step hinv hstep⟩

end Runs

end Tenancy
end EvidenceLab
