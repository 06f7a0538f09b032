/-
# The heatmap, audited

A heatmap shows means that were computed when a run was published, in a worker, from searches of
a corpus that may have changed since.  What they were computed from is still there: a dataset
does not change, and a run that is completed keeps the results of its report
(`Tables.Audited`).  So every number on a heatmap can be computed again from rows
(`heatmap_audited`), and those of retrieval from ids alone.

A gap says that no run of the strategy has an item under the condition.
-/

import EvidenceLab.Evaluation.Audit
import EvidenceLab.Tenancy.Housing
import EvidenceLab.Tenancy.Isolation
import EvidenceLab.Visualization.StoredHeatmap

namespace EvidenceLab
namespace Tenancy

open Text Data EvidenceLab.Core Ingest Evaluation Visualization Runs Session

variable {V K : Type} [Field K] [LinearOrder K]

/-! ### What is written to the runs -/

omit [Field K] [LinearOrder K] in
/-- The items of a dataset, as a run reads them. -/
def EvaluationDataset.specs (dataset : EvaluationDataset) : List EvaluationItem :=
  dataset.items.map (·.toEvaluationItem)

omit [Field K] [LinearOrder K] in
theorem EvaluationDataset.specs_load (b : Backend V) (dataset : EvaluationDataset) :
    (dataset.load b).specs.Perm dataset.specs := Engine.perm_orderBy.map _

section Effects

variable {b : Backend V} {log2 : ℕ → K} {chunkIdFor : Uuid → ℕ → Uuid} {seen : ℕ → Tables V K}
  {s s' : Tables V K}

/-- An attempt at a row of the runs makes the other row of it. -/
def Attempted (b : Backend V) (log2 : ℕ → K) (s : Tables V K) (run run' : StoredRun K) : Prop :=
  run ∈ s.runs ∧ run'.datasetId = run.datasetId ∧
    ∃ dataset ∈ s.datasets, dataset.id = run.datasetId ∧ ∃ a,
      (perform (Evaluation.execute log2 a (dataset.load b).specs) (some run.toEvaluationRun)).2 =
        some run'.toEvaluationRun

omit [Field K] [LinearOrder K] in
/-- A run of a dataset that nobody has attempted. -/
def Pending (s : Tables V K) (run : StoredRun K) : Prop :=
  run.status = .pending ∧ ∃ dataset ∈ s.datasets, dataset.id = run.datasetId ∧
    run.itemCount = dataset.specs.length

/-- **What an operation does to datasets and runs.**  Datasets stay; a run is as it was, pending,
or what an attempt makes of it. -/
theorem runs_of_effect {command : Command V}
    (hkeyed : s.Keyed) (hseen : ∀ i, (seen i).datasets ⊆ s.datasets)
    (hs : effect b log2 chunkIdFor seen s command = some s') :
    s.datasets ⊆ s'.datasets ∧ ∀ run' ∈ s'.runs, run' ∈ s.runs ∨ Pending s run' ∨
      ∃ run, Attempted b log2 s run run' := by
  have hsame : s'.datasets = s.datasets → s'.runs = s.runs → s.datasets ⊆ s'.datasets ∧
      ∀ run' ∈ s'.runs, run' ∈ s.runs ∨ Pending s run' ∨
        ∃ run, Attempted b log2 s run run' :=
    fun hdatasets hruns => ⟨hdatasets ▸ fun _ => id, fun _ hrun => Or.inl (hruns ▸ hrun)⟩
  cases command with
  | createProject principal payload projectId now =>
      obtain rfl := Option.some.inj hs
      exact hsame rfl rfl
  | upload principal projectId a now =>
      obtain ⟨projectId', -, hs⟩ := Option.bind_eq_some_iff.mp hs
      dsimp only at hs
      split at hs
      · obtain rfl := Option.some.inj hs
        exact hsame rfl rfl
      · cases hs
  | createQuery principal deps embeddings request now =>
      obtain rfl := Option.some.inj hs
      exact hsame rfl rfl
  | createDataset principal payload datasetId itemId now =>
      obtain ⟨project, -, hs⟩ := Option.bind_eq_some_iff.mp hs
      obtain rfl := Option.some.inj hs
      exact ⟨List.subset_append_left _ _, fun _ => Or.inl⟩
  | createRun principal payload runId now =>
      obtain ⟨checked, -, hs⟩ := Option.bind_eq_some_iff.mp hs
      obtain ⟨dataset, hdataset, hs⟩ := Option.bind_eq_some_iff.mp hs
      obtain rfl := Option.some.inj hs
      obtain ⟨row, hrow, rfl, -, -⟩ := of_getDataset (toOption_eq_some.mp hdataset)
      refine ⟨fun _ => id, fun run' hrun => (List.mem_append.mp hrun).imp_right fun hnew => ?_⟩
      rw [List.mem_singleton.mp hnew]
      exact Or.inl ⟨rfl, row, hseen 1 hrow, rfl, (row.specs_load b).length_eq⟩
  | runIngestion a now =>
      obtain ⟨d, -, hs⟩ := Option.bind_eq_some_iff.mp hs
      obtain rfl := Option.some.inj hs
      exact hsame rfl rfl
  | embedDocument a now =>
      obtain ⟨d, -, hs⟩ := Option.bind_eq_some_iff.mp hs
      obtain rfl := Option.some.inj hs
      exact hsame rfl rfl
  | execute a embeddings resultId times now =>
      obtain ⟨row, hrow, hs⟩ := Option.bind_eq_some_iff.mp hs
      obtain ⟨dataset, hdataset, hs⟩ := Option.bind_eq_some_iff.mp hs
      obtain ⟨left, hleft, hs⟩ := Option.bind_eq_some_iff.mp hs
      obtain rfl := Option.some.inj hs
      refine ⟨fun _ => id, fun run' hrun => ?_⟩
      obtain ⟨other, hother, rfl⟩ := List.mem_map.mp hrun
      have hmem := List.mem_of_find?_eq_some hrow
      have hid : dataset.id = row.datasetId := by simpa using List.find?_some hdataset
      split
      · rename_i hsameid
        obtain rfl := List.inj_on_of_nodup_map hkeyed.runs hother hmem hsameid
        exact Or.inr (Or.inr ⟨other, hmem, rfl, dataset, List.mem_of_find?_eq_some hdataset, hid,
          _, hleft⟩)
      · exact Or.inl hother

end Effects

/-! ### The invariant -/

/-- The report of every run is made of its results, one for each item of its dataset. -/
def Tables.Audited (log2 : ℕ → K) (s : Tables V K) : Prop :=
  ∀ run ∈ s.runs, ∃ dataset ∈ s.datasets, dataset.id = run.datasetId ∧
    Evaluation.Audited log2 dataset.specs run.toEvaluationRun

section Runs

variable {b : Backend V} {log2 : ℕ → K} {chunkIdFor : Uuid → ℕ → Uuid} {h h' : History (Tables V K)}

/-- **One operation keeps the reports.** -/
theorem Tables.Audited.effect {seen : ℕ → Tables V K} {s s' : Tables V K} {command : Command V}
    (haudited : s.Audited log2) (hkeyed : s.Keyed) (hseen : ∀ i, (seen i).datasets ⊆ s.datasets)
    (hs : Tenancy.effect b log2 chunkIdFor seen s command = some s') : s'.Audited log2 := by
  obtain ⟨hdatasets, hruns⟩ := runs_of_effect hkeyed hseen hs
  intro run' hrun'
  rcases hruns run' hrun' with
    hrun | ⟨hpending, dataset, hdataset, hid, hcount⟩ |
      ⟨run, hrun, hsame, dataset, hdataset, hid, a, hleft⟩
  · obtain ⟨dataset, hdataset, hid, hreport⟩ := haudited run' hrun
    exact ⟨dataset, hdatasets hdataset, hid, hreport⟩
  · exact ⟨dataset, hdatasets hdataset, hid, audited_of_status hcount (by rw [hpending]; simp)⟩
  · obtain ⟨dataset', hdataset', hid', hreport⟩ := haudited run hrun
    obtain rfl := List.inj_on_of_nodup_map hkeyed.datasets hdataset hdataset' (hid.trans hid'.symm)
    refine ⟨dataset, hdatasets hdataset, hid.trans hsame.symm, ?_⟩
    exact committed_of_wp (audited_execute (dataset.specs_load b) hreport) _ hleft

/-- **The reports of all runs are made of rows**, in every state of every history. -/
theorem audited_of_run {es : List (Command V × (ℕ → ℕ))}
    (hrun : run (History.step (commit b log2 chunkIdFor)) ⟨{}, []⟩ es = some h) :
    ∀ s ∈ h.states, s.Audited log2 := by
  refine (invariant_of_run (I := fun h : History (Tables V K) =>
    (Inv chunkIdFor h ∧ Housing h) ∧ ∀ s ∈ h.states, s.Audited log2) ?_
    ⟨⟨inv_init, housing_init⟩, ?_⟩ hrun).2
  · rintro h e h' ⟨⟨hinv, hhousing⟩, haudited⟩ hstep
    refine ⟨⟨Inv.step hinv hstep, hhousing.step hinv hstep⟩, ?_⟩
    obtain ⟨s', hcommit, rfl⟩ := History.step_eq_some.mp hstep
    obtain ⟨s'', heffect, hchecked⟩ := Option.bind_eq_some_iff.mp hcommit
    obtain ⟨-, rfl⟩ := Tables.checked_eq_some.mp hchecked
    intro s hs
    rcases List.mem_cons.mp hs with rfl | hs
    · exact (haudited _ List.mem_cons_self).effect hinv.now.keyed
        (fun i => hhousing.datasets _ (h.seen_mem e.2 i)) heffect
    · exact haudited s hs
  · intro s hs
    rw [List.mem_singleton.mp hs]
    exact fun run hrun => absurd hrun List.not_mem_nil

end Runs

/-! ### The heatmap -/

section Heatmaps

variable (b : Backend V) (log2 : ℕ → K) (s : Tables V K)

omit [Field K] [LinearOrder K] in
/-- The completed runs of a project that a principal may see, the newest first. -/
def completedRuns (principal : Principal) (projectId : Uuid) : List (StoredRun K) :=
  (listRuns b s principal projectId).filter (·.status = .completed)

omit [Field K] [LinearOrder K] in
/-- The run has an item under the condition. -/
def Covers (run : StoredRun K) (condition : Str) : Prop :=
  ∃ dataset ∈ s.datasets, dataset.id = run.datasetId ∧
    ∃ item ∈ dataset.specs, item.evidenceCondition = condition

omit [LinearOrder K] in
/-- The cell shows the mean of the values that the items under its condition have, and their
count. -/
def Shows (cell : HeatmapCell K) (items : List EvaluationItem) (rows : List (EvaluationResult K))
    (value : EvaluationItem → EvaluationResult K → Option K) : Prop :=
  let values := ((items.zip rows).filter fun pair => pair.1.evidenceCondition = cell.column).map
    fun pair => value pair.1 pair.2
  cell.value = mean values ∧ cell.n = definedCount values

/-- The cell shows a metric of the results in the report of a run. -/
structure CellOf (name : MetricName) (run : StoredRun K) (cell : HeatmapCell K) : Prop where
  runId : cell.runId = some run.id.str
  row : run.strategy b = cell.row
  covers : Covers s run cell.column
  made : ∃ dataset ∈ s.datasets, dataset.id = run.datasetId ∧
    ∃ order, order.Perm dataset.specs ∧ ∃ rows, ReportOf log2 order run.toEvaluationRun rows ∧
      rows.length = run.itemCount ∧ Shows cell order rows (fun _ row => row.score.metric name) ∧
      (name.OfRetrieval → Shows cell order rows fun item row =>
        recomputed log2 item.goldChunkIds.toFinset row.retrievedChunkIds name)

/-- The run as the heatmap takes it, with the scores of its report. -/
structure Scored (run : StoredRun K) (scored : ScoredRun K) : Prop where
  runId : scored.runId = run.id.str
  strategy : scored.strategy = run.strategy b
  report : ∃ dataset ∈ s.datasets, dataset.id = run.datasetId ∧
    ∃ order, order.Perm dataset.specs ∧ ∃ rows, ReportOf log2 order run.toEvaluationRun rows ∧
      rows.length = run.itemCount ∧ scored.scores = (order.zip rows).map fun pair =>
        (pair.1.evidenceCondition, pair.2.score)

variable {b log2 s} {run : StoredRun K} {scored : ScoredRun K}

theorem Tables.Audited.exists_scored (h : s.Audited log2) (hrun : run ∈ s.runs)
    (hstatus : run.status = .completed) : ∃ scored, Scored b log2 s run scored := by
  obtain ⟨dataset, hdataset, hid, hreport⟩ := h run hrun
  obtain ⟨order, horder, rows, hrows⟩ := hreport.report hstatus
  exact ⟨⟨run.id.str, run.strategy b, _⟩, rfl, rfl, dataset, hdataset, hid, order, horder, rows,
    hrows, hrows.length_eq horder hreport, rfl⟩

/-- What the endpoint takes of a run is what is aggregated of its scores. -/
theorem Scored.toInput_eq (h : Scored b log2 s run scored) : scored.toInput =
    { runId := run.id.str
      strategy := run.strategy b
      byCondition := (run.aggregateMetrics.map (·.byCondition)).getD [] } := by
  obtain ⟨-, -, -, order, -, rows, hrows, -, hscores⟩ := h.report
  rw [ScoredRun.toInput, h.runId, h.strategy, hscores, hrows.aggregates]
  rfl

/-- A run has scores under the conditions of its items. -/
theorem Scored.mem_conditions (h : Scored b log2 s run scored) (hkeyed : s.Keyed)
    {column : Str} : column ∈ scored.scores.map (·.1) ↔ Covers s run column := by
  obtain ⟨dataset, hdataset, hid, order, horder, rows, hrows, hcount, hscores⟩ := h.report
  have hzip : (order.zip rows).map Prod.fst = order :=
    List.map_fst_zip hrows.measured.length_eq.le
  have hkeys : scored.scores.map (·.1) = order.map (·.evidenceCondition) := by
    conv_rhs => rw [← hzip, List.map_map]
    rw [hscores, List.map_map]
    rfl
  rw [hkeys, List.mem_map]
  constructor
  · rintro ⟨item, hitem, hcondition⟩
    exact ⟨dataset, hdataset, hid, item, horder.mem_iff.mp hitem, hcondition⟩
  · rintro ⟨dataset', hdataset', hid', item, hitem, hcondition⟩
    obtain rfl := List.inj_on_of_nodup_map hkeyed.datasets hdataset hdataset' (hid.trans hid'.symm)
    exact ⟨item, horder.mem_iff.mpr hitem, hcondition⟩

/-- The cell of a run shows the results in its report. -/
theorem Scored.cellOf (h : Scored b log2 s run scored) (name : MetricName) {column : Str}
    (hcolumn : Covers s run column) :
    let values := (Dict.group scored.scores column).map fun score => score.metric name
    CellOf b log2 s name run
      { row := scored.strategy, column, value := mean values, n := definedCount values,
        runId := some scored.runId } := by
  obtain ⟨dataset, hdataset, hid, order, horder, rows, hrows, hcount, hscores⟩ := h.report
  have hvalues : (Dict.group scored.scores column).map (fun score => score.metric name) =
      ((order.zip rows).filter fun pair => pair.1.evidenceCondition = column).map
        fun pair => pair.2.score.metric name := by
    rw [Dict.group, hscores, List.filter_map, List.map_map, List.map_map]
    rfl
  refine ⟨congrArg some h.runId, h.strategy.symm, hcolumn, dataset, hdataset, hid, order, horder,
    rows, hrows, hcount, ⟨congrArg mean hvalues, congrArg definedCount hvalues⟩, fun hname => ?_⟩
  have hrecomputed : ((order.zip rows).filter fun pair => pair.1.evidenceCondition = column).map
      (fun pair => pair.2.score.metric name) =
        ((order.zip rows).filter fun pair => pair.1.evidenceCondition = column).map fun pair =>
          recomputed log2 pair.1.goldChunkIds.toFinset pair.2.retrievedChunkIds name := by
    refine List.map_congr_left fun pair hpair => ?_
    exact (List.forall₂_zip hrows.measured (List.mem_of_mem_filter hpair)).retrieval name hname
  exact ⟨congrArg mean (hvalues.trans hrecomputed),
    congrArg definedCount (hvalues.trans hrecomputed)⟩

omit [Field K] [LinearOrder K] in
theorem pairwise_completedRuns (principal : Principal) (projectId : Uuid) :
    (completedRuns b s principal projectId).Pairwise fun x y => y.createdAt ≤ x.createdAt := by
  have hsorted := @List.pairwise_mergeSort _
    (fun x y : StoredRun K => decide (y.createdAt ≤ x.createdAt)) (fun x y z hxy hyz => by
      rw [decide_eq_true_eq] at *
      exact hyz.trans hxy)
    (fun x y => by
      rw [Bool.or_eq_true, decide_eq_true_eq, decide_eq_true_eq]
      exact le_total _ _)
  exact ((hsorted _).imp of_decide_eq_true).filter _

omit [Field K] [LinearOrder K] in
theorem mem_completedRuns {principal : Principal} {projectId : Uuid}
    (h : run ∈ completedRuns b s principal projectId) :
    run ∈ s.runs ∧ run.status = .completed := by
  obtain ⟨hrun, hstatus⟩ := List.mem_filter.mp h
  exact ⟨List.mem_of_mem_filter (Engine.perm_orderBy.mem_iff.mp hrun), of_decide_eq_true hstatus⟩

/-- **Every number on a heatmap can be computed again.**  In every state of every history, for
every metric: there is a cell wherever a completed run has an item; a cell shows the mean of the
metric over the results in the report of a run, as many as it counts items, the newest one of its
strategy that has items under its condition, and a metric of retrieval is that of the ids which
results and items keep; or it is a gap, and there is no such run. -/
theorem heatmap_audited {chunkIdFor : Uuid → ℕ → Uuid} {h : History (Tables V K)}
    {es : List (Command V × (ℕ → ℕ))}
    (hrun : Runs.run (History.step (commit b log2 chunkIdFor)) ⟨{}, []⟩ es = some h)
    (hs : s ∈ h.states) (principal : Principal) (projectId : Uuid) (name : MetricName) :
    let completed := completedRuns b s principal projectId
    ∃ heatmap, evaluationHeatmap b s principal projectId name.str =
        .ok (heatmap, completed.length) ∧
      (∀ run ∈ completed, ∀ condition, Covers s run condition →
        ∃ cell ∈ heatmap.cells, cell.row = run.strategy b ∧ cell.column = condition) ∧
      ∀ cell ∈ heatmap.cells,
        (∃ run ∈ completed, CellOf b log2 s name run cell ∧
          ∀ other ∈ completed, other.strategy b = cell.row → Covers s other cell.column →
            other.createdAt ≤ run.createdAt) ∨
        (cell.runId = none ∧ cell.value = none ∧ cell.n = 0 ∧
          ∀ run ∈ completed, run.strategy b = cell.row → ¬ Covers s run cell.column) := by
  intro completed
  have haudited := audited_of_run hrun s hs
  have hkeyed := ((inv_of_run hrun).coherent s hs).keyed
  have hnonempty : Nonempty (ScoredRun K) := ⟨⟨[], [], []⟩⟩
  have hall : ∀ run ∈ completed, ∃ scored, Scored b log2 s run scored := by
    intro run hmem
    obtain ⟨hrun, hstatus⟩ := mem_completedRuns hmem
    exact haudited.exists_scored hrun hstatus
  choose! score hscore using hall
  obtain ⟨heatmap, hbuild, hrows, hcolumns, hcells⟩ := exists_heatmap (completed.map score) name
  have hinputs : completed.map (fun run =>
      ({ runId := run.id.str
         strategy := run.strategy b
         byCondition := (run.aggregateMetrics.map (·.byCondition)).getD [] } : RunInput K)) =
      (completed.map score).map (·.toInput) := by
    rw [List.map_map]
    exact List.map_congr_left fun run hmem => (hscore run hmem).toInput_eq.symm
  refine ⟨heatmap, ?_, ?_, ?_⟩
  · show (buildHeatmap (completed.map _) name.str >>= fun heatmap => _) = _
    rw [hinputs, hbuild]
    rfl
  · intro run hmem condition hcovers
    rw [hcells]
    have hrow : run.strategy b ∈ heatmap.rows :=
      (hrows _).mpr ⟨_, List.mem_map_of_mem hmem, (hscore run hmem).strategy⟩
    have hcolumn : condition ∈ heatmap.columns := (hcolumns _).mpr
      ⟨_, List.mem_map_of_mem hmem, ((hscore run hmem).mem_conditions hkeyed).mpr hcovers⟩
    exact ⟨_, List.mem_flatMap.mpr ⟨_, hrow, List.mem_map_of_mem hcolumn⟩, row_scoredCell ..,
      column_scoredCell ..⟩
  · intro cell hcell
    rw [hcells] at hcell
    obtain ⟨row, -, hmem⟩ := List.mem_flatMap.mp hcell
    obtain ⟨column, -, rfl⟩ := List.mem_map.mp hmem
    rw [row_scoredCell, column_scoredCell, scoredCell, firstScored, List.find?_map]
    have hcovers : ∀ run ∈ completed, (run.strategy b = row ∧ Covers s run column ↔
        (score run).strategy = row ∧ column ∈ (score run).scores.map (·.1)) := by
      intro run hmem
      rw [(hscore run hmem).strategy, (hscore run hmem).mem_conditions hkeyed]
    cases hfind : completed.find? ((fun run : ScoredRun K => decide (run.strategy = row ∧
        column ∈ run.scores.map (·.1))) ∘ score) with
    | none =>
        refine Or.inr ⟨rfl, rfl, rfl, fun run hmem hrow hcolumn => ?_⟩
        have hfirst := List.find?_eq_none.mp hfind run hmem
        exact hfirst (decide_eq_true ((hcovers run hmem).mp ⟨hrow, hcolumn⟩))
    | some run =>
        obtain ⟨hfirst, newer, older, hsplit, hnewer⟩ := List.find?_eq_some_iff_append.mp hfind
        have hmem : run ∈ completed := List.mem_of_find?_eq_some hfind
        obtain ⟨hrow, hcolumn⟩ := (hcovers run hmem).mpr (of_decide_eq_true hfirst)
        refine Or.inl ⟨run, hmem, ?_, fun other hother hrow' hcolumn' => ?_⟩
        · have hcell := (hscore run hmem).cellOf name hcolumn
          rw [(hscore run hmem).strategy, hrow] at hcell
          exact hcell
        · have hsorted := pairwise_completedRuns (b := b) (s := s) principal projectId
          have hkey := (hcovers other hother).mp ⟨hrow', hcolumn'⟩
          have hlist : completedRuns b s principal projectId = newer ++ run :: older := hsplit
          rw [hlist] at hsorted
          rcases List.mem_append.mp (hsplit ▸ hother : other ∈ newer ++ run :: older) with
            hother | hother
          · have hnot := hnewer other hother
            rw [Function.comp_apply, decide_eq_true hkey] at hnot
            cases hnot
          · rcases List.mem_cons.mp hother with rfl | hother
            · exact le_rfl
            · exact (List.pairwise_cons.mp (List.pairwise_append.mp hsorted).2.1).1 other hother

end Heatmaps

/-- The project with a dataset of one item, whose gold chunk is in its document, and a run. -/
def evaluationCommands : List (Command ℕ × (ℕ → ℕ)) :=
  sampleCommands ++
    [(.createDataset ⟨2, 1⟩ { projectId := 3, name := [], items :=
        [{ question := [], goldChunks := [7000] }] } 20 (fun _ => 21) 0, fun _ => 0),
      (.createRun ⟨2, 1⟩ { datasetId := 20, strategy := .keyword } 0 0, fun _ => 0),
      (.execute sampleAttempt none (fun _ => 22) (none, none) 0, fun _ => 0)]

/-- The heatmap of its recall has the cell of the run. -/
theorem heatmap_audited_sample : ∃ h, Runs.run sampleStep ⟨{}, []⟩ evaluationCommands = some h ∧
    ∃ heatmap, evaluationHeatmap sampleBackend h.now ⟨2, 1⟩ 3 (MetricName.recallAt 1).str =
        .ok (heatmap, 1) ∧
      ∃ cell ∈ heatmap.cells, cell.column = EvidenceCondition.clean.str ∧ cell.runId ≠ none := by
  have hends : ∃ h ∈ Runs.run sampleStep ⟨{}, []⟩ evaluationCommands,
      (completedRuns sampleBackend h.now ⟨2, 1⟩ 3).map (·.datasetId) = [20] ∧
      h.now.datasets.map (fun d => (d.id, d.specs.map (·.evidenceCondition))) =
        [(20, [EvidenceCondition.clean.str])] := by
    decide +kernel
  obtain ⟨h, hrun, hruns, hdatasets⟩ := hends
  obtain ⟨run, hlist, hdataset⟩ := List.map_eq_singleton_iff.mp hruns
  obtain ⟨dataset, hmem, hitems⟩ := List.map_eq_singleton_iff.mp hdatasets
  obtain ⟨hid, hitems⟩ := Prod.mk.inj hitems
  obtain ⟨item, hitem, hcondition⟩ := List.map_eq_singleton_iff.mp hitems
  have hcovers : Covers h.now run EvidenceCondition.clean.str :=
    ⟨dataset, hmem ▸ List.mem_singleton_self _, hid.trans hdataset.symm, item,
      hitem ▸ List.mem_singleton_self _, hcondition⟩
  obtain ⟨heatmap, hheatmap, hcells, hmade⟩ :=
    heatmap_audited hrun List.mem_cons_self ⟨2, 1⟩ 3 (.recallAt 1)
  rw [hlist] at hheatmap hcells hmade
  obtain ⟨cell, hcell, hrow, hcolumn⟩ := hcells run (List.mem_singleton_self _) _ hcovers
  refine ⟨h, hrun, heatmap, hheatmap, cell, hcell, hcolumn, fun hgap => ?_⟩
  rcases hmade cell hcell with ⟨run', -, hmade, -⟩ | ⟨-, -, -, hnone⟩
  · cases hgap.symm.trans hmade.runId
  · exact hnone run (List.mem_singleton_self _) hrow.symm (hcolumn ▸ hcovers)

end Tenancy
end EvidenceLab
