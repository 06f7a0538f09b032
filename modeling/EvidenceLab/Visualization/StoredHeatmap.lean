/-
# The heatmap of scored runs

The heatmap over the aggregates of an evaluation is the one over the reports that are stored of
them, under the text of every metric (`buildHeatmap_toInput`): the two read the same entries in
the same order.  So a cell holds the mean of the metric over the scores that its run has under
its condition, and their count (`exists_heatmap`).
-/

import EvidenceLab.Visualization.HeatmapMatrix

namespace EvidenceLab
namespace Visualization

open Text Data EvidenceLab.Core Evaluation

variable {K : Type} [Field K]

/-- A completed run of the evaluation, with the scores under their conditions. -/
structure ScoredRun (K : Type) where
  runId : Str
  strategy : Str
  scores : List (Str × ItemScore K)

namespace ScoredRun

/-- The run with its aggregates. -/
def toInput (run : ScoredRun K) : RunInput K := ⟨run.runId, run.strategy, aggregateBy run.scores⟩

/-- The run with the scores as they are stored. -/
def stored (run : ScoredRun K) : Reports.CompletedRun K :=
  ⟨run.runId, run.strategy, run.scores.map (Prod.map id Reports.ofScore)⟩

/-- The groups of the scores, sorted by the condition. -/
def groups (run : ScoredRun K) : List (Str × List (ItemScore K)) :=
  (Dict.groups run.scores).entries.mergeSort fun x y => x.1 ≤ y.1

theorem byCondition_toInput (run : ScoredRun K) :
    run.toInput.byCondition = run.groups.map fun group => (group.1, aggregate group.2) := rfl

theorem byCondition_stored (run : ScoredRun K) : run.stored.toInput.byCondition =
    run.groups.map fun group => (group.1, Reports.aggregate (group.2.map Reports.ofScore)) := by
  show Reports.aggregateBy (run.scores.map (Prod.map id Reports.ofScore)) = _
  have hsort := List.map_mergeSort (l := (Dict.groups run.scores).entries)
    (f := Prod.map id (List.map Reports.ofScore)) (r := fun x y => decide (x.1 ≤ y.1))
    (s := fun x y => decide (x.1 ≤ y.1)) fun _ _ _ _ => rfl
  rw [Reports.aggregateBy, Dict.entries_groups_map, ← hsort, List.map_map]
  rfl

end ScoredRun

/-! ### The two heatmaps -/

omit [Field K] in
/-- Names are sorted the same way however they are compared. -/
theorem dedup_mergeSort {α : Type} [LinearOrder α] [DecidableEq α] {le : α → α → Bool}
    (hle : ∀ a b, le a b = decide (a ≤ b)) (xs : List α) :
    xs.dedup.mergeSort le = Reports.sortedDistinct xs := by
  obtain rfl : le = fun a b => decide (a ≤ b) := funext fun a => funext fun b => hle a b
  rw [Reports.sortedDistinct]
  congr!

/-- An aggregate is read as its report is. -/
theorem metricEntry_aggregate (scores : List (ItemScore K)) (name : MetricName) :
    metricEntry (aggregate scores) name.str =
      Reports.readEntry (Reports.aggregate (scores.map Reports.ofScore)) name.str := by
  have hreserved := Reports.str_not_mem_reservedKeys name
  simp only [Reports.reservedKeys, List.mem_cons, List.not_mem_nil, or_false, not_or,
    Reports.categoriesKey, Reports.countKey] at hreserved
  rw [metricEntry, if_neg hreserved.2, if_neg hreserved.1, Reports.readEntry,
    (Reports.aggregate_ofScore scores).1 name, Dict.get?, Dict.lookup_eq_find?]
  simp only [MetricName.str_injective.eq_iff]
  cases (aggregate scores).metrics.entries.find? fun e => e.1 = name <;> rfl

/-- One run is added as the stored one is. -/
theorem addRun_toInput (name : MetricName) (seen : Dict (Str × Str) (HeatmapCell K))
    (run : ScoredRun K) : addRun name.str seen run.toInput =
      run.stored.toInput.byCondition.foldlM
        (Reports.addCondition name.str run.stored.toInput) seen := by
  rw [addRun, run.byCondition_toInput, run.byCondition_stored, List.foldlM_map, List.foldlM_map]
  refine congrArg (fun body => run.groups.foldlM body seen) ?_
  funext seen group
  rw [metricEntry_aggregate, Reports.addCondition]
  by_cases h : (run.strategy, group.1) ∈ seen.keys
  · exact (if_pos h).trans (if_pos (Dict.isSome_get?.mpr h)).symm
  · exact (if_neg h).trans (if_neg (mt Dict.isSome_get?.mp h)).symm

/-- **The heatmap of scored runs is that of their stored reports.** -/
theorem buildHeatmap_toInput (runs : List (ScoredRun K)) (name : MetricName) :
    buildHeatmap (runs.map (·.toInput)) name.str =
      Reports.buildHeatmap (runs.map (·.stored.toInput)) name.str := by
  have hcolumns : (runs.map (·.toInput)).flatMap (fun run => run.byCondition.map (·.1)) =
      (runs.map (·.stored.toInput)).flatMap fun run => run.byCondition.map (·.1) := by
    rw [List.flatMap_map, List.flatMap_map]
    refine List.flatMap_congr fun run _ => ?_
    rw [run.byCondition_toInput, run.byCondition_stored, List.map_map, List.map_map]
    rfl
  have hrows : (runs.map (·.toInput)).map (·.strategy) =
      (runs.map (·.stored.toInput)).map (·.strategy) := by
    rw [List.map_map, List.map_map]
    rfl
  have hseen : (runs.map (·.toInput)).foldlM (addRun name.str) Dict.empty =
      (runs.map (·.stored.toInput)).foldlM (fun seen run =>
        run.byCondition.foldlM (Reports.addCondition name.str run) seen) Dict.empty := by
    rw [List.foldlM_map, List.foldlM_map]
    refine congrArg (fun body => runs.foldlM body Dict.empty) ?_
    funext seen run
    exact addRun_toInput name seen run
  rw [buildHeatmap, Reports.buildHeatmap, hseen, hcolumns, hrows, dedup_mergeSort fun _ _ => rfl,
    dedup_mergeSort fun _ _ => rfl]

/-! ### The cells -/

/-- The first run of a strategy that has scores under a condition. -/
def firstScored (runs : List (ScoredRun K)) (row column : Str) : Option (ScoredRun K) :=
  runs.find? fun run => run.strategy = row ∧ column ∈ run.scores.map (·.1)

/-- The cell of a metric, or the gap. -/
def scoredCell (name : MetricName) (runs : List (ScoredRun K)) (row column : Str) :
    HeatmapCell K :=
  (firstScored runs row column).elim { row, column, value := none } fun run =>
    let values := (Dict.group run.scores column).map fun score => score.metric name
    { row, column, value := mean values, n := definedCount values, runId := some run.runId }

theorem row_scoredCell (name : MetricName) (runs : List (ScoredRun K)) (row : Str)
    (column : Str) : (scoredCell name runs row column).row = row := by
  rw [scoredCell]
  cases firstScored runs row column <;> rfl

theorem column_scoredCell (name : MetricName) (runs : List (ScoredRun K)) (row : Str)
    (column : Str) : (scoredCell name runs row column).column = column := by
  rw [scoredCell]
  cases firstScored runs row column <;> rfl

/-- The entries of stored reports under the text of a metric are those of a metric. -/
theorem meanEntries_stored (runs : List (ScoredRun K)) (name : MetricName) :
    Reports.MeanEntries name.str (runs.map (·.stored.toInput)) := by
  intro run hrun entry hentry e he
  obtain ⟨run, -, rfl⟩ := List.mem_map.mp hrun
  rw [(Reports.mem_aggregateBy.mp hentry).2,
    Reports.get?_aggregate (Reports.str_not_mem_reservedKeys name)] at he
  split at he
  · exact ⟨_, _, (Option.some.inj he).symm⟩
  · cases he

theorem mem_conditions_stored {run : ScoredRun K} {column : Str} :
    column ∈ run.stored.toInput.conditions ↔ column ∈ run.scores.map (·.1) := by
  rw [Reports.mem_conditions, ScoredRun.stored, List.map_map]
  rfl

/-- The cell of the stored reports holds the mean of the scores. -/
theorem cellOf_stored (name : MetricName) (runs : List (ScoredRun K)) (row : Str)
    (column : Str) :
    Reports.cellOf name.str (runs.map (·.stored.toInput)) row column =
      scoredCell name runs row column := by
  have hfirst : Reports.firstRun (runs.map (·.stored.toInput)) row column =
      (firstScored runs row column).map (·.stored.toInput) := by
    rw [Reports.firstRun, List.find?_map]
    refine congrArg (Option.map _) (congrArg (runs.find? ·) ?_)
    funext run
    simp only [Function.comp_apply, mem_conditions_stored]
    rfl
  rw [Reports.cellOf, scoredCell, hfirst]
  cases hfind : firstScored runs row column with
  | none => rfl
  | some run =>
      have hkey : run.strategy = row ∧ column ∈ run.scores.map (·.1) := by
        simpa using List.find?_some hfind
      have hreport : run.stored.toInput.report column =
          Reports.aggregate ((Dict.group run.scores column).map Reports.ofScore) := by
        rw [← Dict.group_map]
        refine Reports.report_toInput ?_
        rw [ScoredRun.stored, List.map_map]
        exact hkey.2
      have hvalues :
          Reports.valuesOf ((Dict.group run.scores column).map Reports.ofScore) name.str =
            (Dict.group run.scores column).map fun score => score.metric name := by
        rw [Reports.valuesOf, List.map_map]
        exact List.map_congr_left fun score _ => Reports.metric_ofScore score name
      have hmean : (run.stored.toInput.report column).mean name.str = mean _ :=
        hreport ▸ (Reports.metric_aggregate (Reports.str_not_mem_reservedKeys name)).1
      have hn : (run.stored.toInput.report column).n name.str = definedCount _ :=
        hreport ▸ (Reports.metric_aggregate (Reports.str_not_mem_reservedKeys name)).2
      rw [hvalues] at hmean hn
      simp only [Option.map_some, Option.elim_some, hmean, hn]
      rfl

/-- **The heatmap of scored runs** is the matrix of the scores of the first runs. -/
theorem exists_heatmap (runs : List (ScoredRun K)) (name : MetricName) :
    ∃ h, buildHeatmap (runs.map (·.toInput)) name.str = .ok h ∧
      (∀ row, row ∈ h.rows ↔ ∃ run ∈ runs, run.strategy = row) ∧
      (∀ column, column ∈ h.columns ↔ ∃ run ∈ runs, column ∈ run.scores.map (·.1)) ∧
      h.cells = h.rows.flatMap fun row => h.columns.map fun column =>
        scoredCell name runs row column := by
  have hmean := meanEntries_stored runs name
  obtain ⟨h, hbuild, -, hrows, hcolumns, hcells⟩ := Reports.exists_buildHeatmap
    (runs.map (·.stored.toInput)) name.str fun turn hturn =>
      ⟨_, Reports.readEntry_turns hmean turn hturn⟩
  simp only [Reports.turnCell_eq_cellOf hmean, cellOf_stored] at hcells
  refine ⟨h, (buildHeatmap_toInput runs name).trans hbuild, ?_, ?_, hcells⟩
  · intro row
    rw [hrows, Reports.mem_sortedDistinct, List.map_map, List.mem_map]
    rfl
  · intro column
    rw [hcolumns, Reports.mem_sortedDistinct, List.mem_flatMap]
    constructor
    · rintro ⟨input, hinput, hcolumn⟩
      obtain ⟨run, hrun, rfl⟩ := List.mem_map.mp hinput
      exact ⟨run, hrun, mem_conditions_stored.mp hcolumn⟩
    · rintro ⟨run, hrun, hcolumn⟩
      exact ⟨_, List.mem_map.mpr ⟨run, hrun, rfl⟩, mem_conditions_stored.mpr hcolumn⟩

end Visualization
end EvidenceLab
