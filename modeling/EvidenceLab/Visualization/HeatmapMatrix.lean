/-
# The heatmap over stored reports

`build_heatmap` of `visualization/evaluations/heatmap.py` over the dictionaries that
`aggregate_by` makes, under whatever name a client asks for.  The cells are filled in one
pass, the first run of a strategy and a condition staying, and completed after the names are
sorted; so the heatmap is the matrix of these first runs (`heatmap_matrix`).

Beside the metrics an aggregate holds a dictionary and a number.  To read a mean out of the
number raises, and out of the dictionary gives the count of a failure of that name, if there
is one; so not every name is accepted (`accepts_iff`).
-/

import EvidenceLab.Evaluation.Reports
import EvidenceLab.Visualization.Heatmap

namespace EvidenceLab
namespace Visualization
namespace Reports

open Text Data EvidenceLab.Core Evaluation.Reports

variable {K : Type} [Field K]

/-- `RunInput`: the aggregates of a run, by the condition. -/
structure RunInput (K : Type) where
  runId : Str
  strategy : Str
  byCondition : List (Str × Report K)

/-- `entry.get("mean")` and `int(entry.get("n", 0) or 0)` of the entry under a name.  An entry
that is missing, or false, is an empty dictionary; a number has no `get`. -/
def readEntry (metrics : Report K) (metric : String) : Except Exc (Option K × ℕ) :=
  match metrics.get? metric with
  | none => .ok (none, 0)
  | some (.metric mean n) => .ok (mean, n)
  | some (.categories counts) =>
      .ok ((counts.get? "mean").map (Nat.cast : ℕ → K), (counts.get? "n").getD 0)
  | some (.count n) => if n = 0 then .ok (none, 0) else .error .attributeError

/-- The body of the inner loop. -/
def addCondition (metric : String) (run : RunInput K)
    (seen : Dict (Str × Str) (HeatmapCell K)) (entry : Str × Report K) :
    Except Exc (Dict (Str × Str) (HeatmapCell K)) := do
  if (seen.get? (run.strategy, entry.1)).isSome then return seen
  else
    let read ← readEntry entry.2 metric
    return seen.set (run.strategy, entry.1)
      { row := run.strategy, column := entry.1, value := read.1, n := read.2,
        runId := some run.runId }

/-- `sorted` of the distinct values of a list. -/
def sortedDistinct {α : Type} [LinearOrder α] (xs : List α) : List α :=
  xs.dedup.mergeSort fun a b => a ≤ b

/-- `build_heatmap`. -/
def buildHeatmap (runs : List (RunInput K)) (metric : String) : Except Exc (Heatmap K) := do
  let seen ← runs.foldlM (fun seen run => run.byCondition.foldlM (addCondition metric run) seen)
    Dict.empty
  let rows := sortedDistinct (runs.map (·.strategy))
  let columns := sortedDistinct (runs.flatMap fun run => run.byCondition.map (·.1))
  return {
    metric
    rows
    columns
    cells := rows.flatMap fun row => columns.map fun column =>
      (seen.get? (row, column)).getD { row, column, value := none } }

/-! ### Sorted names -/

theorem pairwise_sortedDistinct {α : Type} [LinearOrder α] (xs : List α) :
    (sortedDistinct xs).Pairwise (· < ·) := by
  have hsorted := @List.pairwise_mergeSort _ (fun a b : α => decide (a ≤ b))
    (fun a b c hab hbc => by
      rw [decide_eq_true_eq] at *
      exact le_trans hab hbc)
    (fun a b => by
      rw [Bool.or_eq_true, decide_eq_true_eq, decide_eq_true_eq]
      exact le_total _ _) xs.dedup
  have hnodup : (sortedDistinct xs).Nodup :=
    (List.mergeSort_perm _ _).nodup_iff.mpr xs.nodup_dedup
  refine (hsorted.and hnodup).imp ?_
  intro a b h
  exact lt_of_le_of_ne (of_decide_eq_true h.1) h.2

theorem mem_sortedDistinct {α : Type} [LinearOrder α] {xs : List α} {a : α} :
    a ∈ sortedDistinct xs ↔ a ∈ xs :=
  (List.mergeSort_perm _ _).mem_iff.trans List.mem_dedup

/-! ### The pass over the runs -/

/-- The turns of the loops. -/
def turns (runs : List (RunInput K)) : List (RunInput K × Str × Report K) :=
  runs.flatMap fun run => run.byCondition.map fun entry => (run, entry)

/-- The pass, a turn at a time. -/
def pass (metric : String) (seen : Dict (Str × Str) (HeatmapCell K))
    (ts : List (RunInput K × Str × Report K)) :
    Except Exc (Dict (Str × Str) (HeatmapCell K)) :=
  ts.foldlM (fun seen turn => addCondition metric turn.1 seen turn.2) seen

theorem foldlM_eq_pass (metric : String) (runs : List (RunInput K))
    (seen : Dict (Str × Str) (HeatmapCell K)) :
    runs.foldlM (fun seen run => run.byCondition.foldlM (addCondition metric run) seen) seen =
      pass metric seen (turns runs) := by
  induction runs generalizing seen with
  | nil => rfl
  | cons run runs ih =>
      rw [List.foldlM_cons, turns, List.flatMap_cons, pass, List.foldlM_append, List.foldlM_map]
      exact bind_congr fun seen => ih seen

/-- The first turn of a strategy and a condition. -/
def firstTurn (ts : List (RunInput K × Str × Report K)) (row column : Str) :
    Option (RunInput K × Str × Report K) :=
  ts.find? fun turn => turn.1.strategy = row ∧ turn.2.1 = column

/-- The cell of a turn, if its entry can be read. -/
def turnCell (metric : String) (turn : RunInput K × Str × Report K) :
    Option (HeatmapCell K) :=
  (readEntry turn.2.2 metric).toOption.map fun entry =>
    { row := turn.1.strategy, column := turn.2.1, value := entry.1, n := entry.2,
      runId := some turn.1.runId }

/-- One turn: a strategy and a condition that are there stay as they are. -/
theorem addCondition_eq {metric : String} (run : RunInput K) {entry : Str × Report K}
    (seen : Dict (Str × Str) (HeatmapCell K)) {v : Option K × ℕ}
    (hread : readEntry entry.2 metric = .ok v) :
    ∃ seen', addCondition metric run seen entry = .ok seen' ∧ ∀ key, seen'.get? key =
      (seen.get? key).or
        (if key = (run.strategy, entry.1) then turnCell metric (run, entry) else none) := by
  by_cases hmem : (seen.get? (run.strategy, entry.1)).isSome = true
  · refine ⟨seen, by rw [addCondition, if_pos hmem]; rfl, ?_⟩
    intro key
    split_ifs with hkey
    · subst hkey
      obtain ⟨cell, hcell⟩ := Option.isSome_iff_exists.mp hmem
      rw [hcell]
      rfl
    · rw [Option.or_none]
  · refine ⟨_, by rw [addCondition, if_neg hmem, hread]; rfl, ?_⟩
    intro key
    rw [Dict.get?_set]
    split_ifs with hkey
    · rw [hkey, Option.not_isSome_iff_eq_none.mp hmem, Option.none_or, turnCell, hread]
      rfl
    · rw [Option.or_none]

/-- **The pass keeps the first turn** of each strategy and condition. -/
theorem exists_pass {metric : String} {ts : List (RunInput K × Str × Report K)}
    (hread : ∀ turn ∈ ts, ∃ v, readEntry turn.2.2 metric = .ok v)
    (seen : Dict (Str × Str) (HeatmapCell K)) :
    ∃ seen', pass metric seen ts = .ok seen' ∧ ∀ row column, seen'.get? (row, column) =
      (seen.get? (row, column)).or ((firstTurn ts row column).bind (turnCell metric)) := by
  induction ts generalizing seen with
  | nil => exact ⟨seen, rfl, fun _ _ => (Option.or_none).symm⟩
  | cons turn ts ih =>
      obtain ⟨v, hv⟩ := hread turn (List.mem_cons_self ..)
      obtain ⟨seen₁, hstep, hget₁⟩ := addCondition_eq turn.1 seen hv
      obtain ⟨seen₂, hpass, hget₂⟩ := ih (fun t ht => hread t (List.mem_cons_of_mem _ ht)) seen₁
      refine ⟨seen₂, ?_, ?_⟩
      · rw [pass, List.foldlM_cons, hstep]
        exact hpass
      · intro row column
        rw [hget₂, hget₁, Option.or_assoc, firstTurn, firstTurn, List.find?_cons]
        by_cases hkey : turn.1.strategy = row ∧ turn.2.1 = column
        · obtain ⟨cell, hcell⟩ : ∃ cell, turnCell metric turn = some cell := by
            rw [turnCell, hv]
            exact ⟨_, rfl⟩
          rw [if_pos (by rw [hkey.1, hkey.2]), decide_eq_true hkey]
          simp only [Option.bind_some, hcell, Option.some_or]
        · rw [if_neg fun h => hkey ⟨(Prod.mk.inj h).1.symm, (Prod.mk.inj h).2.symm⟩,
            decide_eq_false hkey, Option.none_or]

/-- Where every entry can be read, the cells are those of the first turns. -/
theorem exists_buildHeatmap (runs : List (RunInput K)) (metric : String)
    (hread : ∀ turn ∈ turns runs, ∃ v, readEntry turn.2.2 metric = .ok v) :
    ∃ h, buildHeatmap runs metric = .ok h ∧ h.metric = metric ∧
      h.rows = sortedDistinct (runs.map (·.strategy)) ∧
      h.columns = sortedDistinct (runs.flatMap fun run => run.byCondition.map (·.1)) ∧
      h.cells = h.rows.flatMap fun row => h.columns.map fun column =>
        ((firstTurn (turns runs) row column).bind (turnCell metric)).getD
          { row, column, value := none } := by
  obtain ⟨seen, hpass, hget⟩ := exists_pass hread Dict.empty
  rw [buildHeatmap, foldlM_eq_pass, hpass]
  refine ⟨_, rfl, rfl, rfl, rfl, ?_⟩
  simp only [hget, Dict.get?_empty, Option.none_or]

/-! ### The matrix -/

/-- The conditions of a run. -/
def RunInput.conditions (run : RunInput K) : List Str := run.byCondition.map (·.1)

/-- `by_condition[condition]`. -/
def RunInput.report (run : RunInput K) (condition : Str) : Report K :=
  ((run.byCondition.find? (·.1 = condition)).map (·.2)).getD Dict.empty

/-- The first run of a strategy that has a condition. -/
def firstRun (runs : List (RunInput K)) (row column : Str) : Option (RunInput K) :=
  runs.find? fun run => run.strategy = row ∧ column ∈ run.conditions

/-- The cell of a strategy and a condition, or the gap. -/
def cellOf (metric : String) (runs : List (RunInput K)) (row column : Str) :
    HeatmapCell K :=
  (firstRun runs row column).elim { row, column, value := none } fun run =>
    { row, column, value := (run.report column).mean metric,
      n := (run.report column).n metric, runId := some run.runId }

/-- The entries under a name, where there are any, are those of a metric. -/
def MeanEntries (metric : String) (runs : List (RunInput K)) : Prop :=
  ∀ run ∈ runs, ∀ entry ∈ run.byCondition, ∀ e, entry.2.get? metric = some e →
    ∃ mean n, e = .metric mean n

omit [Field K] in
theorem find?_turns_cons (run : RunInput K) (row column : Str) :
    (run.byCondition.map fun entry => (run, entry)).find?
        (fun turn => turn.1.strategy = row ∧ turn.2.1 = column) =
      if run.strategy = row ∧ column ∈ run.conditions then some (run, column, run.report column)
      else none := by
  rw [List.find?_map]
  split_ifs with h
  · obtain ⟨entry, hentry, hcolumn⟩ := List.mem_map.mp h.2
    have hfind : (run.byCondition.find? fun entry => entry.1 = column).isSome := by
      rw [List.find?_isSome]
      exact ⟨entry, hentry, decide_eq_true hcolumn⟩
    obtain ⟨found, hfound⟩ := Option.isSome_iff_exists.mp hfind
    have hkey : found.1 = column := by simpa using List.find?_some hfound
    have hsame : (fun turn : RunInput K × Str × Report K =>
        decide (turn.1.strategy = row ∧ turn.2.1 = column)) ∘ (fun entry => (run, entry)) =
          fun entry => decide (entry.1 = column) := by
      funext entry
      simp only [Function.comp_apply, h.1, true_and]
    rw [hsame, hfound, RunInput.report, hfound, ← hkey]
    rfl
  · refine congrArg (Option.map _) (List.find?_eq_none.mpr ?_)
    intro entry hentry hkey
    have hkey : run.strategy = row ∧ entry.1 = column := by simpa using hkey
    exact h ⟨hkey.1, List.mem_map.mpr ⟨entry, hentry, hkey.2⟩⟩

omit [Field K] in
/-- **The first turn is one of the first run.** -/
theorem firstTurn_turns (runs : List (RunInput K)) (row column : Str) :
    firstTurn (turns runs) row column =
      (firstRun runs row column).map fun run => (run, column, run.report column) := by
  induction runs with
  | nil => rfl
  | cons run runs ih =>
      have hcons : turns (run :: runs) =
          (run.byCondition.map fun entry => (run, entry)) ++ turns runs := List.flatMap_cons
      rw [firstTurn, hcons, List.find?_append, find?_turns_cons, firstRun, List.find?_cons]
      split_ifs with h
      · rw [decide_eq_true h]
        rfl
      · rw [decide_eq_false h]
        exact ih

omit [Field K] in
theorem strategy_of_firstRun {runs : List (RunInput K)} {row column : Str}
    {run : RunInput K} (h : firstRun runs row column = some run) :
    run ∈ runs ∧ run.strategy = row ∧ column ∈ run.conditions :=
  ⟨List.mem_of_find?_eq_some h, by simpa using List.find?_some h⟩

omit [Field K] in
/-- A report is one of the entries. -/
theorem report_mem {run : RunInput K} {column : Str} (h : column ∈ run.conditions) :
    (column, run.report column) ∈ run.byCondition := by
  have hfind := find?_turns_cons run run.strategy column
  rw [if_pos ⟨rfl, h⟩] at hfind
  obtain ⟨entry, hentry, heq⟩ := List.mem_map.mp (List.mem_of_find?_eq_some hfind)
  exact (Prod.mk.inj heq).2 ▸ hentry

/-- A metric is read as its mean and its count. -/
theorem readEntry_metric {report : Report K} {metric : String}
    (h : ∀ e, report.get? metric = some e → ∃ mean n, e = .metric mean n) :
    readEntry report metric = .ok (report.mean metric, report.n metric) := by
  rw [readEntry, Report.mean, Report.n]
  cases hget : report.get? metric with
  | none => rfl
  | some e =>
      obtain ⟨mean, n, rfl⟩ := h e hget
      rfl

theorem readEntry_turns {metric : String} {runs : List (RunInput K)}
    (h : MeanEntries metric runs) :
    ∀ turn ∈ turns runs, readEntry turn.2.2 metric =
      .ok (turn.2.2.mean metric, turn.2.2.n metric) := by
  intro turn hturn
  obtain ⟨run, hrun, hmem⟩ := List.mem_flatMap.mp hturn
  obtain ⟨entry, hentry, rfl⟩ := List.mem_map.mp hmem
  exact readEntry_metric (h run hrun entry hentry)

theorem turnCell_eq_cellOf {metric : String} {runs : List (RunInput K)}
    (h : MeanEntries metric runs) (row column : Str) :
    ((firstTurn (turns runs) row column).bind (turnCell metric)).getD
      { row, column, value := none } = cellOf metric runs row column := by
  rw [firstTurn_turns, cellOf]
  cases hfirst : firstRun runs row column with
  | none => rfl
  | some run =>
      obtain ⟨hrun, hrow, hcolumn⟩ := strategy_of_firstRun hfirst
      have hread := readEntry_metric (h run hrun _ (report_mem hcolumn))
      simp only [Option.map_some, Option.bind_some, turnCell, hread, hrow]
      rfl

omit [Field K] in
theorem row_cellOf (metric : String) (runs : List (RunInput K)) (row column : Str) :
    (cellOf metric runs row column).row = row := by
  rw [cellOf]
  cases firstRun runs row column <;> rfl

omit [Field K] in
theorem column_cellOf (metric : String) (runs : List (RunInput K)) (row column : Str) :
    (cellOf metric runs row column).column = column := by
  rw [cellOf]
  cases firstRun runs row column <;> rfl

omit [Field K] in
/-- A cell that has a run keeps it when older runs follow. -/
theorem cellOf_append {metric : String} {runs : List (RunInput K)} {row column : Str}
    (h : (cellOf metric runs row column).runId ≠ none) (older : List (RunInput K)) :
    cellOf metric (runs ++ older) row column = cellOf metric runs row column := by
  rw [cellOf] at h
  rw [cellOf, cellOf, firstRun, List.find?_append]
  cases hfirst : firstRun runs row column with
  | none =>
      rw [hfirst] at h
      exact absurd rfl h
  | some run =>
      rw [firstRun] at hfirst
      rw [hfirst]
      rfl

/-- **The heatmap is the matrix of the first runs.**  Its rows and columns are the sorted
strategies and conditions, and there is one cell of each pair, row by row; older runs change
no cell that has a run. -/
theorem heatmap_matrix (runs older : List (RunInput K)) (metric : String)
    (hmetric : MeanEntries metric (runs ++ older)) :
    ∃ h h', buildHeatmap runs metric = .ok h ∧ buildHeatmap (runs ++ older) metric = .ok h' ∧
      h.metric = metric ∧
      h.rows.Pairwise (· < ·) ∧ (∀ row, row ∈ h.rows ↔ ∃ run ∈ runs, run.strategy = row) ∧
      h.columns.Pairwise (· < ·) ∧
      (∀ column, column ∈ h.columns ↔ ∃ run ∈ runs, column ∈ run.conditions) ∧
      h.cells = (h.rows.flatMap fun row => h.columns.map fun column =>
        cellOf metric runs row column) ∧
      ∀ cell ∈ h.cells, cell.runId ≠ none → cell ∈ h'.cells ∧
        ∀ cell' ∈ h'.cells, cell'.row = cell.row → cell'.column = cell.column → cell' = cell := by
  have hruns : MeanEntries metric runs := fun run hrun =>
    hmetric run (List.mem_append_left _ hrun)
  obtain ⟨h, hbuild, hname, hrows, hcolumns, hcells⟩ := exists_buildHeatmap runs metric
    fun turn hturn => ⟨_, readEntry_turns hruns turn hturn⟩
  obtain ⟨h', hbuild', -, hrows', hcolumns', hcells'⟩ := exists_buildHeatmap _ metric
    fun turn hturn => ⟨_, readEntry_turns hmetric turn hturn⟩
  simp only [turnCell_eq_cellOf hruns] at hcells
  simp only [turnCell_eq_cellOf hmetric] at hcells'
  have mem_rows : ∀ row, row ∈ h.rows ↔ ∃ run ∈ runs, run.strategy = row := by
    intro row
    rw [hrows, mem_sortedDistinct, List.mem_map]
  have mem_columns : ∀ column, column ∈ h.columns ↔ ∃ run ∈ runs, column ∈ run.conditions := by
    intro column
    rw [hcolumns, mem_sortedDistinct, List.mem_flatMap]
    rfl
  refine ⟨h, h', hbuild, hbuild', hname, ?_, mem_rows, ?_, mem_columns, hcells, ?_⟩
  · rw [hrows]
    exact pairwise_sortedDistinct _
  · rw [hcolumns]
    exact pairwise_sortedDistinct _
  · intro cell hcell hshown
    rw [hcells] at hcell
    obtain ⟨row, hrow, hmem⟩ := List.mem_flatMap.mp hcell
    obtain ⟨column, hcolumn, rfl⟩ := List.mem_map.mp hmem
    have holder := cellOf_append hshown older
    refine ⟨?_, ?_⟩
    · rw [hcells', ← holder]
      refine List.mem_flatMap.mpr ⟨row, ?_, List.mem_map_of_mem ?_⟩
      · obtain ⟨run, hrun, hstrategy⟩ := (mem_rows row).mp hrow
        rw [hrows', mem_sortedDistinct]
        exact List.mem_map.mpr ⟨run, List.mem_append_left _ hrun, hstrategy⟩
      · obtain ⟨run, hrun, hcondition⟩ := (mem_columns column).mp hcolumn
        rw [hcolumns', mem_sortedDistinct]
        exact List.mem_flatMap.mpr ⟨run, List.mem_append_left _ hrun, hcondition⟩
    · intro cell' hcell' hsamerow hsamecolumn
      rw [hcells'] at hcell'
      obtain ⟨row', -, hmem'⟩ := List.mem_flatMap.mp hcell'
      obtain ⟨column', -, rfl⟩ := List.mem_map.mp hmem'
      rw [row_cellOf, row_cellOf] at hsamerow
      rw [column_cellOf, column_cellOf] at hsamecolumn
      rw [hsamerow, hsamecolumn, holder]

/-- The report of one metric. -/
def metricReport (mean : ℚ) : Report ℚ := Dict.empty.set "recall@5" (.metric (some mean) 3)

/-- A run, and an older one of its strategy. -/
def sampleRun : RunInput ℚ where
  runId := [50]
  strategy := [104]
  byCondition := [(lit "clean".toList, metricReport (9 / 10))]

def sampleOlder : RunInput ℚ where
  runId := [49]
  strategy := [104]
  byCondition := [(lit "clean".toList, metricReport (1 / 10)), (lit "noisy".toList, metricReport (7 / 10))]

theorem meanEntries_sample : MeanEntries "recall@5" [sampleRun, sampleOlder] := by
  intro run hrun entry hentry e he
  have hreport : ∃ mean, entry.2 = metricReport mean := by
    rcases List.mem_pair.mp hrun with rfl | rfl
    · exact ⟨_, congrArg Prod.snd (List.mem_singleton.mp hentry)⟩
    · rcases List.mem_pair.mp hentry with rfl | rfl
      · exact ⟨_, rfl⟩
      · exact ⟨_, rfl⟩
  obtain ⟨mean, hmean⟩ := hreport
  rw [hmean, metricReport, Dict.get?_set, if_pos rfl] at he
  exact ⟨_, _, (Option.some.inj he).symm⟩

theorem heatmap_matrix_sample : ∃ h h', buildHeatmap [sampleRun] "recall@5" = .ok h ∧
    buildHeatmap [sampleRun, sampleOlder] "recall@5" = .ok h' ∧
    (∀ cell ∈ h.cells, cell.runId ≠ none → cell ∈ h'.cells) := by
  obtain ⟨h, h', hbuild, hbuild', -, -, -, -, -, -, hkeep⟩ :=
    heatmap_matrix [sampleRun] [sampleOlder] "recall@5" meanEntries_sample
  exact ⟨h, h', hbuild, hbuild', fun cell hcell hshown => (hkeep cell hcell hshown).1⟩

/-! ### The reports of an evaluation -/

/-- A completed run of the evaluation. -/
structure CompletedRun (K : Type) where
  runId : Str
  strategy : Str
  scores : List (Str × ItemScore K)

namespace CompletedRun

/-- The run with the reports of its conditions. -/
def toInput (run : CompletedRun K) : RunInput K where
  runId := run.runId
  strategy := run.strategy
  byCondition := aggregateBy run.scores

/-- The names of the metrics of a run. -/
def HasMetric (run : CompletedRun K) (metric : String) : Prop :=
  ∃ score ∈ run.scores, metric ∈ score.2.metrics.keys

end CompletedRun

/-- The scores under a cell: those of the condition in the first run of the strategy that has
it. -/
def scoresUnder (runs : List (CompletedRun K)) (row column : Str) :
    List (ItemScore K) :=
  (runs.find? fun run => run.strategy = row ∧ column ∈ run.scores.map (·.1)).elim []
    fun run => Dict.group run.scores column

omit [Field K] in
/-- The scores under a cell are scores of a run of the strategy. -/
theorem exists_of_mem_scoresUnder {runs : List (CompletedRun K)} {row column : Str}
    {score : ItemScore K} (h : score ∈ scoresUnder runs row column) :
    ∃ run ∈ runs, run.strategy = row ∧ (column, score) ∈ run.scores := by
  rw [scoresUnder] at h
  cases hfind : runs.find? fun run => run.strategy = row ∧ column ∈ run.scores.map (·.1) with
  | none =>
      rw [hfind] at h
      cases h
  | some run =>
      rw [hfind] at h
      have hrow : run.strategy = row ∧ column ∈ run.scores.map (·.1) := by
        simpa using List.find?_some hfind
      obtain ⟨entry, hentry, rfl⟩ := List.mem_map.mp h
      obtain ⟨hmem, hkey⟩ := List.mem_filter.mp hentry
      exact ⟨run, List.mem_of_find?_eq_some hfind, hrow.1, of_decide_eq_true hkey ▸ hmem⟩

theorem mem_aggregateBy {scores : List (Str × ItemScore K)} {entry : Str × Report K} :
    entry ∈ aggregateBy scores ↔
      entry.1 ∈ scores.map (·.1) ∧ entry.2 = aggregate (Dict.group scores entry.1) := by
  rw [aggregateBy, List.mem_map]
  constructor
  · rintro ⟨group, hgroup, rfl⟩
    have hget := Dict.get?_eq_some_iff.mpr ((List.mergeSort_perm _ _).mem_iff.mp hgroup)
    rw [Dict.get?_groups] at hget
    split_ifs at hget with hmem
    exact ⟨hmem, congrArg aggregate (Option.some.inj hget).symm⟩
  · rintro ⟨hmem, hreport⟩
    refine ⟨(entry.1, Dict.group scores entry.1), ?_, Prod.ext rfl hreport.symm⟩
    refine (List.mergeSort_perm _ _).mem_iff.mpr (Dict.get?_eq_some_iff.mp ?_)
    rw [Dict.get?_groups, if_pos hmem]

theorem mem_conditions {run : CompletedRun K} {column : Str} :
    column ∈ run.toInput.conditions ↔ column ∈ run.scores.map (·.1) := by
  rw [RunInput.conditions, List.mem_map]
  constructor
  · rintro ⟨entry, hentry, rfl⟩
    exact (mem_aggregateBy.mp hentry).1
  · intro h
    exact ⟨(column, aggregate (Dict.group run.scores column)), mem_aggregateBy.mpr ⟨h, rfl⟩, rfl⟩

theorem report_toInput {run : CompletedRun K} {column : Str}
    (h : column ∈ run.scores.map (·.1)) :
    run.toInput.report column = aggregate (Dict.group run.scores column) :=
  (mem_aggregateBy.mp (report_mem (mem_conditions.mpr h))).2

/-- The first turn of a cell reads the report of the scores under it. -/
theorem firstTurn_completed (runs : List (CompletedRun K)) (row column : Str) :
    firstTurn (turns (runs.map (·.toInput))) row column = none ∧
        scoresUnder runs row column = [] ∨
      ∃ run, firstTurn (turns (runs.map (·.toInput))) row column =
        some (run, column, aggregate (scoresUnder runs row column)) := by
  have hfirst : firstRun (runs.map (·.toInput)) row column = (runs.find? fun run =>
      run.strategy = row ∧ column ∈ run.scores.map (·.1)).map (·.toInput) := by
    rw [firstRun, List.find?_map]
    refine congrArg (Option.map _) (congrArg (runs.find? ·) ?_)
    funext run
    simp only [Function.comp_apply, mem_conditions]
    rfl
  rw [firstTurn_turns, hfirst, scoresUnder]
  cases hfind : runs.find? fun run => run.strategy = row ∧ column ∈ run.scores.map (·.1) with
  | none => exact Or.inl ⟨rfl, rfl⟩
  | some run =>
      have hkey : run.strategy = row ∧ column ∈ run.scores.map (·.1) := by
        simpa using List.find?_some hfind
      refine Or.inr ⟨run.toInput, ?_⟩
      rw [Option.map_some, Option.map_some, report_toInput hkey.2]
      rfl

/-- A turn over runs of the evaluation has scores in its report. -/
theorem exists_of_mem_turns {runs : List (CompletedRun K)}
    {turn : RunInput K × Str × Report K} (h : turn ∈ turns (runs.map (·.toInput))) :
    ∃ run ∈ runs, turn.2.1 ∈ run.scores.map (·.1) ∧
      turn.2.2 = aggregate (Dict.group run.scores turn.2.1) := by
  obtain ⟨input, hinput, hmem⟩ := List.mem_flatMap.mp h
  obtain ⟨run, hrun, rfl⟩ := List.mem_map.mp hinput
  obtain ⟨entry, hentry, rfl⟩ := List.mem_map.mp hmem
  exact ⟨run, hrun, mem_aggregateBy.mp hentry⟩

/-! ### The entries that are no metrics -/

omit [Field K] in
/-- Without a failure of a name, and only so, there is no count under it. -/
theorem get?_countCategories_eq_none {scores : List (ItemScore K)} {category : String} :
    (countCategories scores).get? category = none ↔
      ∀ score ∈ scores, score.failed category = false := by
  have hloop : ∀ (scores : List (ItemScore K)) (d : Dict String ℕ),
      (scores.foldl countCategory d).get? category = none ↔
        d.get? category = none ∧ ∀ score ∈ scores, score.failed category = false := by
    intro scores
    induction scores with
    | nil => simp
    | cons score scores ih =>
        intro d
        rw [List.foldl_cons, ih, List.forall_mem_cons, ← and_assoc]
        refine and_congr_left fun _ => ?_
        rw [countCategory]
        cases hfailure : score.failureCategory with
        | none => simp [ItemScore.failed, hfailure]
        | some failure =>
            by_cases hempty : failure = ""
            · simp [hempty, ItemScore.failed, hfailure, eq_comm]
            · by_cases hcategory : category = failure
              · simp [hempty, hcategory, ItemScore.failed, hfailure, Dict.get?_alter]
              · simp [hempty, hcategory, Ne.symm hcategory, ItemScore.failed, hfailure,
                  Dict.get?_alter]
  refine (hloop scores Dict.empty).trans ?_
  exact and_iff_right (Dict.get?_empty _)

theorem get?_aggregate_countKey (scores : List (ItemScore K)) :
    (aggregate scores).get? countKey = some (.count scores.length) := by
  rw [aggregate, Dict.get?_set, if_pos rfl]

theorem get?_aggregate_categoriesKey (scores : List (ItemScore K)) :
    (aggregate scores).get? categoriesKey = some (.categories (countCategories scores)) := by
  rw [aggregate, Dict.get?_set, if_neg categoriesKey_ne_countKey, Dict.get?_set, if_pos rfl]

/-- Every name but that of the number can be read in the report of any scores. -/
theorem readEntry_aggregate (scores : List (ItemScore K)) {metric : String}
    (h : metric ≠ countKey) : ∃ v, readEntry (aggregate scores) metric = .ok v := by
  by_cases hcategories : metric = categoriesKey
  · rw [hcategories, readEntry, get?_aggregate_categoriesKey]
    exact ⟨_, rfl⟩
  · refine ⟨_, readEntry_metric ?_⟩
    intro e he
    rw [get?_aggregate (by simp [reservedKeys, h, hcategories])] at he
    split_ifs at he
    exact ⟨_, _, (Option.some.inj he).symm⟩

/-- A name that is no metric of the scores is read as a gap. -/
theorem readEntry_unknown {scores : List (ItemScore K)} {metric : String}
    (hname : metric ∉ reservedKeys) (h : metric ∉ metricNames scores) :
    readEntry (aggregate scores) metric = .ok (none, 0) := by
  rw [readEntry, get?_aggregate hname, if_neg h]

/-- The counts are read as a gap unless there is a failure of the name of a field. -/
theorem readEntry_categories {scores : List (ItemScore K)} :
    readEntry (aggregate scores) categoriesKey = .ok (none, 0) ↔
      ∀ score ∈ scores, score.failureCategory ≠ some "mean" ∧
        score.failureCategory ≠ some "n" := by
  have hn : ((countCategories scores).get? "n").getD 0 = scores.countP (·.failed "n") := by
    rw [← failures_aggregate, Report.failures, get?_aggregate_categoriesKey]
  have hfailed : ∀ (score : ItemScore K) (category : String), category ≠ "" →
      (score.failed category = false ↔ score.failureCategory ≠ some category) := by
    intro score category hcategory
    rw [ItemScore.failed, decide_eq_false_iff_not]
    exact not_congr (and_iff_right hcategory)
  rw [readEntry, get?_aggregate_categoriesKey]
  simp only [Except.ok.injEq, Prod.mk.injEq, Option.map_eq_none_iff, hn, List.countP_eq_zero,
    get?_countCategories_eq_none, Bool.not_eq_true, hfailed _ "mean" (by decide),
    hfailed _ "n" (by decide), ← forall₂_and]

/-! ### What is accepted -/

/-- The report of no scores is read as a gap under every name. -/
theorem readEntry_aggregate_nil (metric : String) :
    readEntry (aggregate ([] : List (ItemScore K))) metric = .ok (none, 0) := by
  by_cases hcount : metric = countKey
  · rw [hcount, readEntry, get?_aggregate_countKey]
    rfl
  · by_cases hcategories : metric = categoriesKey
    · rw [hcategories, readEntry_categories]
      exact fun score hscore => absurd hscore List.not_mem_nil
    · refine readEntry_unknown (by simp [reservedKeys, hcount, hcategories]) ?_
      rw [mem_metricNames]
      rintro ⟨score, hscore, -⟩
      cases hscore

/-- A cell is a gap iff the scores under it are read as one. -/
theorem gap_iff {metric : String} (h : metric ≠ countKey) (runs : List (CompletedRun K))
    (row column : Str) {cell : HeatmapCell K}
    (hcell : cell = ((firstTurn (turns (runs.map (·.toInput))) row column).bind
      (turnCell metric)).getD { row, column, value := none }) :
    (cell.value = none ∧ cell.n = 0) ↔
      readEntry (aggregate (scoresUnder runs row column)) metric = .ok (none, 0) := by
  rcases firstTurn_completed runs row column with ⟨hnone, hscores⟩ | ⟨run, hsome⟩
  · rw [hscores, hcell, hnone]
    exact iff_of_true ⟨rfl, rfl⟩ (readEntry_aggregate_nil metric)
  · obtain ⟨v, hv⟩ := readEntry_aggregate (scoresUnder runs row column) h
    rw [hcell, hsome, Option.bind_some, turnCell, hv, Except.ok.injEq, Prod.ext_iff]
    rfl

/-- Where the first entry cannot be read, nothing is built. -/
theorem not_accepts_countKey (runs : List (CompletedRun K))
    (h : ∃ run ∈ runs, run.scores ≠ []) :
    buildHeatmap (runs.map (·.toInput)) countKey = .error .attributeError := by
  have hraise : ∀ turn ∈ turns (runs.map (·.toInput)),
      readEntry turn.2.2 countKey = .error .attributeError := by
    intro turn hturn
    obtain ⟨run, -, hmem, hreport⟩ := exists_of_mem_turns hturn
    obtain ⟨score, hscore, hcolumn⟩ := List.mem_map.mp hmem
    have hgroup : (Dict.group run.scores turn.2.1).length ≠ 0 := by
      rw [Ne, List.length_eq_zero_iff]
      exact List.ne_nil_of_mem (List.mem_map_of_mem
        (List.mem_filter.mpr ⟨hscore, decide_eq_true hcolumn⟩))
    rw [hreport, readEntry, get?_aggregate_countKey]
    exact if_neg hgroup
  obtain ⟨run, hrun, hscores⟩ := h
  obtain ⟨score, hscore⟩ := List.exists_mem_of_ne_nil _ hscores
  obtain ⟨entry, hentry, -⟩ :=
    List.mem_map.mp (mem_conditions.mpr (List.mem_map_of_mem (f := (·.1)) hscore))
  have hturn : (run.toInput, entry) ∈ turns (runs.map (·.toInput)) :=
    List.mem_flatMap.mpr ⟨run.toInput, List.mem_map_of_mem hrun, List.mem_map_of_mem hentry⟩
  rw [buildHeatmap, foldlM_eq_pass]
  cases hturns : turns (runs.map (·.toInput)) with
  | nil =>
      rw [hturns] at hturn
      cases hturn
  | cons turn ts =>
      have hread := hraise turn (hturns ▸ List.mem_cons_self ..)
      have hstep : addCondition countKey turn.1 Dict.empty turn.2 = .error .attributeError := by
        rw [addCondition, if_neg (by simp), hread]
        rfl
      rw [pass, List.foldlM_cons, hstep]
      rfl

/-- Runs without scores have no entries. -/
theorem turns_eq_nil {runs : List (CompletedRun K)} (h : ∀ run ∈ runs, run.scores = []) :
    turns (runs.map (·.toInput)) = [] := by
  refine List.eq_nil_iff_forall_not_mem.mpr fun turn hturn => ?_
  obtain ⟨run, hrun, hscores, -⟩ := exists_of_mem_turns hturn
  rw [h run hrun] at hscores
  cases hscores

/-- Every entry can be read, unless it is read under the name of the number. -/
theorem exists_readEntry {runs : List (CompletedRun K)} {metric : String}
    (h : metric = countKey → ∀ run ∈ runs, run.scores = []) :
    ∀ turn ∈ turns (runs.map (·.toInput)), ∃ v, readEntry turn.2.2 metric = .ok v := by
  intro turn hturn
  obtain ⟨run, hrun, hmem, hreport⟩ := exists_of_mem_turns hturn
  refine hreport ▸ readEntry_aggregate _ ?_
  intro hname
  rw [h hname run hrun] at hmem
  cases hmem

/-- A name that is no metric of the runs is read as a gap under a cell; that of the counts if
they have no field of a metric. -/
theorem readEntry_scoresUnder {runs : List (CompletedRun K)} {metric : String}
    (hname : metric ≠ countKey) (hunknown : ∀ run ∈ runs, ¬ run.HasMetric metric) {row : Str}
    {column : Str} (hcategories : metric = categoriesKey →
      ∀ score ∈ scoresUnder runs row column,
        score.failureCategory ≠ some "mean" ∧ score.failureCategory ≠ some "n") :
    readEntry (aggregate (scoresUnder runs row column)) metric = .ok (none, 0) := by
  by_cases hkey : metric = categoriesKey
  · rw [hkey, readEntry_categories]
    exact hcategories hkey
  · refine readEntry_unknown (by simp [reservedKeys, hname, hkey]) ?_
    rw [mem_metricNames]
    rintro ⟨score, hscore, hmetric⟩
    obtain ⟨run, hrun, -, hpair⟩ := exists_of_mem_scoresUnder hscore
    exact hunknown run hrun ⟨_, hpair, hmetric⟩

/-- **What the heatmap accepts.**  It is built for every name but that of the number, which
raises as soon as one run has scores.  A name that is no metric gives gaps alone, unless it is
that of the counts and a cell has a failure that is called as a field of a metric is. -/
theorem accepts_iff (runs : List (CompletedRun K)) (metric : String) :
    (∃ h, buildHeatmap (runs.map (·.toInput)) metric = .ok h ∧
      ((∀ run ∈ runs, ¬ run.HasMetric metric) →
        ∀ cell ∈ h.cells, cell.value = none ∧ cell.n = 0)) ↔
    (metric = countKey → ∀ run ∈ runs, run.scores = []) ∧
    (metric = categoriesKey → (∀ run ∈ runs, ¬ run.HasMetric metric) →
      ∀ row column, ∀ score ∈ scoresUnder runs row column,
        score.failureCategory ≠ some "mean" ∧ score.failureCategory ≠ some "n") := by
  constructor
  · rintro ⟨h, hbuild, hgaps⟩
    refine ⟨?_, ?_⟩
    · rintro rfl run hrun
      by_contra hscores
      rw [not_accepts_countKey runs ⟨run, hrun, hscores⟩] at hbuild
      cases hbuild
    · rintro rfl hunknown row column score hscore
      obtain ⟨h', hbuild', -, hrows, hcolumns, hcells⟩ :=
        exists_buildHeatmap (runs.map (·.toInput)) categoriesKey
          (exists_readEntry fun hname => absurd hname categoriesKey_ne_countKey)
      obtain rfl : h = h' := Except.ok.inj (hbuild.symm.trans hbuild')
      obtain ⟨run, hrun, hrow, hpair⟩ := exists_of_mem_scoresUnder hscore
      have hgap := (gap_iff categoriesKey_ne_countKey runs row column rfl).mp
        (hgaps hunknown _ ?_)
      · exact readEntry_categories.mp hgap score hscore
      -- A cell with scores under it is on the map.
      · rw [hcells]
        refine List.mem_flatMap.mpr ⟨row, ?_, List.mem_map_of_mem ?_⟩
        · rw [hrows, mem_sortedDistinct, List.map_map]
          exact List.mem_map.mpr ⟨run, hrun, hrow⟩
        · rw [hcolumns, mem_sortedDistinct]
          exact List.mem_flatMap.mpr ⟨run.toInput, List.mem_map_of_mem hrun,
            mem_conditions.mpr (List.mem_map_of_mem hpair)⟩
  · rintro ⟨hcount, hcategories⟩
    obtain ⟨h, hbuild, -, -, -, hcells⟩ :=
      exists_buildHeatmap _ metric (exists_readEntry hcount)
    refine ⟨h, hbuild, ?_⟩
    intro hunknown cell hcell
    rw [hcells] at hcell
    obtain ⟨row, -, hmem⟩ := List.mem_flatMap.mp hcell
    obtain ⟨column, -, rfl⟩ := List.mem_map.mp hmem
    by_cases hname : metric = countKey
    · rw [turns_eq_nil (hcount hname)]
      exact ⟨rfl, rfl⟩
    · exact (gap_iff hname runs row column rfl).mpr (readEntry_scoresUnder hname hunknown
        fun hkey => hcategories hkey hunknown row column)

/-- A run with one score, and the number of its items. -/
theorem heatmap_raises : ¬ ∃ h, buildHeatmap
    ([{ runId := [49], strategy := [104], scores := [(lit "clean".toList, {})] }].map
      (CompletedRun.toInput (K := ℚ))) "item_count" = .ok h := by
  rintro ⟨h, hbuild⟩
  have hraise := not_accepts_countKey (K := ℚ)
    [{ runId := [49], strategy := [104], scores := [(lit "clean".toList, {})] }]
    ⟨_, List.mem_singleton_self _, List.cons_ne_nil _ _⟩
  cases hbuild.symm.trans hraise

end Reports
end Visualization
end EvidenceLab
