/-
# The evaluation heatmap

`visualization/evaluations/heatmap.py`: one metric over strategies and evidence
conditions.  An aggregate is a dictionary that holds more than metrics, and a client names
the entry: one that is a number has no `get`.
-/

import EvidenceLab.Evaluation.Scoring
import Mathlib.Data.List.Lex
import Mathlib.Order.Fin.Basic

namespace EvidenceLab
namespace Visualization

open Text Data EvidenceLab.Core Evaluation

variable {K : Type}

/-- `RunInput`. -/
structure RunInput (K : Type) where
  runId : Str
  strategy : Str
  byCondition : List (Str × Aggregate K)

/-- `HeatmapCell`. -/
structure HeatmapCell (K : Type) where
  row : Str
  column : Str
  value : Option K
  n : ℕ := 0
  runId : Option Str := none

/-- `Heatmap`. -/
structure Heatmap (K : Type) where
  metric : String
  rows : List Str := []
  columns : List Str := []
  cells : List (HeatmapCell K) := []

/-- The value and the count in the entry of an aggregate under a name.  What is empty or
missing has neither; the failure categories have no key of either name. -/
def metricEntry (aggregate : Aggregate K) (name : String) : Except Exc (Option K × ℕ) :=
  if name = "item_count" then
    if aggregate.itemCount = 0 then .ok (none, 0) else .error .attributeError
  else if name = "failure_categories" then .ok (none, 0)
  else
    match aggregate.metrics.entries.find? (·.1.str = name) with
    | some (_, entry) => .ok (entry.mean, entry.n)
    | none => .ok (none, 0)

/-- The cells of one run, the first of a strategy and a condition staying. -/
def addRun (metric : String) (seen : Dict (Str × Str) (HeatmapCell K)) (run : RunInput K) :
    Except Exc (Dict (Str × Str) (HeatmapCell K)) :=
  run.byCondition.foldlM (fun seen entry => do
    if (run.strategy, entry.1) ∈ seen.keys then return seen
    else
      let (value, n) ← metricEntry entry.2 metric
      return seen.set (run.strategy, entry.1)
        { row := run.strategy, column := entry.1, value, n, runId := some run.runId }) seen

/-- `build_heatmap`. -/
def buildHeatmap (runs : List (RunInput K)) (metric : String) : Except Exc (Heatmap K) := do
  let seen ← runs.foldlM (addRun metric) Dict.empty
  let rows := (runs.map (·.strategy)).dedup.mergeSort fun a b => a ≤ b
  let columns := (runs.flatMap fun run => run.byCondition.map (·.1)).dedup.mergeSort
    fun a b => a ≤ b
  return {
    metric
    rows
    columns
    cells := rows.flatMap fun row => columns.map fun column =>
      (seen.get? (row, column)).getD { row, column, value := none } }

end Visualization
end EvidenceLab
