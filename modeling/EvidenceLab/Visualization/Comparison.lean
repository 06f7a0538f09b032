/-
# The retrieval comparison

`visualization/retrieval/comparison.py`: the results of several strategies, chunk by
chunk.  A chunk has a rank and a score under every strategy that returned it; the rows are
ordered by the best rank, ties by the text of the id.
-/

import EvidenceLab.Data.Dict
import EvidenceLab.Text.Unicode
import Mathlib.Algebra.Order.Field.Rat
import Mathlib.Data.List.Lex
import Mathlib.Order.Fin.Basic

namespace EvidenceLab
namespace Visualization

open Text Data

/-- `StrategyResult`: its hits are ids, texts and scores in rank order. -/
structure StrategyResult where
  strategy : Str
  latencyMs : ℚ
  hits : List (Str × Str × ℚ) := []

/-- `ComparisonRow`. -/
structure ComparisonRow where
  chunkId : Str
  text : Str
  ranks : Dict Str (Option ℕ) := Dict.empty
  scores : Dict Str (Option ℚ) := Dict.empty
  foundBy : List Str := []

/-- What `_overlap` returns. -/
structure Overlap where
  totalChunks : ℕ
  foundByAll : ℕ
  uniqueTo : Dict Str ℕ

/-- What `build_comparison` returns. -/
structure Comparison where
  strategies : List (Str × ℚ × ℕ)
  rows : List ComparisonRow
  overlap : Overlap

/-- `dict.fromkeys(keys, value)`. -/
def fromKeys {V : Type} (keys : List Str) (value : V) : Dict Str V :=
  keys.foldl (fun d key => d.set key value) Dict.empty

/-- The three dictionaries of the pass over the results. -/
structure ComparisonState where
  texts : Dict Str Str := Dict.empty
  ranks : Dict Str (Dict Str (Option ℕ)) := Dict.empty
  scores : Dict Str (Dict Str (Option ℚ)) := Dict.empty

/-- The body of the inner loop. -/
def ComparisonState.addHit (strategies : List Str) (strategy : Str) (st : ComparisonState)
    (hit : Str × Str × ℚ) (rank : ℕ) : ComparisonState where
  texts := st.texts.setDefault hit.1 hit.2.1
  ranks := st.ranks.alter hit.1 fun o =>
    (o.getD (fromKeys strategies none)).set strategy (some rank)
  scores := st.scores.alter hit.1 fun o =>
    (o.getD (fromKeys strategies none)).set strategy (some hit.2.2)

/-- The dictionaries after the pass. -/
def comparisonState (results : List StrategyResult) : ComparisonState :=
  results.foldl (fun st result => result.hits.zipIdx.foldl (fun st entry =>
    st.addHit (results.map (·.strategy)) result.strategy entry.1 entry.2) st) {}

/-- The row of a chunk. -/
def comparisonRow (strategies : List Str) (st : ComparisonState) (entry : Str × Str) :
    ComparisonRow :=
  let ranks := (st.ranks.get? entry.1).getD Dict.empty
  { chunkId := entry.1
    text := entry.2
    ranks
    scores := (st.scores.get? entry.1).getD Dict.empty
    foundBy := strategies.filter fun s => (ranks.get? s).join.isSome }

/-- The best rank that any strategy gave a chunk. -/
def ComparisonRow.bestRank (row : ComparisonRow) : ℕ :=
  ((row.ranks.values.filterMap id).min?).getD (10 ^ 6)

/-- `_overlap`. -/
def overlap (rows : List ComparisonRow) (strategies : List Str) : Overlap where
  totalChunks := rows.length
  foundByAll := rows.countP fun row => row.foundBy.length = strategies.length
  uniqueTo := rows.foldl (fun d row =>
    match row.foundBy with
    | [strategy] => d.alter strategy fun o => o.getD 0 + 1
    | _ => d) (fromKeys strategies 0)

/-- `build_comparison`. -/
def buildComparison (results : List StrategyResult) : Comparison :=
  let strategies := results.map (·.strategy)
  let st := comparisonState results
  let rows := (st.texts.entries.map (comparisonRow strategies st)).mergeSort fun a b =>
    a.bestRank < b.bestRank || (a.bestRank = b.bestRank && a.chunkId ≤ b.chunkId)
  { strategies := results.map fun result => (result.strategy, result.latencyMs, result.hits.length)
    rows
    overlap := overlap rows strategies }

end Visualization
end EvidenceLab
