/-
# Per-item scoring and aggregation

`evaluation/scoring.py`, with the vocabulary of `evaluation/datasets/schema.py`.
`scoreItem` computes every metric of an observation and names the dominant
failure; `aggregate` averages each metric over the items where it is defined.
-/

import EvidenceLab.Core.Errors
import EvidenceLab.Evaluation.Metrics
import Mathlib.Data.List.Lex
import Mathlib.Data.String.Basic
import Mathlib.Order.Fin.Basic

namespace EvidenceLab
namespace Evaluation

open Text Data EvidenceLab.Core

/-! ### Datasets -/

/-- `EvidenceCondition`: the controlled evidence conditions. -/
inductive EvidenceCondition
  | clean | noisy | conflicting | outdated | incomplete | adversarial
  deriving DecidableEq, Repr

/-- `str(condition)`. -/
def EvidenceCondition.str : EvidenceCondition → Str
  | clean => lit "clean".toList
  | noisy => lit "noisy".toList
  | conflicting => lit "conflicting".toList
  | outdated => lit "outdated".toList
  | incomplete => lit "incomplete".toList
  | adversarial => lit "adversarial".toList

/-- `EvaluationItemSpec`, as far as a run reads it. -/
structure EvaluationItemSpec where
  question : Str
  goldChunks : List Uuid := []
  evidenceCondition : EvidenceCondition := .clean

/-- `expects_abstention`: whether the correct answer is a refusal. -/
def EvaluationItemSpec.expectsAbstention (item : EvaluationItemSpec) : Bool :=
  item.evidenceCondition = .incomplete

/-! ### Observations and scores -/

/-- `ItemObservation`: everything one item's execution produced. -/
structure ItemObservation (K : Type) where
  retrieved : List Uuid := []
  claims : List ClaimCitations := []
  answer : Option Str := none
  abstained : Bool := false
  inputTokens : ℕ := 0
  outputTokens : ℕ := 0
  cost : Option K := none
  latencyMs : Option K := none
  retrievalLatencyMs : Option K := none
  generationLatencyMs : Option K := none
  errorCode : Option ErrorCode := none

/-- `ItemObservation.cited`. -/
def ItemObservation.cited {K : Type} (observation : ItemObservation K) : Finset Uuid :=
  (observation.claims.flatMap (·.cited)).toFinset

/-- The keys of `ItemScore.metrics`. -/
inductive MetricName
  | recallAt (k : ℕ+) | precisionAt (k : ℕ+) | hitRateAt (k : ℕ+) | ndcgAt (k : ℕ+) | mrr
  | citationPrecision | citationRecall | citationValidity | evidenceCoverage
  | unsupportedClaimRate | abstentionCorrect
  | inputTokens | outputTokens | totalTokens | cost
  | latencyMs | retrievalLatencyMs | generationLatencyMs | failed
  deriving DecidableEq

/-- The key of a metric as it is stored. -/
def MetricName.str : MetricName → String
  | recallAt k => s!"recall@{k.val}"
  | precisionAt k => s!"precision@{k.val}"
  | hitRateAt k => s!"hit_rate@{k.val}"
  | ndcgAt k => s!"ndcg@{k.val}"
  | mrr => "mrr"
  | citationPrecision => "citation_precision"
  | citationRecall => "citation_recall"
  | citationValidity => "citation_validity"
  | evidenceCoverage => "evidence_coverage"
  | unsupportedClaimRate => "unsupported_claim_rate"
  | abstentionCorrect => "abstention_correct"
  | inputTokens => "input_tokens"
  | outputTokens => "output_tokens"
  | totalTokens => "total_tokens"
  | cost => "cost"
  | latencyMs => "latency_ms"
  | retrievalLatencyMs => "retrieval_latency_ms"
  | generationLatencyMs => "generation_latency_ms"
  | failed => "failed"

/-- The failures `_categorise` tells apart, most fundamental first. -/
inductive FailureCategory
  | executionError | retrievalMiss | overAbstention | answeredWithoutEvidence
  | inventedCitation | unsupportedClaim
  deriving DecidableEq, Repr

/-- The name of a failure as it is stored. -/
def FailureCategory.str : FailureCategory → String
  | executionError => "execution_error"
  | retrievalMiss => "retrieval_miss"
  | overAbstention => "over_abstention"
  | answeredWithoutEvidence => "answered_without_evidence"
  | inventedCitation => "invented_citation"
  | unsupportedClaim => "unsupported_claim"

/-- `ItemScore`: metrics for one item. -/
structure ItemScore (K : Type) where
  metrics : Dict MetricName (Option K) := Dict.empty
  failureCategory : Option FailureCategory := none

variable {K : Type} [Field K] [LinearOrder K]

/-- `score.metrics.get(name)`: an absent key and an undefined metric are both `None`. -/
def ItemScore.metric (score : ItemScore K) (name : MetricName) : Option K :=
  (score.metrics.get? name).join

/-! ### Scoring an item -/

/-- `DEFAULT_K_VALUES`. -/
def defaultKValues : List ℕ+ := [1, 3, 5, 10]

/-- The entries the loop over the depths sets for one depth. -/
def metricsAt (log2 : ℕ → K) (retrieved : List Uuid) (gold : Finset Uuid) (k : ℕ+) :
    List (MetricName × Option K) :=
  [(.recallAt k, recallAtK retrieved gold k), (.precisionAt k, precisionAtK retrieved gold k),
    (.hitRateAt k, hitRateAtK retrieved gold k), (.ndcgAt k, ndcgAtK log2 retrieved gold k)]

/-- The entries `score_item` sets once. -/
def itemEntries (item : EvaluationItemSpec) (observation : ItemObservation K) :
    List (MetricName × Option K) :=
  let gold := item.goldChunks.toFinset
  let retrieved := observation.retrieved
  let cited := observation.cited
  [(.mrr, reciprocalRank retrieved gold),
    (.citationPrecision, citationPrecision cited gold),
    (.citationRecall, citationRecall cited gold),
    (.citationValidity, citationValidity observation.claims retrieved),
    (.evidenceCoverage, evidenceCoverage cited retrieved),
    (.unsupportedClaimRate, unsupportedClaimRate observation.claims),
    (.abstentionCorrect,
      some (if observation.abstained = item.expectsAbstention then 1 else 0)),
    (.inputTokens, some observation.inputTokens),
    (.outputTokens, some observation.outputTokens),
    (.totalTokens, some (observation.inputTokens + observation.outputTokens : ℕ)),
    (.cost, observation.cost),
    (.latencyMs, observation.latencyMs),
    (.retrievalLatencyMs, observation.retrievalLatencyMs),
    (.generationLatencyMs, observation.generationLatencyMs),
    (.failed, some (if observation.errorCode.isSome then 1 else 0))]

/-- The metrics of `score_item` in the order in which it sets them. -/
def metricEntries (log2 : ℕ → K) (item : EvaluationItemSpec) (observation : ItemObservation K)
    (kValues : List ℕ+) : List (MetricName × Option K) :=
  kValues.flatMap (metricsAt log2 observation.retrieved item.goldChunks.toFinset) ++
    itemEntries item observation

/-- `_categorise`: the dominant failure, given the metrics. -/
def categorise (item : EvaluationItemSpec) (observation : ItemObservation K)
    (metrics : Dict MetricName (Option K)) : Option FailureCategory :=
  if observation.errorCode.isSome then some .executionError
  else if item.goldChunks ≠ [] ∧ observation.retrieved.toFinset ∩ item.goldChunks.toFinset = ∅ then
    some .retrievalMiss
  else if observation.abstained ∧ ¬ item.expectsAbstention then some .overAbstention
  else if ¬ observation.abstained ∧ item.expectsAbstention then some .answeredWithoutEvidence
  else if (metrics.get? .citationValidity).join.any (· < 1) then some .inventedCitation
  else if (metrics.get? .unsupportedClaimRate).join.any (0 < ·) then some .unsupportedClaim
  else none

/-- `score_item`. -/
def scoreItem (log2 : ℕ → K) (item : EvaluationItemSpec) (observation : ItemObservation K)
    (kValues : List ℕ+ := defaultKValues) : ItemScore K :=
  let metrics := (metricEntries log2 item observation kValues).foldl
    (fun d entry => d.set entry.1 entry.2) Dict.empty
  { metrics, failureCategory := categorise item observation metrics }

/-! ### Aggregation -/

/-- The `{"mean": …, "n": …}` of one metric. -/
structure AggregatedMetric (K : Type) where
  mean : Option K
  n : ℕ

/-- What `aggregate` returns. -/
structure Aggregate (K : Type) where
  metrics : Dict MetricName (AggregatedMetric K) := Dict.empty
  failureCategories : Dict FailureCategory ℕ := Dict.empty
  itemCount : ℕ := 0

/-- The names of the metrics in the order in which they are first seen. -/
def metricNames (scores : List (ItemScore K)) : List MetricName :=
  (scores.foldl (fun names score => score.metrics.keys.foldl
    (fun names name => names.setDefault name ()) names) (Dict.empty : Dict MetricName Unit)).keys

/-- `aggregate`: each metric averaged over the items where it is defined. -/
def aggregate (scores : List (ItemScore K)) : Aggregate K where
  metrics := (metricNames scores).foldl (fun d name =>
    let values := scores.map fun score => score.metric name
    d.set name ⟨mean values, definedCount values⟩) Dict.empty
  failureCategories := scores.foldl (fun d score =>
    match score.failureCategory with
    | some category => d.alter category fun o => o.getD 0 + 1
    | none => d) Dict.empty
  itemCount := scores.length

/-- `aggregate_by`: one aggregate per group, the groups sorted by key. -/
def aggregateBy (scores : List (Str × ItemScore K)) : List (Str × Aggregate K) :=
  let groups : Dict Str (List (ItemScore K)) := scores.foldl
    (fun d entry => d.alter entry.1 fun o => o.getD [] ++ [entry.2]) Dict.empty
  (groups.entries.mergeSort fun a b => a.1 ≤ b.1).map fun entry => (entry.1, aggregate entry.2)

end Evaluation
end EvidenceLab
