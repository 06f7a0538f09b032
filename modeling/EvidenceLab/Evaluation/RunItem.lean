/-
# Executing one item

`_run_item` of `app/services/evaluation_service.py`, and what `execute` stores of
it.  The evidence is retrieved; with a generator it is answered from; a domain
error on the way becomes an observation of its own, which holds the error code and
nothing of what was there before.

`scoreItem` stores its metrics in a dictionary; `metric_scoreItem` reads each one
back, whatever depths were asked for.
-/

import EvidenceLab.Evaluation.Scoring
import EvidenceLab.Reasoning.Grounded
import Mathlib.Data.List.Lex
import Mathlib.Order.Fin.Basic

namespace EvidenceLab
namespace Evaluation

open Text Data EvidenceLab.Core Reasoning

variable {K : Type}

/-! ### The item -/

/-- What a run fixes for all its items: what `build_retriever` gives for the
strategy, the project, how much is retrieved and how long an answer may be. -/
structure ItemContext where
  retriever : Except Exc (RetrievalQuery → Except Exc (List RetrievedChunk))
  projectId : Uuid
  topK : ℕ
  maxOutputTokens : ℕ

/-- The call of the generator for an item. -/
def ItemContext.answer (ctx : ItemContext) (generator : AnswerGenerator)
    (spec : EvaluationItemSpec) (evidence : List RetrievedChunk) : Except Exc GeneratedAnswer :=
  generator.generate spec.question evidence ⟨0, ctx.maxOutputTokens⟩

/-- The observation of an item that was answered. -/
def answeredObservation (evidence : List RetrievedChunk) (answer : GeneratedAnswer) :
    ItemObservation K where
  retrieved := evidence.map (·.chunkId)
  claims := answer.claims.map fun claim => ⟨claim.text, claim.evidence⟩
  answer := some answer.text
  abstained := answer.abstained
  inputTokens := answer.usage.inputTokens
  outputTokens := answer.usage.outputTokens

/-- The `try` of `_run_item`. -/
def observeItem (ctx : ItemContext) (retrieve : RetrievalQuery → Except Exc (List RetrievedChunk))
    (generator : Option AnswerGenerator) (spec : EvaluationItemSpec) :
    Except Exc (ItemObservation K) := do
  let evidence ← retrieve ⟨spec.question, ctx.projectId, ctx.topK⟩
  match generator with
  | none => return { retrieved := evidence.map (·.chunkId) }
  | some generator =>
      let answer ← ctx.answer generator spec evidence
      return answeredObservation evidence answer

/-- Its `except DomainError`. -/
def recordFailure : Except Exc (ItemObservation K) → Except Exc (ItemObservation K)
  | .ok observation => .ok observation
  | .error e =>
      match e.domain? with
      | some d => .ok { errorCode := some d.code }
      | none => .error e

/-- `_run_item`. -/
def runItem (ctx : ItemContext) (generator : Option AnswerGenerator) (spec : EvaluationItemSpec) :
    Except Exc (ItemObservation K) := do
  let retrieve ← ctx.retriever
  recordFailure (observeItem ctx retrieve generator spec)

/-- A row of `EvaluationResult`, without its ids. -/
structure ResultRow (K : Type) where
  ok : Bool
  answer : Option Str
  abstained : Bool
  retrievedChunkIds : List Uuid
  citedChunkIds : List Uuid
  metrics : Dict MetricName (Option K)
  failureCategory : Option FailureCategory
  errorCode : Option ErrorCode

/-- What `execute` stores of an observation and its score, the cited ids sorted by
their text. -/
def resultRow (observation : ItemObservation K) (score : ItemScore K) : ResultRow K where
  ok := observation.errorCode.isNone
  answer := observation.answer
  abstained := observation.abstained
  retrievedChunkIds := observation.retrieved
  citedChunkIds := (observation.claims.flatMap (·.cited)).dedup.mergeSort fun a b => a.str ≤ b.str
  metrics := score.metrics
  failureCategory := score.failureCategory
  errorCode := observation.errorCode

/-! ### What a run of an item can give -/

section Outcomes

variable {ctx : ItemContext} {spec : EvaluationItemSpec} {hits : List RetrievedChunk}
  {retrieve : RetrievalQuery → Except Exc (List RetrievedChunk)}

/-- Without a generator the observation holds what was retrieved, and nothing else. -/
theorem runItem_none (hctx : ctx.retriever = .ok retrieve)
    (hret : retrieve ⟨spec.question, ctx.projectId, ctx.topK⟩ = .ok hits) :
    runItem (K := K) ctx none spec = .ok { retrieved := hits.map (·.chunkId) } := by
  simp only [runItem, hctx, observeItem, bind, Except.bind, hret]
  rfl

/-- What a generator's outcome makes of an item whose evidence was retrieved. -/
theorem runItem_some (hctx : ctx.retriever = .ok retrieve)
    (hret : retrieve ⟨spec.question, ctx.projectId, ctx.topK⟩ = .ok hits)
    (generator : AnswerGenerator) : runItem (K := K) ctx (some generator) spec =
      match ctx.answer generator spec hits with
      | .ok answer => .ok (answeredObservation hits answer)
      | .error e => recordFailure (.error e) := by
  simp only [runItem, hctx, observeItem, bind, Except.bind, hret]
  cases ctx.answer generator spec hits <;> rfl

/-- A run that does not generate observes what was retrieved, or an error code. -/
theorem runItem_none_cases {observation : ItemObservation K}
    (h : runItem ctx none spec = .ok observation) :
    (∃ retrieved, observation = { retrieved }) ∨
      ∃ code, observation = { errorCode := some code } := by
  obtain ⟨retrieve, -, h⟩ := bind_eq_ok.mp h
  simp only [observeItem] at h
  cases hret : retrieve ⟨spec.question, ctx.projectId, ctx.topK⟩ with
  | ok hits =>
      rw [hret] at h
      exact Or.inl ⟨_, (Except.ok.inj h).symm⟩
  | error e =>
      rw [hret] at h
      change recordFailure (.error e) = _ at h
      rw [recordFailure] at h
      cases hd : e.domain? with
      | none => rw [hd] at h; cases h
      | some d =>
          rw [hd] at h
          exact Or.inr ⟨d.code, (Except.ok.inj h).symm⟩

variable (ctx spec hits)

/-- A generator that raises a domain error on the evidence of the item. -/
def RaisesDomain (generator : Option AnswerGenerator) : Prop :=
  ∃ g d, generator = some g ∧ ctx.answer g spec hits = .error (.domain d)

/-- A generator that raises something else: the item is not recorded. -/
def RaisesOther (generator : Option AnswerGenerator) : Prop :=
  ∃ g e, generator = some g ∧ ctx.answer g spec hits = .error e ∧ e.domain? = none

variable {ctx spec hits}

/-- **The three ways an item whose evidence was retrieved can end**: with an
observation of it, with an observation of an error code only, or not recorded. -/
theorem runItem_cases (hctx : ctx.retriever = .ok retrieve)
    (hret : retrieve ⟨spec.question, ctx.projectId, ctx.topK⟩ = .ok hits)
    (generator : Option AnswerGenerator) :
    (¬ RaisesDomain ctx spec hits generator ∧ ¬ RaisesOther ctx spec hits generator ∧
      ∃ observation : ItemObservation K, runItem ctx generator spec = .ok observation ∧
        observation.retrieved = hits.map (·.chunkId)) ∨
    (RaisesDomain ctx spec hits generator ∧ ¬ RaisesOther ctx spec hits generator ∧
      ∃ observation : ItemObservation K, runItem ctx generator spec = .ok observation ∧
        observation.retrieved = []) ∨
    (RaisesOther ctx spec hits generator ∧ ∃ e,
      runItem (K := K) ctx generator spec = .error e) := by
  cases generator with
  | none =>
      refine Or.inl ⟨?_, ?_, _, runItem_none hctx hret, rfl⟩
      · rintro ⟨g, d, h, -⟩
        cases h
      · rintro ⟨g, e, h, -⟩
        cases h
  | some g =>
      have hother : ∀ {r}, ctx.answer g spec hits = r → (∀ e, r = .error e → e.domain? ≠ none) →
          ¬ RaisesOther ctx spec hits (some g) := by
        rintro r hr hdom ⟨g', e, h, he, hd⟩
        obtain rfl := Option.some.inj h
        exact hdom e (hr.symm.trans he) hd
      rw [runItem_some hctx hret]
      cases hans : ctx.answer g spec hits with
      | ok answer =>
          refine Or.inl ⟨?_, hother hans fun e h => (by cases h), _, rfl, rfl⟩
          rintro ⟨g', d, h, hd⟩
          rw [← Option.some.inj h, hans] at hd
          cases hd
      | error e =>
          cases hd : e.domain? with
          | none => exact Or.inr (Or.inr ⟨⟨g, e, rfl, hans, hd⟩, e, by simp [recordFailure, hd]⟩)
          | some d =>
              have he : e = .domain d := by cases e <;> simp_all [Exc.domain?]
              refine Or.inr (Or.inl ⟨⟨g, d, rfl, he ▸ hans⟩, hother hans ?_,
                { errorCode := some d.code }, by simp [recordFailure, hd], rfl⟩)
              intro e' h
              rw [← Except.error.inj h, hd]
              exact Option.some_ne_none d

end Outcomes

/-! ### Reading the metrics back -/

variable [Field K] [LinearOrder K]

/-- The value of a metric of an observation. -/
def metricValue (log2 : ℕ → K) (item : EvaluationItemSpec) (observation : ItemObservation K) :
    MetricName → Option K
  | .recallAt k => recallAtK observation.retrieved item.goldChunks.toFinset k
  | .precisionAt k => precisionAtK observation.retrieved item.goldChunks.toFinset k
  | .hitRateAt k => hitRateAtK observation.retrieved item.goldChunks.toFinset k
  | .ndcgAt k => ndcgAtK log2 observation.retrieved item.goldChunks.toFinset k
  | .mrr => reciprocalRank observation.retrieved item.goldChunks.toFinset
  | .citationPrecision => citationPrecision observation.cited item.goldChunks.toFinset
  | .citationRecall => citationRecall observation.cited item.goldChunks.toFinset
  | .citationValidity => citationValidity observation.claims observation.retrieved
  | .evidenceCoverage => evidenceCoverage observation.cited observation.retrieved
  | .unsupportedClaimRate => unsupportedClaimRate observation.claims
  | .abstentionCorrect => some (if observation.abstained = item.expectsAbstention then 1 else 0)
  | .inputTokens => some observation.inputTokens
  | .outputTokens => some observation.outputTokens
  | .totalTokens => some (observation.inputTokens + observation.outputTokens : ℕ)
  | .cost => observation.cost
  | .latencyMs => observation.latencyMs
  | .retrievalLatencyMs => observation.retrievalLatencyMs
  | .generationLatencyMs => observation.generationLatencyMs
  | .failed => some (if observation.errorCode.isSome then 1 else 0)

/-- The names that have a depth have one that was asked for. -/
def MetricName.Asked (kValues : List ℕ+) : MetricName → Prop
  | .recallAt k => k ∈ kValues
  | .precisionAt k => k ∈ kValues
  | .hitRateAt k => k ∈ kValues
  | .ndcgAt k => k ∈ kValues
  | _ => True

variable (log2 : ℕ → K) (item : EvaluationItemSpec) (observation : ItemObservation K)
  (kValues : List ℕ+)

/-- Every entry `score_item` sets is the value of its metric. -/
theorem eq_metricValue_of_mem {name : MetricName} {v : Option K}
    (h : (name, v) ∈ metricEntries log2 item observation kValues) :
    v = metricValue log2 item observation name := by
  rcases List.mem_append.mp h with h | h
  · obtain ⟨k, -, h⟩ := List.mem_flatMap.mp h
    simp only [metricsAt, List.mem_cons, Prod.mk.injEq, List.not_mem_nil, or_false] at h
    rcases h with ⟨rfl, rfl⟩ | ⟨rfl, rfl⟩ | ⟨rfl, rfl⟩ | ⟨rfl, rfl⟩ <;> rfl
  · simp only [itemEntries, List.mem_cons, Prod.mk.injEq, List.not_mem_nil, or_false] at h
    rcases h with ⟨rfl, rfl⟩ | ⟨rfl, rfl⟩ | ⟨rfl, rfl⟩ | ⟨rfl, rfl⟩ | ⟨rfl, rfl⟩ | ⟨rfl, rfl⟩ |
      ⟨rfl, rfl⟩ | ⟨rfl, rfl⟩ | ⟨rfl, rfl⟩ | ⟨rfl, rfl⟩ | ⟨rfl, rfl⟩ | ⟨rfl, rfl⟩ | ⟨rfl, rfl⟩ |
      ⟨rfl, rfl⟩ | ⟨rfl, rfl⟩ <;> rfl

/-- Every metric that was asked for is set. -/
theorem mem_metricEntries {name : MetricName} (h : name.Asked kValues) :
    (name, metricValue log2 item observation name) ∈
      metricEntries log2 item observation kValues := by
  cases name <;> first
    | exact List.mem_append_left _ (List.mem_flatMap.mpr ⟨_, h, by simp [metricsAt, metricValue]⟩)
    | exact List.mem_append_right _ (by simp [itemEntries, metricValue])

/-- **Every metric that was asked for can be read back.** -/
theorem metric_scoreItem {name : MetricName} (h : name.Asked kValues) :
    (scoreItem log2 item observation kValues).metric name =
      metricValue log2 item observation name := by
  have hget := Dict.get?_foldl_set (mem_metricEntries log2 item observation kValues h)
    fun w hw => eq_metricValue_of_mem log2 item observation kValues hw
  rw [ItemScore.metric, scoreItem, hget]
  rfl

/-- The failure category of a score, read off the observation. -/
theorem failureCategory_scoreItem : (scoreItem log2 item observation kValues).failureCategory =
    if observation.errorCode.isSome then some .executionError
    else if item.goldChunks ≠ [] ∧
        observation.retrieved.toFinset ∩ item.goldChunks.toFinset = ∅ then some .retrievalMiss
    else if observation.abstained ∧ ¬ item.expectsAbstention then some .overAbstention
    else if ¬ observation.abstained ∧ item.expectsAbstention then some .answeredWithoutEvidence
    else if (citationValidity (K := K) observation.claims observation.retrieved).any (· < 1) then
      some .inventedCitation
    else if (unsupportedClaimRate (K := K) observation.claims).any (0 < ·) then
      some .unsupportedClaim
    else none := by
  have hv := metric_scoreItem log2 item observation kValues
    (show MetricName.citationValidity.Asked kValues from trivial)
  have hu := metric_scoreItem log2 item observation kValues
    (show MetricName.unsupportedClaimRate.Asked kValues from trivial)
  simp only [ItemScore.metric, metricValue] at hv hu
  rw [← hv, ← hu]
  rfl

end Evaluation
end EvidenceLab
