/-
# What an evaluation run does not see

Three promises of the evaluation about its own measurements, each kept by one
module and broken by the composition of several.

A run that does not generate reports its generation metrics as absent: it never
does, since an observation of an item that was not answered is an observation of
an empty answer (`not_generationAbsent`).  Retrieval quality does not depend on
generation: a domain error in the generator throws away what was retrieved before
it (`sameRetrieval_iff`).  An invented citation lowers the validity of an answer's
citations: the generator drops it before anything is measured, so the validity is
never below one (`measuresInvention_iff`).
-/

import EvidenceLab.Evaluation.RunItem
import EvidenceLab.Reasoning.Accounting

namespace EvidenceLab
namespace Evaluation

open Text Data EvidenceLab.Core Reasoning

variable {K : Type} [Field K] [LinearOrder K]

/-! ### Generation that did not happen -/

/-- The metrics of the answer and of the call of the model. -/
def generationMetrics : List MetricName :=
  [.citationPrecision, .citationRecall, .citationValidity, .evidenceCoverage,
    .unsupportedClaimRate, .abstentionCorrect, .inputTokens, .outputTokens, .totalTokens, .cost]

/-- A score that reports generation as absent: no number for it, and no failure that
generation would have to answer for. -/
structure GenerationAbsent (score : ItemScore K) : Prop where
  metrics : ∀ name ∈ generationMetrics, score.metric name = none
  category : score.failureCategory = none ∨ score.failureCategory = some .executionError ∨
    score.failureCategory = some .retrievalMiss

/-- **What is reported of an item that was not answered**: the rates that divide by
citations or claims are absent, the token counts are zeros, and the others are
those of an empty answer that does not abstain. -/
theorem metric_ungenerated (log2 : ℕ → K) (item : EvaluationItemSpec) (retrieved : List Uuid)
    (kValues : List ℕ+) :
    (∀ name ∈ [MetricName.citationPrecision, .citationValidity, .unsupportedClaimRate, .cost],
      (scoreItem log2 item { retrieved } kValues).metric name = none) ∧
    (∀ name ∈ [MetricName.inputTokens, .outputTokens, .totalTokens],
      (scoreItem log2 item { retrieved } kValues).metric name = some 0) ∧
    (scoreItem log2 item { retrieved } kValues).metric .citationRecall =
      (if item.goldChunks = [] then none else some 0) ∧
    (scoreItem log2 item { retrieved } kValues).metric .evidenceCoverage =
      (if retrieved = [] then none else some 0) ∧
    (scoreItem log2 item { retrieved } kValues).metric .abstentionCorrect =
      some (if item.expectsAbstention then 0 else 1) := by
  have hread : ∀ name : MetricName, name.Asked kValues →
      (scoreItem log2 item { retrieved } kValues).metric name =
        metricValue log2 item { retrieved } name :=
    fun name h => metric_scoreItem log2 item _ kValues h
  have hcited : ItemObservation.cited { retrieved : ItemObservation K } = ∅ := rfl
  refine ⟨fun name hn => ?_, fun name hn => ?_, ?_, ?_, ?_⟩
  · simp only [List.mem_cons, List.not_mem_nil, or_false] at hn
    have hask : name.Asked kValues := by rcases hn with rfl | rfl | rfl | rfl <;> trivial
    rw [hread name hask]
    rcases hn with rfl | rfl | rfl | rfl
    · simp [metricValue, hcited, citationPrecision]
    · rfl
    · rfl
    · rfl
  · simp only [List.mem_cons, List.not_mem_nil, or_false] at hn
    have hask : name.Asked kValues := by rcases hn with rfl | rfl | rfl <;> trivial
    rw [hread name hask]
    rcases hn with rfl | rfl | rfl <;> simp [metricValue]
  · rw [hread .citationRecall trivial, metricValue, hcited, citationRecall]
    simp [List.toFinset_eq_empty_iff]
  · rw [hread .evidenceCoverage trivial, metricValue, hcited, evidenceCoverage]
    simp
  · rw [hread .abstentionCorrect trivial, metricValue]
    cases item.expectsAbstention <;> rfl

/-- **Absent generation is never reported as absent.**  Whatever the item and
whatever came of its retrieval, a run that does not generate reports tokens: none of
them, as a number. -/
theorem not_generationAbsent {ctx : ItemContext} {spec : EvaluationItemSpec}
    {observation : ItemObservation K} (log2 : ℕ → K) (kValues : List ℕ+)
    (h : runItem ctx none spec = .ok observation) :
    (scoreItem log2 spec observation kValues).metric .inputTokens = some 0 ∧
      ¬ GenerationAbsent (scoreItem log2 spec observation kValues) := by
  have hzero : (scoreItem log2 spec observation kValues).metric .inputTokens = some 0 := by
    rw [metric_scoreItem log2 spec observation kValues
      (show MetricName.inputTokens.Asked kValues from trivial), metricValue]
    rcases runItem_none_cases h with ⟨retrieved, rfl⟩ | ⟨code, rfl⟩ <;> simp
  refine ⟨hzero, fun habsent => ?_⟩
  have hnone := habsent.metrics .inputTokens (by decide)
  rw [hzero] at hnone
  cases hnone

/-- A context whose retriever returns the given hits. -/
def sampleContext (hits : List RetrievedChunk) : ItemContext where
  retriever := .ok fun _ => .ok hits
  projectId := 1
  topK := 2
  maxOutputTokens := 1

/-- An item whose one gold chunk is retrieved. -/
def foundItem : EvaluationItemSpec := { question := [], goldChunks := [4] }

theorem not_generationAbsent_sample :
    (scoreItem (K := ℚ) (fun _ => 1) foundItem { retrieved := [4] }).metric .inputTokens = some 0 ∧
      ¬ GenerationAbsent (scoreItem (K := ℚ) (fun _ => 1) foundItem { retrieved := [4] }) :=
  not_generationAbsent (fun _ => 1) defaultKValues
    (show runItem (sampleContext [samplePassage 4]) none foundItem = .ok { retrieved := [4] } from
      rfl)

/-- An item without gold whose retrieval finds nothing: the run has no answer, and
reports that it was right not to abstain. -/
theorem generationAbsent_fails :
    runItem (sampleContext []) none { question := [] } = .ok ({} : ItemObservation ℚ) ∧
      (scoreItem (K := ℚ) (fun _ => 1) { question := [] } {}).metric .abstentionCorrect = some 1 ∧
      ¬ GenerationAbsent (scoreItem (K := ℚ) (fun _ => 1) { question := [] } {}) := by
  have hmetric : (scoreItem (K := ℚ) (fun _ => 1) { question := [] } {}).metric
      .abstentionCorrect = some 1 :=
    (metric_ungenerated (fun _ => (1 : ℚ)) { question := [] } [] defaultKValues).2.2.2.2
  refine ⟨rfl, hmetric, fun habsent => ?_⟩
  have hnone := habsent.metrics .abstentionCorrect (by decide)
  rw [hmetric] at hnone
  cases hnone

/-! ### Retrieval and generation -/

section TwoGenerators

variable (spec : EvaluationItemSpec)

/-- Two outcomes of an item that record the same retrieval: the same retrieval
metrics at every depth, and the same retrieved ids. -/
def SameRetrieval (log2 : ℕ → K) (kValues : List ℕ+)
    (outcome₁ outcome₂ : Except Exc (ItemObservation K)) : Prop :=
  ∀ observation₁ observation₂, outcome₁ = .ok observation₁ → outcome₂ = .ok observation₂ →
    (∀ k ∈ kValues, ∀ name ∈ [MetricName.recallAt k, .precisionAt k, .hitRateAt k, .ndcgAt k, .mrr],
      (scoreItem log2 spec observation₁ kValues).metric name =
        (scoreItem log2 spec observation₂ kValues).metric name) ∧
    (scoreItem log2 spec observation₁ kValues).metric .mrr =
      (scoreItem log2 spec observation₂ kValues).metric .mrr ∧
    (resultRow observation₁ (scoreItem log2 spec observation₁ kValues)).retrievedChunkIds =
      (resultRow observation₂ (scoreItem log2 spec observation₂ kValues)).retrievedChunkIds

variable {spec} {ctx : ItemContext} {hits : List RetrievedChunk}
  {retrieve : RetrievalQuery → Except Exc (List RetrievedChunk)}

/-- Observations that retrieved the same score their retrieval the same. -/
theorem metric_eq_of_retrieved (log2 : ℕ → K) {kValues : List ℕ+}
    {observation₁ observation₂ : ItemObservation K}
    (h : observation₁.retrieved = observation₂.retrieved) :
    (∀ k ∈ kValues, ∀ name ∈ [MetricName.recallAt k, .precisionAt k, .hitRateAt k, .ndcgAt k, .mrr],
      (scoreItem log2 spec observation₁ kValues).metric name =
        (scoreItem log2 spec observation₂ kValues).metric name) ∧
    (scoreItem log2 spec observation₁ kValues).metric .mrr =
      (scoreItem log2 spec observation₂ kValues).metric .mrr := by
  have hread : ∀ name : MetricName, name.Asked kValues →
      metricValue log2 spec observation₁ name = metricValue log2 spec observation₂ name →
      (scoreItem log2 spec observation₁ kValues).metric name =
        (scoreItem log2 spec observation₂ kValues).metric name := fun name hask hv => by
    rw [metric_scoreItem log2 spec _ kValues hask, metric_scoreItem log2 spec _ kValues hask, hv]
  refine ⟨fun k hk name hn => ?_, hread _ trivial (by simp only [metricValue, h])⟩
  simp only [List.mem_cons, List.not_mem_nil, or_false] at hn
  rcases hn with rfl | rfl | rfl | rfl | rfl
  · exact hread _ hk (by simp only [metricValue, h])
  · exact hread _ hk (by simp only [metricValue, h])
  · exact hread _ hk (by simp only [metricValue, h])
  · exact hread _ hk (by simp only [metricValue, h])
  · exact hread _ trivial (by simp only [metricValue, h])

/-- **When retrieval quality does not depend on generation.**  Two generators leave
the same retrieval recorded exactly when nothing was retrieved, or one of them
raised an exception after which nothing is recorded, or both or neither raised a
domain error. -/
theorem sameRetrieval_iff (log2 : ℕ → K) (kValues : List ℕ+)
    (hctx : ctx.retriever = .ok retrieve)
    (hret : retrieve ⟨spec.question, ctx.projectId, ctx.topK⟩ = .ok hits)
    (generator₁ generator₂ : Option AnswerGenerator) :
    SameRetrieval spec log2 kValues (runItem ctx generator₁ spec) (runItem ctx generator₂ spec) ↔
      hits = [] ∨ RaisesOther ctx spec hits generator₁ ∨ RaisesOther ctx spec hits generator₂ ∨
        (RaisesDomain ctx spec hits generator₁ ↔ RaisesDomain ctx spec hits generator₂) := by
  have hsame : ∀ {o₁ o₂ : ItemObservation K}, o₁.retrieved = o₂.retrieved ↔
      SameRetrieval spec log2 kValues (.ok o₁) (.ok o₂) := by
    intro o₁ o₂
    refine ⟨fun h observation₁ observation₂ h₁ h₂ => ?_, fun h => (h _ _ rfl rfl).2.2⟩
    obtain rfl := Except.ok.inj h₁
    obtain rfl := Except.ok.inj h₂
    obtain ⟨hk, hmrr⟩ := metric_eq_of_retrieved log2 h
    exact ⟨hk, hmrr, h⟩
  rcases runItem_cases (K := K) hctx hret generator₁ with
    ⟨hd₁, ho₁, o₁, h₁, hr₁⟩ | ⟨hd₁, ho₁, o₁, h₁, hr₁⟩ | ⟨ho₁, e₁, h₁⟩
  · rcases runItem_cases (K := K) hctx hret generator₂ with
      ⟨hd₂, ho₂, o₂, h₂, hr₂⟩ | ⟨hd₂, ho₂, o₂, h₂, hr₂⟩ | ⟨ho₂, e₂, h₂⟩
    · rw [h₁, h₂, ← hsame, hr₁, hr₂]
      exact iff_of_true rfl (Or.inr (Or.inr (Or.inr (iff_of_false hd₁ hd₂))))
    · -- Only the second generator raised: its observation retrieved nothing.
      rw [h₁, h₂, ← hsame, hr₁, hr₂, List.map_eq_nil_iff]
      refine ⟨Or.inl, ?_⟩
      rintro (h | h | h | h)
      · exact h
      · exact absurd h ho₁
      · exact absurd h ho₂
      · exact absurd (h.mpr hd₂) hd₁
    · rw [h₂]
      exact iff_of_true (fun _ _ _ h => by cases h) (Or.inr (Or.inr (Or.inl ho₂)))
  · rcases runItem_cases (K := K) hctx hret generator₂ with
      ⟨hd₂, ho₂, o₂, h₂, hr₂⟩ | ⟨hd₂, ho₂, o₂, h₂, hr₂⟩ | ⟨ho₂, e₂, h₂⟩
    · rw [h₁, h₂, ← hsame, hr₁, hr₂, eq_comm, List.map_eq_nil_iff]
      refine ⟨Or.inl, ?_⟩
      rintro (h | h | h | h)
      · exact h
      · exact absurd h ho₁
      · exact absurd h ho₂
      · exact absurd (h.mp hd₁) hd₂
    · rw [h₁, h₂, ← hsame, hr₁, hr₂]
      exact iff_of_true rfl (Or.inr (Or.inr (Or.inr (iff_of_true hd₁ hd₂))))
    · rw [h₂]
      exact iff_of_true (fun _ _ _ h => by cases h) (Or.inr (Or.inr (Or.inl ho₂)))
  · rw [h₁]
    exact iff_of_true (fun _ _ h => by cases h) (Or.inr (Or.inl ho₁))

/-- A generator that raises a domain error. -/
def failingGenerator : AnswerGenerator where
  modelId := []
  generate := fun _ _ _ => .error (generationFailed "The model returned an empty answer.")

theorem sameRetrieval_iff_sample :
    SameRetrieval (K := ℚ) foundItem (fun _ => 1) [1]
        (runItem (sampleContext [samplePassage 4]) none foundItem)
        (runItem (sampleContext [samplePassage 4]) (some failingGenerator) foundItem) ↔
      [samplePassage 4] = [] ∨
        RaisesOther (sampleContext [samplePassage 4]) foundItem [samplePassage 4] none ∨
        RaisesOther (sampleContext [samplePassage 4]) foundItem [samplePassage 4]
          (some failingGenerator) ∨
        (RaisesDomain (sampleContext [samplePassage 4]) foundItem [samplePassage 4] none ↔
          RaisesDomain (sampleContext [samplePassage 4]) foundItem [samplePassage 4]
            (some failingGenerator)) :=
  sameRetrieval_iff (fun _ => 1) [1] rfl rfl none (some failingGenerator)

/-- The gold chunk was retrieved first: recall 1 without a generator, and recall 0
with one that fails. -/
theorem sameRetrieval_fails :
    (∃ observation : ItemObservation ℚ,
      runItem (sampleContext [samplePassage 4]) none foundItem = .ok observation ∧
      (scoreItem (fun _ => 1) foundItem observation [1]).metric (.recallAt 1) = some 1) ∧
    (∃ observation : ItemObservation ℚ,
      runItem (sampleContext [samplePassage 4]) (some failingGenerator) foundItem =
        .ok observation ∧
      (scoreItem (fun _ => 1) foundItem observation [1]).metric (.recallAt 1) = some 0) ∧
    ¬ SameRetrieval (K := ℚ) foundItem (fun _ => 1) [1]
      (runItem (sampleContext [samplePassage 4]) none foundItem)
      (runItem (sampleContext [samplePassage 4]) (some failingGenerator) foundItem) := by
  have hread : ∀ observation : ItemObservation ℚ,
      (scoreItem (fun _ => 1) foundItem observation [1]).metric (.recallAt 1) =
        recallAtK observation.retrieved {4} 1 := fun observation =>
    metric_scoreItem (fun _ => 1) foundItem observation [1]
      (show MetricName.Asked [1] (.recallAt 1) from List.mem_singleton_self 1)
  refine ⟨⟨_, rfl, ?_⟩, ⟨_, rfl, ?_⟩, fun h => ?_⟩
  · rw [hread]
    decide +kernel
  · rw [hread]
    decide +kernel
  · have hids := (h _ _ rfl rfl).2.2
    cases hids

end TwoGenerators

/-! ### Invented citations -/

section Invention

variable {render : Json → Str} {evidence : List RetrievedChunk}

/-- No failure that `_categorise` puts before an invented citation. -/
def NoDeeperFailure (item : EvaluationItemSpec) (observation : ItemObservation K) : Prop :=
  observation.errorCode = none ∧
  ¬ (item.goldChunks ≠ [] ∧ observation.retrieved.toFinset ∩ item.goldChunks.toFinset = ∅) ∧
  ¬ (observation.abstained = true ∧ item.expectsAbstention = false) ∧
  ¬ (observation.abstained = false ∧ item.expectsAbstention = true)

/-- The fraction of some cited values that point at one of `n` passages. -/
def validFraction (n : ℕ) (values : List Json) : K :=
  ((values.filter (pointsAtPassage n)).length : K) / values.length

/-- Invented citations are measured: if the answer reports any, the validity is the
fraction of the cited values that point at a passage, below one, and where nothing
more fundamental failed it is the failure. -/
def MeasuresInvention (log2 : ℕ → K) (item : EvaluationItemSpec) (kValues : List ℕ+) (n : ℕ)
    (cited : List Json) (answer : GeneratedAnswer) (observation : ItemObservation K) : Prop :=
  0 < answer.metadata.inventedCitations.getD 0 →
    (scoreItem log2 item observation kValues).metric .citationValidity =
      some (validFraction n cited) ∧
    validFraction (K := K) n cited < 1 ∧
    (NoDeeperFailure item observation →
      (scoreItem log2 item observation kValues).failureCategory = some .inventedCitation)

variable [IsStrictOrderedRing K]

/-- Citations that all point at something retrieved are valid, or there are none. -/
theorem citationValidity_of_subset {claims : List ClaimCitations} {retrieved : List Uuid}
    (h : ∀ claim ∈ claims, ∀ id ∈ claim.cited, id ∈ retrieved) :
    citationValidity (K := K) claims retrieved = none ∨
      citationValidity (K := K) claims retrieved = some 1 := by
  have hall : (claims.flatMap (·.cited)).filter (fun id => id ∈ retrieved) =
      claims.flatMap (·.cited) := by
    refine List.filter_eq_self.mpr fun id hid => decide_eq_true ?_
    obtain ⟨claim, hc, hid⟩ := List.mem_flatMap.mp hid
    exact h claim hc id hid
  simp only [citationValidity, hall]
  split_ifs with hzero
  · exact Or.inl rfl
  · exact Or.inr (congrArg some (div_self (Nat.cast_ne_zero.mpr hzero)))

/-- **The validity of an answer's citations is never below one.** -/
theorem citationValidity_answeredObservation {modelId : Str} {payload : Json}
    {usage : TokenUsage} {answer : GeneratedAnswer}
    (h : parse render modelId payload evidence usage = .ok answer) :
    citationValidity (K := K) (answeredObservation (K := K) evidence answer).claims
        (answeredObservation (K := K) evidence answer).retrieved = none ∨
      citationValidity (K := K) (answeredObservation (K := K) evidence answer).claims
        (answeredObservation (K := K) evidence answer).retrieved = some 1 := by
  refine citationValidity_of_subset fun claim hc id hid => ?_
  obtain ⟨claim', hc', rfl⟩ := List.mem_map.mp hc
  exact parse_subset h claim' hc' id hid

/-- **When invented citations are measured**: exactly when there are none, that is,
when every value cited by a claim that is kept points at a passage. -/
theorem measuresInvention_iff {ctx : ItemContext} {spec : EvaluationItemSpec}
    {retrieve : RetrievalQuery → Except Exc (List RetrievedChunk)} {model : ChatModel}
    {temperature : ℚ} {payload : Json} {usage : TokenUsage} {answer : GeneratedAnswer}
    (log2 : ℕ → K) (kValues : List ℕ+) (hctx : ctx.retriever = .ok retrieve)
    (hret : retrieve ⟨spec.question, ctx.projectId, ctx.topK⟩ = .ok evidence)
    (hne : evidence ≠ [])
    (hpayload : model.completeJson systemPrompt (buildUserPrompt spec.question evidence)
      ctx.maxOutputTokens temperature = .ok (payload, usage))
    (hparse : parse render model.modelId payload evidence usage = .ok answer) :
    runItem ctx (some (groundedAnswerGenerator render model temperature)) spec =
      .ok (answeredObservation (K := K) evidence answer) ∧
    (MeasuresInvention log2 spec kValues evidence.length (citations render (rawClaims payload))
        answer (answeredObservation evidence answer) ↔
      ∀ value ∈ citations render (rawClaims payload),
        pointsAtPassage evidence.length value = true) := by
  have hanswer : ctx.answer (groundedAnswerGenerator render model temperature) spec evidence =
      .ok answer := by
    obtain ⟨hit, rest, rfl⟩ := List.exists_cons_of_ne_nil hne
    exact bind_eq_ok.mpr ⟨(payload, usage), hpayload, hparse⟩
  refine ⟨by rw [runItem_some hctx hret, hanswer], ?_⟩
  have hcount : answer.metadata.inventedCitations.getD 0 =
      (invented evidence.length (citations render (rawClaims payload))).length := by
    rw [inventedCitations_parse hparse, Option.getD_some]
  have hnone : (∀ value ∈ citations render (rawClaims payload),
      pointsAtPassage evidence.length value = true) ↔
        invented evidence.length (citations render (rawClaims payload)) = [] := by
    simp [invented, List.filter_eq_nil_iff]
  rw [MeasuresInvention, hcount, hnone]
  constructor
  · intro hmeasured
    by_contra hinv
    obtain ⟨hvalid, hlt, -⟩ := hmeasured (List.length_pos_iff.mpr hinv)
    rw [metric_scoreItem log2 spec _ kValues
      (show MetricName.citationValidity.Asked kValues from trivial), metricValue] at hvalid
    -- The validity is absent or one, and the fraction is a number below one.
    rcases citationValidity_answeredObservation (K := K) hparse with h | h
    · rw [h] at hvalid
      cases hvalid
    · rw [h] at hvalid
      rw [← Option.some.inj hvalid] at hlt
      exact lt_irrefl _ hlt
  · intro hinv hpos
    rw [hinv] at hpos
    exact absurd hpos (lt_irrefl 0)

/-- A model whose one claim cites the passage and one that does not exist. -/
def inventingPayload : Json :=
  .dict [(answerKey, .str (lit ['a'])), (claimsKey, .list [.dict [(textKey, .str (lit ['t'])),
    (evidenceKey, .list [.int 0, .int 7])]])]

def inventingModel : ChatModel where
  modelId := []
  completeJson := fun _ _ _ _ => .ok (inventingPayload, {})

/-- What the generator makes of it. -/
def inventedAnswer : GeneratedAnswer where
  text := lit ['a']
  claims := [⟨lit ['t'], [4]⟩]
  metadata := { evidenceCount := some 1, inventedCitations := some 1 }

theorem parse_inventingPayload :
    parse (fun _ => []) [] inventingPayload [samplePassage 4] {} = .ok inventedAnswer := rfl

theorem measuresInvention_iff_sample :
    runItem (sampleContext [samplePassage 4])
        (some (groundedAnswerGenerator (fun _ => []) inventingModel 0)) foundItem =
      .ok (answeredObservation (K := ℚ) [samplePassage 4] inventedAnswer) ∧
    (MeasuresInvention (K := ℚ) (fun _ => 1) foundItem [1] 1
        (citations (fun _ => []) (rawClaims inventingPayload)) inventedAnswer
        (answeredObservation [samplePassage 4] inventedAnswer) ↔
      ∀ value ∈ citations (fun _ => []) (rawClaims inventingPayload),
        pointsAtPassage 1 value = true) :=
  measuresInvention_iff (fun _ => 1) [1] rfl rfl (List.cons_ne_nil _ _) rfl
    parse_inventingPayload

/-- One of two citations was invented, and no failure is reported: the validity is
one and the category is empty. -/
theorem measuresInvention_fails :
    inventedAnswer.metadata.inventedCitations = some 1 ∧
    NoDeeperFailure (K := ℚ) foundItem (answeredObservation [samplePassage 4] inventedAnswer) ∧
    (scoreItem (K := ℚ) (fun _ => 1) foundItem
      (answeredObservation [samplePassage 4] inventedAnswer)).failureCategory = none ∧
    ¬ MeasuresInvention (K := ℚ) (fun _ => 1) foundItem [1] 1
      (citations (fun _ => []) (rawClaims inventingPayload)) inventedAnswer
      (answeredObservation [samplePassage 4] inventedAnswer) := by
  have hdeep : NoDeeperFailure (K := ℚ) foundItem
      (answeredObservation [samplePassage 4] inventedAnswer) := by
    refine ⟨rfl, ?_, ?_, ?_⟩ <;> decide
  have hnone : ∀ kValues, (scoreItem (K := ℚ) (fun _ => 1) foundItem
      (answeredObservation [samplePassage 4] inventedAnswer) kValues).failureCategory = none := by
    intro kValues
    rw [failureCategory_scoreItem]
    decide +kernel
  refine ⟨rfl, hdeep, hnone defaultKValues, fun h => ?_⟩
  have := (h (by decide)).2.2 hdeep
  rw [hnone] at this
  cases this

end Invention

end Evaluation
end EvidenceLab
