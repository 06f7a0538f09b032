/-
# Executing an evaluation run

`create_run` and `execute` of `app/services/evaluation_service.py`.  A run is created
pending; an attempt at it marks it running in a commit of its own, scores every item of
the dataset and publishes the results, the counts and the aggregates in a second commit.
A domain error that leaves the loop is recorded on the run; nothing else is.

The queue delivers a run at least once, so attempts follow each other on the same row.
-/

import EvidenceLab.Evaluation.RunItem
import EvidenceLab.Runs.Session

namespace EvidenceLab
namespace Evaluation

open Text Data EvidenceLab.Core Reasoning Runs Session

variable {K : Type}

/-! ### Rows -/

/-- `RunStatus`. -/
inductive RunStatus
  | pending | running | completed | failed
  deriving DecidableEq, Repr

/-- `EvaluationItem`, as far as a run reads it. -/
structure EvaluationItem where
  id : Uuid
  question : Str
  goldChunkIds : List Uuid := []
  difficulty : String := "medium"
  evidenceCondition : Str := lit "clean".toList

/-- `EvaluationResult`. -/
structure EvaluationResult (K : Type) extends ResultRow K where
  itemId : Uuid

/-- The `aggregate_metrics` of a run. -/
structure AggregateMetrics (K : Type) where
  overall : Aggregate K
  byCondition : List (Str × Aggregate K)

/-- `EvaluationRun`, with its results. -/
structure EvaluationRun (K : Type) where
  projectId : Uuid
  config : List (Str × Json)
  status : RunStatus := .pending
  itemCount : ℕ
  completedCount : ℕ := 0
  failedCount : ℕ := 0
  aggregateMetrics : Option (AggregateMetrics K) := none
  errorCode : Option ErrorCode := none
  errorMessage : Option String := none
  results : List (EvaluationResult K) := []

/-- What `create_run` stores. -/
def createRun (projectId : Uuid) (config : List (Str × Json)) (items : List EvaluationItem) :
    EvaluationRun K where
  projectId := projectId
  config := config
  itemCount := items.length

/-! ### Configuration and items -/

/-- What an attempt reads from the configuration of its run. -/
structure RunConfig where
  strategy : Str
  topK : ℤ
  generate : Bool

/-- The reads of `config`; `int` of a value that is no number raises. -/
def readConfig (render : Json → Str) (defaultTopK : ℤ) (config : List (Str × Json)) :
    Except Exc RunConfig := do
  let strategy := match config.lookup (lit "strategy".toList) with
    | none => lit "hybrid".toList
    | some (.str s) => s
    | some value => render value
  let topK ← match config.lookup (lit "top_k".toList) with
    | none => .ok defaultTopK
    | some value => value.toInt
  let generate := (config.lookup (lit "generate".toList)).elim false Json.truthy
  return { strategy, topK, generate }

/-- `EMBEDDING_STRATEGIES`. -/
def embeddingStrategies : List Str :=
  [lit "semantic".toList, lit "hybrid".toList, lit "adaptive".toList]

/-- `strategy in EMBEDDING_STRATEGIES`. -/
def RunConfig.needsEmbeddings (config : RunConfig) : Bool := config.strategy ∈ embeddingStrategies

/-- `Difficulty`, by its texts. -/
def difficulties : List String := ["easy", "medium", "hard"]

def evidenceConditions : List EvidenceCondition :=
  [.clean, .noisy, .conflicting, .outdated, .incomplete, .adversarial]

/-- `_to_spec`: a text that is none of the enumeration's raises. -/
def toSpec (item : EvaluationItem) : Except Exc EvaluationItemSpec :=
  if item.difficulty ∉ difficulties then .error .valueError
  else
    match evidenceConditions.find? (·.str = item.evidenceCondition) with
    | none => .error .valueError
    | some evidenceCondition =>
        .ok { question := item.question, goldChunks := item.goldChunkIds, evidenceCondition }

/-! ### An attempt -/

/-- An attempt at a run: the settings, and what the calls answer.  A retriever and a
generator may behave differently at each item of the loop.  The lookup of the dataset
may raise, but finds one: the run's foreign key refers to it. -/
structure ExecuteAttempt where
  runId : Uuid
  render : Json → Str
  defaultTopK : ℤ
  maxOutputTokens : ℕ
  injected : Option (ℕ → AnswerGenerator) := none
  lookup : Option Exc
  datasetLookup : Option Exc
  startCommit : CommitReply Exc
  embeddings : Option Exc
  generator : Except Exc (ℕ → AnswerGenerator)
  retriever : ℕ → Except Exc (RetrievalQuery → Except Exc (List RetrievedChunk))
  finalCommit : CommitReply Exc
  failure : AmendReplies Exc
  closeEmbeddings : Option Exc
  closeGenerator : Option Exc

namespace ExecuteAttempt

variable (a : ExecuteAttempt) (config : RunConfig)

/-- `owns_generator`. -/
def ownsGenerator : Bool := config.generate && a.injected.isNone

/-- The embedding pipeline, if one is needed. -/
def makeEmbeddings : Except Exc Unit :=
  if config.needsEmbeddings then reply a.embeddings else .ok ()

/-- The generator: a new one, the one that was injected, or none at all. -/
def makeGenerator : Except Exc (Option (ℕ → AnswerGenerator)) :=
  if a.ownsGenerator config then
    match a.generator with
    | .ok generator => .ok (some generator)
    | .error e => .error e
  else .ok a.injected

/-- The context of the item at an index of the loop. -/
def context (run : EvaluationRun K) (i : ℕ) : ItemContext where
  retriever := a.retriever i
  projectId := run.projectId
  topK := config.topK.toNat
  maxOutputTokens := a.maxOutputTokens

end ExecuteAttempt

variable [Field K] [LinearOrder K] (log2 : ℕ → K)

/-- The body of the loop: the result of an item, and what is aggregated of it. -/
def scoreRow (a : ExecuteAttempt) (config : RunConfig) (run : EvaluationRun K)
    (generator : Option (ℕ → AnswerGenerator)) (i : ℕ) (item : EvaluationItem) :
    Except Exc (EvaluationResult K × Str × ItemScore K) := do
  let spec ← toSpec item
  let generator := if config.generate then generator.map fun g => g i else none
  let observation ← runItem (a.context config run i) generator spec
  let score := scoreItem log2 spec observation
  return ({ toResultRow := resultRow observation score, itemId := item.id },
    spec.evidenceCondition.str, score)

/-- The session's row of a run, and its change. -/
abbrev RunSession (K α : Type) := Session Exc (Option (EvaluationRun K)) α

/-- The loop of `execute`, from the item at an index on: every result is added to the
session. -/
def executeItems (a : ExecuteAttempt) (config : RunConfig) (run : EvaluationRun K)
    (generator : Option (ℕ → AnswerGenerator)) :
    ℕ → List EvaluationItem → RunSession K (List (Str × ItemScore K))
  | _, [] => return []
  | i, item :: items => do
      let row ← ask (scoreRow log2 a config run generator i item)
      change (Option.map fun run => { run with results := run.results ++ [row.1] })
      let scored ← executeItems a config run generator (i + 1) items
      return row.2 :: scored

/-- `not score.metrics.get("failed")`. -/
def itemCompleted (score : ItemScore K) : Bool := (score.metric .failed).getD 0 = 0

/-- The columns that a complete attempt sets. -/
def EvaluationRun.publish (scored : List (Str × ItemScore K)) (run : EvaluationRun K) :
    EvaluationRun K :=
  let completedCount := scored.countP fun entry => itemCompleted entry.2
  { run with
    completedCount
    failedCount := scored.length - completedCount
    aggregateMetrics := some ⟨aggregate (scored.map Prod.snd), aggregateBy scored⟩
    status := .completed }

omit [Field K] [LinearOrder K] in
/-- The columns that a failure sets. -/
def EvaluationRun.fail (code : ErrorCode) (message : String) (run : EvaluationRun K) :
    EvaluationRun K :=
  { run with status := .failed, errorCode := some code, errorMessage := some message }

/-- The `try` of `execute`. -/
def score (a : ExecuteAttempt) (config : RunConfig) (run : EvaluationRun K)
    (items : List EvaluationItem) : RunSession K Unit := do
  ask (a.makeEmbeddings config)
  let generator ← ask (a.makeGenerator config)
  let scored ← executeItems log2 a config run generator 0 items
  change (Option.map (EvaluationRun.publish scored))
  commit a.finalCommit

/-- Its handler: a domain error is recorded on the run, and raised. -/
def executeHandler (a : ExecuteAttempt) (e : Exc) : RunSession K Unit :=
  match e.domain? with
  | some d => do
      amend a.failure id (Option.map (EvaluationRun.fail d.code d.message))
      raise e
  | none => raise e

/-- Its `finally`: what was made is closed. -/
def closeProviders (a : ExecuteAttempt) (config : RunConfig) : RunSession K Unit :=
  match a.makeEmbeddings config with
  | .error _ => return ()
  | .ok _ => do
      if config.needsEmbeddings then await a.closeEmbeddings
      match a.makeGenerator config with
      | .error _ => return ()
      | .ok _ => if a.ownsGenerator config then await a.closeGenerator

/-- `NotFoundError("Evaluation run not found.", …)`. -/
def runNotFound (runId : Uuid) : DomainError :=
  ⟨.notFound, "Evaluation run not found.", .notFound, [("run_id", .text runId.str)]⟩

/-- `execute`, which returns the run as its session has it. -/
def execute (a : ExecuteAttempt) (items : List EvaluationItem) :
    RunSession K (Option (EvaluationRun K)) := do
  await a.lookup
  match ← current with
  | none => raise (.domain (runNotFound a.runId))
  | some run =>
      await a.datasetLookup
      let config ← ask (readConfig a.render a.defaultTopK run.config)
      change (Option.map fun run => { run with status := .running })
      commit a.startCommit
      ensuring (handling (score log2 a config run items) (executeHandler a))
        (closeProviders a config)
      current

end Evaluation
end EvidenceLab
