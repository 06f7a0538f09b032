/-
# Traced executions

`create_query` of `app/api/v1/routes/query.py` again, with the trace it records: the
spans around retrieval and generation, and `TraceService.save`.  What the request
depends on is that of `QueryDeps`, with the ids and the clock of the trace and the
answer to the commit that saves it; a commit that raises may have been carried out.
Without the spans this is `createQuery` (`createQuery_of_traced`).

A trace is saved on two paths, at the end and in `except DomainError`.  So an execution
leaves its trace exactly when nothing but a `DomainError` leaves a stage and the save
goes through (`traced_iff`).
-/

import EvidenceLab.Reasoning.Query
import EvidenceLab.Runs.Session
import EvidenceLab.Tracing.Stored

namespace EvidenceLab
namespace Reasoning

open Text Data EvidenceLab.Core Runs Tracing

/-! ### What is recorded -/

/-- The values of the attributes that a query records. -/
inductive Attribute
  | text (s : Str)
  | name (s : String)
  | names (ss : List String)
  | number (n : ℕ)
  | rate (x : Float64)
  | flag (b : Bool)
  | absent

/-- Keyword arguments. -/
def keywords (entries : List (String × Attribute)) : Dict String Attribute :=
  entries.foldl (fun d e => d.set e.1 e.2) Dict.empty

/-- `str(retriever)`. -/
def retrieverName : RetrieverKind → String
  | .semantic => "semantic"
  | .keyword => "keyword"
  | .hybrid => "hybrid"

/-- `sources`: the arms that contributed, sorted. -/
def sources (evidence : List RetrievedChunk) : List String :=
  ((evidence.flatMap (·.contributions)).map fun item =>
    retrieverName item.retriever).dedup.mergeSort fun a b => a ≤ b

/-- `Trace` and its spans, as they are saved. -/
structure SavedTrace where
  row : TraceRow
  status : SpanStatus
  startedAt : ℤ
  finishedAt : ℤ
  totalLatencyMs : ℚ
  attributes : Dict String Attribute
  organizationId : Uuid
  userId : Uuid
  spans : List (TraceSpanRow Attribute)

/-- What `save` is told besides the record. -/
structure SaveArgs where
  projectId : Uuid
  principal : Principal
  queryText : Str
  strategy : SearchStrategy
  topK : ℕ
  model : Str
  embeddingModel : Option Str
  evidenceCount : ℕ
  abstained : Bool := false
  answer : Option Str := none
  claims : List StoredClaim := []
  retrievedChunkIds : List Uuid := []
  citedChunkIds : List Uuid := []

/-- The rows that `TraceService.save` adds. -/
def savedTrace (record : TraceRecord Attribute) (args : SaveArgs) : SavedTrace where
  row :=
    { id := record.traceId
      queryText := args.queryText
      strategy := args.strategy
      failed := record.status = .error
      inputTokens := record.inputTokens
      outputTokens := record.outputTokens
      cost := record.cost
      model := args.model
      embeddingModel := args.embeddingModel
      evidenceCount := args.evidenceCount
      abstained := args.abstained
      answer := args.answer
      claims := args.claims
      retrievedChunkIds := args.retrievedChunkIds
      citedChunkIds := args.citedChunkIds
      errorCode := record.errorCode
      errorMessage := record.errorMessage
      topK := args.topK
      projectId := args.projectId }
  status := record.status
  startedAt := record.startedAt
  finishedAt := record.finishedAt
  totalLatencyMs := record.totalLatencyMs
  attributes := record.attributes
  organizationId := args.principal.organizationId
  userId := args.principal.userId
  spans := savedSpans record

/-! ### The dependencies of a traced request -/

/-- What a traced request depends on: the fields of `QueryDeps`, what the adaptive
retriever says of its decision, the ids of the trace and its spans, the readings of the
clock where they are taken, `str` of an exception, and the answer to the commit. -/
structure TracedDeps where
  principal : Principal
  getProject : Uuid → Except Exc Uuid
  generator : Option AnswerGenerator
  embeddings : Option Str
  maxOutputTokens : ℕ
  inputRate : Option Float64 := none
  outputRate : Option Float64 := none
  retrieve : SearchStrategy → RetrievalQuery → Except Exc (List RetrievedChunk)
  analysis : Str → Dict String Attribute := fun _ => Dict.empty
  traceId : Uuid
  retrievalSpan : Uuid
  generationSpan : Uuid
  clock : ℕ → ℤ := fun _ => 0
  elapsed : ℕ → ℚ := fun _ => 0
  excText : Exc → String := fun _ => ""
  commit : CommitReply Exc

/-- The same as the dependencies of an execution without its spans. -/
def TracedDeps.query (deps : TracedDeps) : QueryDeps where
  getProject := deps.getProject
  generator := deps.generator
  embeddings := deps.embeddings
  maxOutputTokens := deps.maxOutputTokens
  inputRate := deps.inputRate
  outputRate := deps.outputRate
  retrieve := deps.retrieve
  traceId := deps.traceId
  commitTrace := fun _ => reply deps.commit.raised

/-! ### The route -/

/-- `TraceCollector()` and the facts of the request. -/
def newTrace (deps : TracedDeps) (request : QueryRequest) : TraceCollector Attribute :=
  let t : TraceCollector Attribute := { traceId := deps.traceId, startedAt := deps.clock 0 }
  t.set (keywords [("strategy", .name request.strategy.str), ("top_k", .number request.topK)])

/-- `_retrieve`: the chosen strategy inside a retrieval span. -/
def retrieveTraced (deps : TracedDeps) (request : QueryRequest) (project : Uuid)
    (t : TraceCollector Attribute) : Except Exc (List RetrievedChunk) × TraceCollector Attribute :=
  t.within
    ⟨deps.retrievalSpan, .retrieval, keywords [("strategy", .name request.strategy.str)],
      deps.clock 1⟩
    deps.excText (deps.clock 2) (deps.elapsed 2)
    ((deps.retrieve request.strategy ⟨request.query, project, request.topK⟩).map fun evidence =>
      (evidence, update
        (if request.strategy = .adaptive then deps.analysis request.query else Dict.empty)
        (keywords [("candidate_count", .number evidence.length),
          ("sources", .names (sources evidence))])))

/-- The generation span of `create_query`. -/
def generateTraced (deps : TracedDeps) (request : QueryRequest) (generator : AnswerGenerator)
    (evidence : List RetrievedChunk) (t : TraceCollector Attribute) :
    Except Exc GeneratedAnswer × TraceCollector Attribute :=
  t.within
    ⟨deps.generationSpan, .generation, keywords [("model", .text generator.modelId)],
      deps.clock 3⟩
    deps.excText (deps.clock 4) (deps.elapsed 4)
    ((generator.generate request.query evidence ⟨0, deps.maxOutputTokens⟩).map fun answer =>
      (answer, keywords [("claims", .number answer.claims.length),
        ("abstained", .flag answer.abstained),
        ("invented_citations", .number (answer.metadata.inventedCitations.getD 0)),
        ("input_tokens", .number answer.usage.inputTokens),
        ("output_tokens", .number answer.usage.outputTokens)]))

/-- The trace is saved, and then the execution goes on to its outcome; a commit that
raises replaces that. -/
def saving {α : Type} (deps : TracedDeps) (saved : SavedTrace) (outcome : Except Exc α) :
    Except Exc α × List SavedTrace :=
  (reply deps.commit.raised >>= fun _ => outcome, if deps.commit.Lands then [saved] else [])

/-- The `except DomainError` of the route. -/
def saveFailed {α : Type} (deps : TracedDeps) (request : QueryRequest) (project : Uuid)
    (model : Str) (embeddingModel : Option Str) (evidence : List RetrievedChunk)
    (t : TraceCollector Attribute) (e : Exc) : Except Exc α × List SavedTrace :=
  match e.domain? with
  | none => (.error e, [])
  | some d =>
      saving deps
        (savedTrace (t.finish (some d.code) (some d.message) (deps.clock 5) (deps.elapsed 5))
          { projectId := project, principal := deps.principal, queryText := request.query
            strategy := request.strategy, topK := request.topK, model, embeddingModel
            evidenceCount := evidence.length
            retrievedChunkIds := evidence.map (·.chunkId) })
        (.error e)

/-- What `save` is told of an execution that answered. -/
def answeredArgs (deps : TracedDeps) (request : QueryRequest) (project : Uuid)
    (embeddingModel : Option Str) (evidence : List RetrievedChunk) (answer : GeneratedAnswer) :
    SaveArgs where
  projectId := project
  principal := deps.principal
  queryText := request.query
  strategy := request.strategy
  topK := request.topK
  model := answer.modelId
  embeddingModel := embeddingModel
  evidenceCount := evidence.length
  abstained := answer.abstained
  answer := some answer.text
  claims := answer.claims.map storedClaim
  retrievedChunkIds := evidence.map (·.chunkId)
  citedChunkIds := answer.citedChunkIds

/-- `create_query` behind its checks. -/
def runTraced (deps : TracedDeps) (request : QueryRequest) (project : Uuid)
    (generator : AnswerGenerator) : Except Exc QueryResponse × List SavedTrace :=
  let embeddingModel := if request.strategy.needsEmbeddings then deps.embeddings else none
  match retrieveTraced deps request project (newTrace deps request) with
  | (.error e, t) => saveFailed deps request project generator.modelId embeddingModel [] t e
  | (.ok evidence, t) =>
      match generateTraced deps request generator evidence t with
      | (.error e, t) =>
          saveFailed deps request project generator.modelId embeddingModel evidence t e
      | (.ok answer, t) =>
          match estimateCost deps.inputRate deps.outputRate answer.usage.inputTokens
              answer.usage.outputTokens with
          | .error e =>
              saveFailed deps request project generator.modelId embeddingModel evidence t e
          | .ok cost =>
              let t := t.recordUsage answer.usage.inputTokens answer.usage.outputTokens cost
              saving deps
                (savedTrace (t.finish none none (deps.clock 5) (deps.elapsed 5))
                  (answeredArgs deps request project embeddingModel evidence answer))
                (.ok (queryResponse deps.query request embeddingModel evidence answer t.cost))

/-- `create_query`: the response, or what was raised, and the traces committed. -/
def createQueryTraced (deps : TracedDeps) (request : QueryRequest) :
    Except Exc QueryResponse × List SavedTrace :=
  match checkQuery deps.query request with
  | .error e => (.error e, [])
  | .ok (project, generator) => runTraced deps request project generator

end Reasoning
end EvidenceLab
