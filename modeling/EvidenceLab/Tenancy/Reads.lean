/-
# What a principal can read

The reading endpoints of `app/api/v1/routes`, with the services that they call.  Some
queries select by organization, some by a project that was looked up by organization
before, the chunks of a document by the document, and the chunks of an evidence graph by
their ids alone.

A row is returned as it is: the schemas of `app/schemas` leave columns out and add none.
Where a relationship has an order, its rows are put into it.
-/

import EvidenceLab.Tenancy.Search
import EvidenceLab.Visualization.Comparison
import EvidenceLab.Visualization.EvidenceGraph
import EvidenceLab.Visualization.Heatmap
import EvidenceLab.Visualization.Timeline

namespace EvidenceLab
namespace Tenancy

open Text Data EvidenceLab.Core Retrieval Evaluation Reasoning Tracing Visualization

variable {V K : Type} (b : Backend V) (s : Tables V K) (principal : Principal)

/-! ### Projects and documents -/

/-- The row of a query, or the error that it is not there. -/
def orRaise {α : Type} (e : DomainError) (row : Option α) : Except Exc α :=
  row.elim (.error (.domain e)) .ok

/-- `ProjectService.list`. -/
def listProjects : List Project :=
  b.engine.select (·.id) (·.organizationId = principal.organizationId)
    (fun x y => y.createdAt ≤ x.createdAt) s.projects

def projectNotFound (projectId : Uuid) : DomainError :=
  ⟨.notFound, "Project not found.", .notFound, [("project_id", .text projectId.str)]⟩

/-- `ProjectService.get`. -/
def getProject (projectId : Uuid) : Except Exc Project :=
  orRaise (projectNotFound projectId) (b.engine.scalar (·.id)
    (fun p => p.id = projectId ∧ p.organizationId = principal.organizationId) s.projects)

/-- `get_project_scope`. -/
def getProjectScope (projectId : Uuid) : Except Exc Uuid := do
  let project ← getProject b s principal projectId
  return project.id

/-- `list_documents`. -/
def listDocuments (projectId : Uuid) : List DocumentRecord :=
  b.engine.select (·.id) (·.projectId = projectId) (fun x y => y.createdAt ≤ x.createdAt)
    s.documents

/-- `get_document`. -/
def getDocument (documentId projectId : Uuid) : Except Exc DocumentRecord :=
  orRaise (Ingest.documentNotFound documentId "Document not found.")
    (b.engine.scalar (·.id) (fun d => d.id = documentId ∧ d.projectId = projectId) s.documents)

/-- `list_chunks`. -/
def listChunks (documentId projectId : Uuid) : Except Exc (List (ChunkRecord V)) := do
  let _ ← getDocument b s documentId projectId
  return b.engine.select (·.id) (·.documentId = documentId) (fun x y => x.ordinal ≤ y.ordinal)
    s.chunks

/-! ### Search and query -/

/-- `SearchRequest`. -/
structure SearchRequest where
  projectId : Uuid
  query : Str
  topK : ℕ := 10
  strategy : SearchStrategy := .semantic

/-- `SearchResponse`, without the latency. -/
structure SearchResponse where
  query : Str
  strategy : SearchStrategy
  topK : ℕ
  embeddingModel : Option Str
  queryTerms : List Str
  analysis : Option (QueryType × RetrievalProfile ℚ)
  results : List EvidenceItem

/-- The query of a request in its project. -/
def SearchRequest.inProject (request : SearchRequest) (projectId : Uuid) : FilteredQuery :=
  { text := request.query, projectId, topK := request.topK }

/-- `str(payload.strategy)`. -/
def strategyName (strategy : SearchStrategy) : Str := lit strategy.str.toList

/-- `search`. -/
def search (embeddings : Option (EmbeddingPipeline V)) (request : SearchRequest) :
    Except Exc SearchResponse := do
  let project ← getProject b s principal request.projectId
  if request.strategy.needsEmbeddings ∧ embeddings.isNone then
    throw (.domain (providerError ("MISTRAL_API_KEY is not set, so " ++ request.strategy.str ++
      " search is unavailable. Keyword search needs no provider and still works.")
      .providerNotConfigured "mistral"))
  else
    let hits ← buildRetriever b (strategyName request.strategy) embeddings s.chunks s.chunks
      (request.inProject project.id)
    let policy := defaultPolicy
    return {
      query := request.query
      strategy := request.strategy
      topK := request.topK
      embeddingModel :=
        if request.strategy.needsEmbeddings then embeddings.map (·.modelId) else none
      queryTerms := if request.strategy = .semantic then [] else b.queryLexemes request.query
      analysis := if request.strategy = .adaptive then
          some (b.analyze request.query, policy.profileFor (b.analyze request.query)) else none
      results := hits.map toEvidence }

/-- What a query depends on, its project check and the two arms of its retriever reading
the database as they see it. -/
def queryDeps (seen : ℕ → Tables V K) (embeddings : Option (EmbeddingPipeline V))
    (deps : TracedDeps) : TracedDeps :=
  { deps with
    principal
    getProject := getProjectScope b (seen 0) principal
    embeddings := embeddings.map (·.modelId)
    retrieve := fun strategy query => buildRetriever b (strategyName strategy) embeddings
      (seen 1).chunks (seen 2).chunks { toRetrievalQuery := query } }

/-! ### Traces -/

def traceNotFound (traceId : Uuid) : DomainError :=
  ⟨.notFound, "Trace not found.", .notFound, [("trace_id", .text traceId.str)]⟩

/-- `TraceService.get`. -/
def getTrace (traceId : Uuid) : Except Exc StoredTrace :=
  orRaise (traceNotFound traceId) (b.engine.scalar (·.row.id)
    (fun t => t.row.id = traceId ∧ t.organizationId = principal.organizationId) s.traces)

/-- `TraceService.list_for_project`. -/
def listTraces (projectId : Uuid) (limit : ℕ) : List StoredTrace :=
  (b.engine.select (·.row.id)
    (fun t => t.row.projectId = projectId ∧ t.organizationId = principal.organizationId)
    (fun x y => y.startedAt ≤ x.startedAt) s.traces).take limit

/-- `trace.spans`. -/
def loadSpans (trace : StoredTrace) : List (TraceSpanRow Attribute) :=
  b.engine.orderBy (·.id) (fun x y => x.startedAt ≤ y.startedAt) trace.spans

/-- Milliseconds from the start of a trace, which counts in microseconds. -/
def offsetMs (trace : StoredTrace) (span : TraceSpanRow Attribute) : ℚ :=
  (span.startedAt - trace.startedAt : ℤ) / 1000

/-- `_stage_latency`. -/
def stageLatency (spans : List (TraceSpanRow Attribute)) (stage : TraceStage) : Option ℚ :=
  (spans.find? (·.stage = stage)).map (·.durationMs)

/-- `TraceRead`: the row, and what is computed of it. -/
structure TraceRead where
  trace : StoredTrace
  retrievalLatencyMs : Option ℚ
  generationLatencyMs : Option ℚ
  rerankingLatencyMs : Option ℚ
  verificationLatencyMs : Option ℚ
  totalTokens : ℕ
  spans : List (TraceSpanRow Attribute × ℚ)

/-- `_to_read`. -/
def toRead (trace : StoredTrace) : TraceRead :=
  let spans := loadSpans b trace
  { trace
    retrievalLatencyMs := stageLatency spans .retrieval
    generationLatencyMs := stageLatency spans .generation
    rerankingLatencyMs := stageLatency spans .reranking
    verificationLatencyMs := stageLatency spans .verification
    totalTokens := trace.row.inputTokens + trace.row.outputTokens
    spans := spans.map fun span => (span, offsetMs trace span) }

/-- What `trace_timeline` makes of a trace, with its query. -/
def traceTimeline (trace : StoredTrace) : Timeline Attribute × Str :=
  (buildTimeline trace.row.id.str trace.totalLatencyMs trace.status
    ((loadSpans b trace).map fun span =>
      { spanId := span.id.str
        parentSpanId := span.parentSpanId.map Uuid.str
        stage := span.stage
        status := span.status
        offsetMs := offsetMs trace span
        durationMs := span.durationMs
        errorCode := span.errorCode
        attributes := some span.attributes }), trace.row.queryText)

/-- The query of `trace_evidence_graph`: chunks, joined with the titles of their
documents, by the ids of the chunks. -/
def titledChunks (chunkIds : List Uuid) : List (ChunkRecord V × Str) :=
  b.engine.arrange (·.1.id) ((s.chunks.filter (chunkIds.contains ·.id)).flatMap fun chunk =>
    (s.documents.filter (·.id = chunk.documentId)).map fun document => (chunk, document.title))

/-- The chunks of an evidence graph, in the order in which they were retrieved.  One that
was deleted since is skipped. -/
def graphChunks (chunkIds : List Uuid) : List ChunkInput :=
  let byId : Dict Uuid (ChunkRecord V × Str) :=
    (titledChunks b s chunkIds).foldl (fun d row => d.set row.1.id row) Dict.empty
  chunkIds.zipIdx.filterMap fun entry => (byId.get? entry.1).map fun row =>
    { chunkId := row.1.id.str
      documentId := row.1.documentId.str
      documentTitle := row.2
      text := row.1.text
      page := row.1.page
      charStart := row.1.charStart
      charEnd := row.1.charEnd
      rank := some entry.2 }

/-- What `trace_evidence_graph` makes of a trace. -/
def traceEvidenceGraph (trace : StoredTrace) : Str × Graph × GraphSummary :=
  let graph := buildEvidenceGraph trace.row.queryText trace.row.answer
    (graphChunks b s trace.row.retrievedChunkIds)
    (trace.row.claims.map fun claim => ⟨claim.text, claim.evidence⟩) trace.row.abstained
  (trace.row.id.str, graph, graphSummary graph)

/-- `retrieval_comparison`, with the times that the strategies took. -/
def retrievalComparison (embeddings : Option (EmbeddingPipeline V)) (elapsed : ℕ → ℚ)
    (request : SearchRequest) : Except Exc (Comparison × Str × ℕ) := do
  let project ← getProject b s principal request.projectId
  if embeddings.isNone then
    throw (.domain (providerError
      "MISTRAL_API_KEY is not set, so the semantic and hybrid arms cannot run."
      .providerNotConfigured "mistral"))
  else
    let dense := pgVector b embeddings s.chunks
    let keyword := postgresFts b s.chunks
    let query := request.inProject project.id
    let semanticHits ← dense query
    let keywordHits ← keyword query
    let hybridHits ← HybridRetriever.retrieve { dense, keyword } query
    let results := [(SearchStrategy.semantic, semanticHits), (.keyword, keywordHits),
      (.hybrid, hybridHits)].zipIdx.map fun entry =>
        { strategy := strategyName entry.1.1
          latencyMs := elapsed entry.2
          hits := entry.1.2.map fun hit => (hit.chunkId.str, hit.text, hit.score) }
    return (buildComparison results, request.query, request.topK)

/-! ### Evaluations -/

def datasetNotFound (datasetId : Uuid) : DomainError :=
  ⟨.notFound, "Evaluation dataset not found.", .notFound, [("dataset_id", .text datasetId.str)]⟩

/-- `dataset.items`. -/
def EvaluationDataset.load (dataset : EvaluationDataset) : EvaluationDataset :=
  { dataset with
    items := b.engine.orderBy (·.id) (fun x y => x.createdAt ≤ y.createdAt) dataset.items }

/-- `get_dataset`. -/
def getDataset (datasetId : Uuid) : Except Exc EvaluationDataset :=
  (orRaise (datasetNotFound datasetId) (b.engine.scalar (·.id)
    (fun d => d.id = datasetId ∧ d.organizationId = principal.organizationId) s.datasets)).map
      (EvaluationDataset.load b)

/-- `list_datasets`. -/
def listDatasets (projectId : Uuid) : List EvaluationDataset :=
  (b.engine.select (·.id)
    (fun d => d.projectId = projectId ∧ d.organizationId = principal.organizationId)
    (fun x y => y.createdAt ≤ x.createdAt) s.datasets).map (EvaluationDataset.load b)

/-- `get_run`. -/
def getRun (runId : Uuid) : Except Exc (StoredRun K) :=
  orRaise (runNotFound runId) (b.engine.scalar (·.id)
    (fun r => r.id = runId ∧ r.organizationId = principal.organizationId) s.runs)

/-- `list_runs`. -/
def listRuns (projectId : Uuid) : List (StoredRun K) :=
  b.engine.select (·.id)
    (fun r => r.projectId = projectId ∧ r.organizationId = principal.organizationId)
    (fun x y => y.createdAt ≤ x.createdAt) s.runs

/-- `run.results`, which have no order. -/
def loadResults (run : StoredRun K) : List (Uuid × EvaluationResult K) :=
  b.engine.arrange (·.1) (run.resultIds.zip run.results)

/-- `str(run.config.get("strategy", "unknown"))`. -/
def StoredRun.strategy (run : StoredRun K) : Str :=
  match run.config.lookup (lit "strategy".toList) with
  | none => lit "unknown".toList
  | some (.str strategy) => strategy
  | some value => b.render value

/-- `evaluation_heatmap`, with the number of completed runs. -/
def evaluationHeatmap (projectId : Uuid) (metric : String) : Except Exc (Heatmap K × ℕ) := do
  let completed := (listRuns b s principal projectId).filter (·.status = .completed)
  let heatmap ← buildHeatmap (completed.map fun run =>
    { runId := run.id.str
      strategy := run.strategy b
      byCondition := (run.aggregateMetrics.map (·.byCondition)).getD [] }) metric
  return (heatmap, completed.length)

/-! ### Reads -/

/-- The reads, with what they are given besides the tables. -/
inductive Read (V : Type)
  | projects
  | project (projectId : Uuid)
  | documents (projectId : Uuid)
  | document (projectId documentId : Uuid)
  | chunks (projectId documentId : Uuid)
  | search (embeddings : Option (EmbeddingPipeline V)) (request : SearchRequest)
  | query (deps : TracedDeps) (embeddings : Option (EmbeddingPipeline V)) (request : QueryRequest)
  | comparison (embeddings : Option (EmbeddingPipeline V)) (elapsed : ℕ → ℚ)
      (request : SearchRequest)
  | traces (projectId : Uuid) (limit : ℕ)
  | trace (traceId : Uuid)
  | timeline (traceId : Uuid)
  | evidenceGraph (traceId : Uuid)
  | datasets (projectId : Uuid)
  | dataset (datasetId : Uuid)
  | runs (projectId : Uuid)
  | run (runId : Uuid)
  | results (runId : Uuid)
  | heatmap (projectId : Uuid) (metric : String)

/-- What a read returns. -/
inductive Response (V K : Type)
  | projects (projects : List Project)
  | project (project : Project)
  | documents (documents : List DocumentRecord)
  | document (document : DocumentRecord)
  | chunks (chunks : List (ChunkRecord V))
  | search (response : SearchResponse)
  | query (response : QueryResponse)
  | comparison (comparison : Comparison) (query : Str) (topK : ℕ)
  | traces (traces : List StoredTrace)
  | trace (trace : TraceRead)
  | timeline (timeline : Timeline Attribute) (query : Str)
  | evidenceGraph (traceId : Str) (graph : Graph) (summary : GraphSummary)
  | datasets (datasets : List EvaluationDataset)
  | dataset (dataset : EvaluationDataset)
  | runs (runs : List (StoredRun K))
  | run (run : StoredRun K)
  | results (results : List (Uuid × EvaluationResult K))
  | heatmap (heatmap : Heatmap K) (runCount : ℕ)

/-- The response to a read, or what is raised. -/
def respond : Read V → Except Exc (Response V K)
  | .projects => return .projects (listProjects b s principal)
  | .project projectId => return .project (← getProject b s principal projectId)
  | .documents projectId => do
      let projectId ← getProjectScope b s principal projectId
      return .documents (listDocuments b s projectId)
  | .document projectId documentId => do
      let projectId ← getProjectScope b s principal projectId
      return .document (← getDocument b s documentId projectId)
  | .chunks projectId documentId => do
      let projectId ← getProjectScope b s principal projectId
      return .chunks (← listChunks b s documentId projectId)
  | .search embeddings request => return .search (← search b s principal embeddings request)
  | .query deps embeddings request => do
      let deps := queryDeps b principal (fun _ => s) embeddings deps
      return .query (← (createQueryTraced deps request).1)
  | .comparison embeddings elapsed request => do
      let response ← retrievalComparison b s principal embeddings elapsed request
      return .comparison response.1 response.2.1 response.2.2
  | .traces projectId limit => return .traces (listTraces b s principal projectId limit)
  | .trace traceId => return .trace (toRead b (← getTrace b s principal traceId))
  | .timeline traceId => do
      let timeline := traceTimeline b (← getTrace b s principal traceId)
      return .timeline timeline.1 timeline.2
  | .evidenceGraph traceId => do
      let graph := traceEvidenceGraph b s (← getTrace b s principal traceId)
      return .evidenceGraph graph.1 graph.2.1 graph.2.2
  | .datasets projectId => return .datasets (listDatasets b s principal projectId)
  | .dataset datasetId => return .dataset (← getDataset b s principal datasetId)
  | .runs projectId => return .runs (listRuns b s principal projectId)
  | .run runId => return .run (← getRun b s principal runId)
  | .results runId => return .results (loadResults b (← getRun b s principal runId))
  | .heatmap projectId metric => do
      let response ← evaluationHeatmap b s principal projectId metric
      return .heatmap response.1 response.2

end Tenancy
end EvidenceLab
