/-
# Query execution

`app/api/v1/routes/query.py`: retrieve evidence, answer strictly from it, resolve
every citation back to an exact span, and persist a trace of the execution.  The
ids a claim cites are mapped back to passages through a dictionary of the
evidence; the trace stores the claims, the ids retrieved and the ids cited.

What the request depends on is `QueryDeps`: the project check, the providers, the
retriever and the commit of the trace, each of which may raise.  An execution
gives the response or what was raised, and the traces that were committed.
The cost is computed inside the `try`, in `float`: a token count that cannot be
converted raises `OverflowError`, which is no domain error.  Timings are not modelled.
-/

import EvidenceLab.Reasoning.Grounded

namespace EvidenceLab
namespace Reasoning

open Text Data EvidenceLab.Core

/-! ### Requests and responses -/

/-- `SearchStrategy`. -/
inductive SearchStrategy
  | semantic | keyword | hybrid | adaptive
  deriving DecidableEq, Repr

/-- `str(strategy)`. -/
def SearchStrategy.str : SearchStrategy → String
  | semantic => "semantic"
  | keyword => "keyword"
  | hybrid => "hybrid"
  | adaptive => "adaptive"

/-- `EMBEDDING_STRATEGIES`. -/
def SearchStrategy.needsEmbeddings : SearchStrategy → Bool
  | keyword => false
  | _ => true

/-- `QueryRequest`. -/
structure QueryRequest where
  projectId : Uuid
  query : Str
  strategy : SearchStrategy := .hybrid
  topK : ℕ := 8
  includeEvidence : Bool := true

/-- `CitationRef`: a resolved citation, pointing at an exact span of a document. -/
structure CitationRef where
  chunkId : Uuid
  documentId : Uuid
  page : Option ℕ
  charStart : Option ℕ
  charEnd : Option ℕ
  text : Str
  deriving DecidableEq

/-- `ClaimRead`: one assertion in the answer with the evidence supporting it. -/
structure ClaimRead where
  text : Str
  evidence : List CitationRef := []
  supported : Bool

/-- `EvidenceItem`: a retrieved chunk with the provenance needed to verify it. -/
structure EvidenceItem where
  chunkId : Uuid
  documentId : Uuid
  text : Str
  score : ℚ
  retriever : RetrieverKind
  rank : ℕ
  page : Option ℕ
  charStart : Option ℕ
  charEnd : Option ℕ
  matchedTerms : List Str
  retrievalSource : List RetrieverKind
  fusionScore : Option ℚ
  semanticScore : Option ℚ
  semanticRank : Option ℕ
  keywordScore : Option ℚ
  keywordRank : Option ℕ

/-- `QueryResponse`, its usage without the latencies. -/
structure QueryResponse where
  query : Str
  answer : Str
  abstained : Bool
  claims : List ClaimRead
  strategy : SearchStrategy
  model : Str
  embeddingModel : Option Str
  traceId : Uuid
  evidence : List EvidenceItem
  evidenceCount : ℕ
  inventedCitations : ℕ
  unsupportedClaims : ℕ
  inputTokens : ℕ
  outputTokens : ℕ
  cost : Option Float64

/-- An element of `Trace.claims`: the text and the cited ids as strings. -/
structure StoredClaim where
  text : Str
  evidence : List Str

/-- A row of `Trace`, without its timings and spans. -/
structure TraceRow where
  id : Uuid
  queryText : Str
  strategy : SearchStrategy
  failed : Bool
  inputTokens : ℕ := 0
  outputTokens : ℕ := 0
  cost : Option Float64 := none
  model : Str
  provider : String := "mistral"
  embeddingModel : Option Str
  evidenceCount : ℕ
  abstained : Bool
  answer : Option Str := none
  claims : List StoredClaim := []
  retrievedChunkIds : List Uuid
  citedChunkIds : List Uuid := []
  errorCode : Option ErrorCode := none
  errorMessage : Option String := none
  topK : ℕ
  projectId : Uuid

/-! ### The dependencies of a request -/

/-- What a request depends on: `ProjectService.get`, the providers, the settings,
the retriever of a strategy, the id of the trace and the commit of its row. -/
structure QueryDeps where
  getProject : Uuid → Except Exc Uuid
  generator : Option AnswerGenerator
  embeddings : Option Str
  maxOutputTokens : ℕ
  inputRate : Option Float64 := none
  outputRate : Option Float64 := none
  retrieve : SearchStrategy → RetrievalQuery → Except Exc (List RetrievedChunk)
  traceId : Uuid
  commitTrace : TraceRow → Except Exc Unit

/-! ### The route -/

/-- `_citation`. -/
def citation (chunk : RetrievedChunk) : CitationRef where
  chunkId := chunk.provenance.chunkId
  documentId := chunk.provenance.documentId
  page := chunk.provenance.page
  charStart := chunk.provenance.charStart
  charEnd := chunk.provenance.charEnd
  text := chunk.text

/-- `to_evidence`. -/
def toEvidence (hit : RetrievedChunk) : EvidenceItem :=
  let semantic := hit.contribution .semantic
  let keyword := hit.contribution .keyword
  { chunkId := hit.provenance.chunkId
    documentId := hit.provenance.documentId
    text := hit.text
    score := hit.score
    retriever := hit.retriever
    rank := hit.rank
    page := hit.provenance.page
    charStart := hit.provenance.charStart
    charEnd := hit.provenance.charEnd
    matchedTerms := hit.matchedTerms
    retrievalSource := hit.contributions.map (·.retriever)
    fusionScore := hit.fusionScore
    semanticScore := semantic.map (·.score)
    semanticRank := semantic.map (·.rank)
    keywordScore := keyword.map (·.score)
    keywordRank := keyword.map (·.rank) }

/-- `tokens / 1_000_000`. -/
def millions (tokens : ℕ) : Except Exc Float64 :=
  match Float64.quotient tokens 1000000 with
  | none => .error .overflowError
  | some millions => .ok millions

/-- `_estimate_cost`: `None` when no pricing is configured. -/
def estimateCost (inputRate outputRate : Option Float64) (inputTokens outputTokens : ℕ) :
    Except Exc (Option Float64) :=
  if inputRate = none ∧ outputRate = none then .ok none
  else do
    let input ← millions inputTokens
    let output ← millions outputTokens
    return some (((input.mul (Float64.orZero inputRate)).add
      (output.mul (Float64.orZero outputRate))).round 8)

/-- The cost of a record to which `record_usage` was told this one. -/
def recordedCost (cost : Option Float64) : Option Float64 :=
  cost.map fun cost => Float64.add (Float64.orZero none) cost

/-- `{chunk.provenance.chunk_id: chunk for chunk in evidence}`. -/
def byId (evidence : List RetrievedChunk) : Dict Uuid RetrievedChunk :=
  evidence.foldl (fun d chunk => d.set chunk.chunkId chunk) Dict.empty

/-- A claim with its citations resolved to passages. -/
def claimRead (evidence : List RetrievedChunk) (claim : Claim) : ClaimRead where
  text := claim.text
  evidence := claim.evidence.filterMap fun id => ((byId evidence).get? id).map citation
  supported := claim.isSupported

/-- `{"text": claim.text, "evidence": [str(c) for c in claim.evidence]}`. -/
def storedClaim (claim : Claim) : StoredClaim where
  text := claim.text
  evidence := claim.evidence.map Uuid.str

/-- The trace of an execution that answered, with the cost of its record. -/
def answeredTrace (deps : QueryDeps) (request : QueryRequest) (project : Uuid)
    (embeddingModel : Option Str) (evidence : List RetrievedChunk) (answer : GeneratedAnswer)
    (cost : Option Float64) : TraceRow where
  id := deps.traceId
  queryText := request.query
  strategy := request.strategy
  failed := false
  inputTokens := answer.usage.inputTokens
  outputTokens := answer.usage.outputTokens
  cost := cost
  model := answer.modelId
  embeddingModel := embeddingModel
  evidenceCount := evidence.length
  abstained := answer.abstained
  answer := some answer.text
  claims := answer.claims.map storedClaim
  retrievedChunkIds := evidence.map (·.chunkId)
  citedChunkIds := answer.citedChunkIds
  topK := request.topK
  projectId := project

/-- The trace of an execution that raised a domain error. -/
def failedTrace (deps : QueryDeps) (request : QueryRequest) (project : Uuid) (model : Str)
    (embeddingModel : Option Str) (evidence : List RetrievedChunk) (e : DomainError) :
    TraceRow where
  id := deps.traceId
  queryText := request.query
  strategy := request.strategy
  failed := true
  model := model
  embeddingModel := embeddingModel
  evidenceCount := evidence.length
  abstained := false
  retrievedChunkIds := evidence.map (·.chunkId)
  errorCode := some e.code
  errorMessage := some e.message
  topK := request.topK
  projectId := project

/-- The response to a request that was answered, with the cost of its record. -/
def queryResponse (deps : QueryDeps) (request : QueryRequest) (embeddingModel : Option Str)
    (evidence : List RetrievedChunk) (answer : GeneratedAnswer) (cost : Option Float64) :
    QueryResponse where
  query := request.query
  answer := answer.text
  abstained := answer.abstained
  claims := answer.claims.map (claimRead evidence)
  strategy := request.strategy
  model := answer.modelId
  embeddingModel := embeddingModel
  traceId := deps.traceId
  evidence := if request.includeEvidence then evidence.map toEvidence else []
  evidenceCount := evidence.length
  inventedCitations := answer.metadata.inventedCitations.getD 0
  unsupportedClaims := answer.unsupportedClaims.length
  inputTokens := answer.usage.inputTokens
  outputTokens := answer.usage.outputTokens
  cost := cost

/-- Commits a trace and goes on with an outcome; a commit that raises replaces it. -/
def withTrace {α : Type} (deps : QueryDeps) (row : TraceRow) (outcome : Except Exc α) :
    Except Exc α × List TraceRow :=
  match deps.commitTrace row with
  | .error e => (.error e, [])
  | .ok _ => (outcome, [row])

/-- The `except DomainError` of the route: the trace is saved, then the error is
raised again.  What is no domain error leaves no trace. -/
def withFailedTrace {α : Type} (deps : QueryDeps) (request : QueryRequest) (project : Uuid)
    (model : Str) (embeddingModel : Option Str) (evidence : List RetrievedChunk) (e : Exc) :
    Except Exc α × List TraceRow :=
  match e.domain? with
  | none => (.error e, [])
  | some d =>
      withTrace deps (failedTrace deps request project model embeddingModel evidence d) (.error e)

/-- The provider checks of the route: a generator, and embeddings where the strategy
needs them. -/
def checkProviders (deps : QueryDeps) (request : QueryRequest) : Except Exc AnswerGenerator :=
  match deps.generator with
  | none => .error (.domain (providerError
      ("MISTRAL_API_KEY is not set, so answers cannot be generated. " ++
        "Use /search to retrieve evidence without a provider.") .providerNotConfigured "mistral"))
  | some generator =>
      if request.strategy.needsEmbeddings ∧ deps.embeddings = none then
        .error (.domain (providerError ("MISTRAL_API_KEY is not set, so " ++
          request.strategy.str ++ " retrieval is unavailable.") .providerNotConfigured "mistral"))
      else .ok generator

/-- The checks of `create_query`: the project, then the providers. -/
def checkQuery (deps : QueryDeps) (request : QueryRequest) :
    Except Exc (Uuid × AnswerGenerator) := do
  let project ← deps.getProject request.projectId
  let generator ← checkProviders deps request
  return (project, generator)

/-- `create_query` behind its checks: retrieve, generate, trace, respond. -/
def runQuery (deps : QueryDeps) (request : QueryRequest) (project : Uuid)
    (generator : AnswerGenerator) : Except Exc QueryResponse × List TraceRow :=
  let embeddingModel := if request.strategy.needsEmbeddings then deps.embeddings else none
  match deps.retrieve request.strategy ⟨request.query, project, request.topK⟩ with
  | .error e => withFailedTrace deps request project generator.modelId embeddingModel [] e
  | .ok evidence =>
      match generator.generate request.query evidence ⟨0, deps.maxOutputTokens⟩ with
      | .error e =>
          withFailedTrace deps request project generator.modelId embeddingModel evidence e
      | .ok answer =>
          match estimateCost deps.inputRate deps.outputRate answer.usage.inputTokens
              answer.usage.outputTokens with
          | .error e =>
              withFailedTrace deps request project generator.modelId embeddingModel evidence e
          | .ok cost =>
              withTrace deps
                (answeredTrace deps request project embeddingModel evidence answer
                  (recordedCost cost))
                (.ok (queryResponse deps request embeddingModel evidence answer
                  (recordedCost cost)))

/-- `create_query`: the response, or what was raised, and the traces committed. -/
def createQuery (deps : QueryDeps) (request : QueryRequest) :
    Except Exc QueryResponse × List TraceRow :=
  match checkQuery deps request with
  | .error e => (.error e, [])
  | .ok (project, generator) => runQuery deps request project generator

end Reasoning
end EvidenceLab
