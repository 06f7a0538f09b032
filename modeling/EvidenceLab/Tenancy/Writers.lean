/-
# What writes the rows

The writing endpoints of `app/api/v1/routes` and the jobs of the worker, on the tables of
all organizations.  A statement of a transaction reads what is committed when it begins;
the transaction commits to what is there at its end, if the constraints hold then
(`commit`).  An id that is drawn at random and the time are told to it.

A job is not told whose document or run it works on: it finds the row by its id, and what
it writes gets the owner of that row.  One that commits several times takes a step at each
of its commits, since cut off there it leaves the same.
-/

import EvidenceLab.Runs.History
import EvidenceLab.Tenancy.Reads

namespace EvidenceLab
namespace Tenancy

open Text Data EvidenceLab.Core Retrieval Ingest Evaluation Reasoning Runs Session

variable {V K : Type}

/-! ### Requests -/

/-- `ProjectCreate`. -/
structure ProjectCreate where
  name : Str
  description : Option Str := none
  settings : List (Str × Json) := []

/-- `EvaluationItemCreate`. -/
structure EvaluationItemCreate where
  question : Str
  expectedAnswer : Option Str := none
  goldChunks : List Uuid := []
  goldDocuments : List Uuid := []
  difficulty : { text : String // text ∈ difficulties } := ⟨"medium", by decide⟩
  evidenceCondition : EvidenceCondition := .clean

/-- `DatasetCreate`. -/
structure DatasetCreate where
  projectId : Uuid
  name : Str
  description : Option Str := none
  items : List EvaluationItemCreate

/-- `RunCreate`. -/
structure RunCreate where
  datasetId : Uuid
  name : Option Str := none
  strategy : SearchStrategy := .hybrid
  topK : ℕ := 10
  generate : Bool := false

/-- The columns of a row that a principal adds. -/
def Owned.of (principal : Principal) (now : ℤ) : Owned where
  organizationId := principal.organizationId
  userId := some principal.userId
  createdAt := now
  updatedAt := now

namespace Tables

variable (b : Backend V) (s : Tables V K)

/-! ### Requests of a principal -/

/-- `ProjectService.create`. -/
def createProject (principal : Principal) (payload : ProjectCreate) (projectId : Uuid)
    (now : ℤ) : Tables V K :=
  { s with
    projects := s.projects ++ [{
      toOwned := .of principal now
      id := projectId
      name := payload.name
      description := payload.description
      settings := payload.settings }] }

/-- The row of an upload. -/
def uploaded (principal : Principal) (projectId : Uuid) (document : Document) (now : ℤ) :
    DocumentRecord :=
  { toDocument := document
    storageKey := storageKeyOf projectId document.id
    toOwned := .of principal now
    projectId
    title := (document.filename.filter (· ≠ [])).getD document.id.str }

/-- `upload_document`: the project is checked, and then a document with the same content
is looked for in it. -/
def upload (seen : ℕ → Tables V K) (principal : Principal) (projectId : Uuid)
    (a : UploadAttempt) (now : ℤ) : Option (Tables V K) := do
  let projectId ← (getProjectScope b (seen 0) principal projectId).toOption
  let existing := b.engine.scalar (·.id) (fun d => d.projectId = projectId ∧
    (readAndHash a).toOption.map Prod.snd = some d.contentHash) (seen 1).documents
  let store : Store V := { document := existing.map (·.toDocument) }
  match existing, (perform (createFromUpload a) store).2.document with
  | none, some document =>
      return { s with documents := s.documents ++ [uploaded principal projectId document now] }
  | _, _ => none

/-- `create_query`. -/
def createQuery (seen : ℕ → Tables V K) (principal : Principal) (deps : TracedDeps)
    (embeddings : Option (EmbeddingPipeline V)) (request : QueryRequest) (now : ℤ) :
    Tables V K :=
  let saved := (createQueryTraced (queryDeps b principal seen embeddings deps) request).2
  { s with
    traces := s.traces ++ saved.map fun trace =>
      { toSavedTrace := trace, createdAt := now, updatedAt := now } }

/-- An item of a dataset. -/
def item (spec : EvaluationItemCreate) (itemId : Uuid) (now : ℤ) : DatasetItem where
  id := itemId
  question := spec.question
  expectedAnswer := spec.expectedAnswer
  goldChunkIds := spec.goldChunks
  goldDocumentIds := spec.goldDocuments
  difficulty := spec.difficulty
  evidenceCondition := spec.evidenceCondition.str
  createdAt := now
  updatedAt := now

/-- `create_dataset`, behind the check of its project. -/
def createDataset (seen : ℕ → Tables V K) (principal : Principal) (payload : DatasetCreate)
    (datasetId : Uuid) (itemId : ℕ → Uuid) (now : ℤ) : Option (Tables V K) := do
  let project ← (getProject b (seen 0) principal payload.projectId).toOption
  return { s with
    datasets := s.datasets ++ [{
      toOwned := .of principal now
      id := datasetId
      projectId := project.id
      name := payload.name
      description := payload.description
      items := payload.items.zipIdx.map fun entry => item entry.1 (itemId entry.2) now }] }

/-- `create_run`: the route and the service read the dataset, each for itself. -/
def createRun (seen : ℕ → Tables V K) (principal : Principal) (payload : RunCreate)
    (runId : Uuid) (now : ℤ) : Option (Tables V K) := do
  let checked ← (getDataset b (seen 0) principal payload.datasetId).toOption
  let dataset ← (getDataset b (seen 1) principal checked.id).toOption
  let config := [(lit "strategy".toList, Json.str (strategyName payload.strategy)),
    (lit "top_k".toList, Json.int payload.topK),
    (lit "generate".toList, Json.bool payload.generate)]
  return { s with
    runs := s.runs ++ [{
      toEvaluationRun := Evaluation.createRun checked.projectId config
        (dataset.items.map (·.toEvaluationItem))
      toOwned := .of principal now
      id := runId
      datasetId := dataset.id
      name := payload.name }] }

/-! ### Jobs of the worker -/

/-- What is stored of a document. -/
def store (d : DocumentRecord) : Store V where
  document := some d.toDocument
  chunks := (s.chunks.filter (·.documentId = d.id)).map (·.toChunkRow)

/-- Writes the columns of a document, if they have changed. -/
def setDocument (d : DocumentRecord) (document : Option Document) (now : ℤ) : Tables V K :=
  { s with
    documents := s.documents.map fun row =>
      if row.id = d.id ∧ document ≠ some row.toDocument then
        { row with toDocument := document.getD row.toDocument, updatedAt := now }
      else row }

/-- A chunk of a document. -/
def chunkOf (d : DocumentRecord) (row : ChunkRow V) : ChunkRecord V :=
  { toChunkRow := row, documentId := d.id, projectId := d.projectId
    organizationId := d.organizationId, userId := d.userId }

/-- `run_ingestion`. -/
def ingest (chunkIdFor : Uuid → ℕ → Uuid) (a : IngestAttempt) (now : ℤ) :
    Option (Tables V K) := do
  let d ← s.documents.find? (·.id = a.documentId)
  let left := (perform (runIngestion { a with chunkIdFor }) (s.store d)).2
  return { s.setDocument d left.document now with
    chunks := s.chunks.filter (·.documentId ≠ d.id) ++ left.chunks.map (chunkOf d) }

/-- The rows that an attempt at embedding has written to: they were pending, and no more. -/
def written (a : EmbedAttempt V) (loaded left : List (ChunkRow V)) : List (ChunkRow V) :=
  match a.pipeline with
  | .error _ => []
  | .ok modelId => ((loaded.zip left).filter fun rows =>
      rows.1.Pending modelId && !rows.2.Pending modelId).map (·.2)

/-- The `UPDATE`s of these rows, each by its id. -/
def setVector (rows : List (ChunkRow V)) (chunk : ChunkRecord V) : ChunkRecord V :=
  match rows.find? (·.id = chunk.id) with
  | some row => { chunk with embedding := row.embedding, embeddingModel := row.embeddingModel }
  | none => chunk

/-- `embed_document`, which loads the chunks before it asks the provider. -/
def embed (seen : ℕ → Tables V K) (a : EmbedAttempt V) (now : ℤ) : Option (Tables V K) := do
  let d ← s.documents.find? (·.id = a.documentId)
  let loaded : Store V := { s.store d with chunks := ((seen 0).store d).chunks }
  let left := (perform (embedDocument a) loaded).2
  return { s.setDocument d left.document now with
    chunks := s.chunks.map (setVector (written a loaded.chunks left.chunks)) }

variable [Field K] [LinearOrder K] (log2 : ℕ → K)

/-- `execute`, which searches once for every item of the dataset, each arm on its own.
`times` is what it leaves in `started_at` and `finished_at`. -/
def execute (seen : ℕ → Tables V K) (a : ExecuteAttempt)
    (embeddings : Option (EmbeddingPipeline V)) (resultId : ℕ → Uuid)
    (times : Option ℤ × Option ℤ) (now : ℤ) : Option (Tables V K) := do
  let row ← s.runs.find? (·.id = a.runId)
  let dataset ← s.datasets.find? (·.id = row.datasetId)
  let retriever : ℕ → Except Exc (RetrievalQuery → Except Exc (List RetrievedChunk)) := fun i =>
    (readConfig a.render a.defaultTopK row.config).map fun config query =>
      buildRetriever b config.strategy (if config.needsEmbeddings then embeddings else none)
        (seen (2 * i)).chunks (seen (2 * i + 1)).chunks { toRetrievalQuery := query }
  let items := (dataset.load b).items.map (·.toEvaluationItem)
  let left ← (perform (Evaluation.execute log2 { a with retriever } items)
    (some row.toEvaluationRun)).2
  let added := (List.range (left.results.length - row.results.length)).map resultId
  return { s with
    runs := s.runs.map fun other =>
      if other.id = row.id then
        { other with
          toEvaluationRun := left
          resultIds := other.resultIds ++ added
          startedAt := times.1
          finishedAt := times.2
          updatedAt := now }
      else other }

end Tables

/-! ### Transactions -/

/-- The operations that write, with what they are given besides the tables. -/
inductive Command (V : Type)
  | createProject (principal : Principal) (payload : ProjectCreate) (projectId : Uuid) (now : ℤ)
  | upload (principal : Principal) (projectId : Uuid) (a : UploadAttempt) (now : ℤ)
  | createQuery (principal : Principal) (deps : TracedDeps)
      (embeddings : Option (EmbeddingPipeline V)) (request : QueryRequest) (now : ℤ)
  | createDataset (principal : Principal) (payload : DatasetCreate) (datasetId : Uuid)
      (itemId : ℕ → Uuid) (now : ℤ)
  | createRun (principal : Principal) (payload : RunCreate) (runId : Uuid) (now : ℤ)
  | runIngestion (a : IngestAttempt) (now : ℤ)
  | embedDocument (a : EmbedAttempt V) (now : ℤ)
  | execute (a : ExecuteAttempt) (embeddings : Option (EmbeddingPipeline V))
      (resultId : ℕ → Uuid) (times : Option ℤ × Option ℤ) (now : ℤ)

variable [Field K] [LinearOrder K]

/-- What an operation makes of the tables, `none` where it commits nothing.  `chunkIdFor`
is `chunk_id_for`. -/
def effect (b : Backend V) (log2 : ℕ → K) (chunkIdFor : Uuid → ℕ → Uuid) (seen : ℕ → Tables V K)
    (s : Tables V K) : Command V → Option (Tables V K)
  | .createProject principal payload projectId now =>
      some (s.createProject principal payload projectId now)
  | .upload principal projectId a now => s.upload b seen principal projectId a now
  | .createQuery principal deps embeddings request now =>
      some (s.createQuery b seen principal deps embeddings request now)
  | .createDataset principal payload datasetId itemId now =>
      s.createDataset b seen principal payload datasetId itemId now
  | .createRun principal payload runId now => s.createRun b seen principal payload runId now
  | .runIngestion a now => s.ingest chunkIdFor a now
  | .embedDocument a now => s.embed seen a now
  | .execute a embeddings resultId times now =>
      s.execute b log2 seen a embeddings resultId times now

/-- **A transaction**, from what its statements see and the tables at its end. -/
def commit (b : Backend V) (log2 : ℕ → K) (chunkIdFor : Uuid → ℕ → Uuid) (command : Command V)
    (seen : ℕ → Tables V K) (s : Tables V K) : Option (Tables V K) :=
  (effect b log2 chunkIdFor seen s command).bind Tables.checked

end Tenancy
end EvidenceLab
