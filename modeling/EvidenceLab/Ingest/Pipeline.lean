/-
# The document pipeline

`create_from_upload` and `run_ingestion` of `app/services/ingestion_service.py`, and
`embed_document` of `app/services/embedding_service.py`, as programs over a session.

Everything an attempt awaits is answered by a field of the attempt: a call of the
database, the object store or the provider may raise whatever it likes, or be
cancelled.  The settings are fields as well, so they may change from one attempt to
the next.
-/

import EvidenceLab.Ingest.Store
import EvidenceLab.Runs.Session

namespace EvidenceLab
namespace Ingest

open Text Data EvidenceLab.Core Runs Session

variable {V : Type}

/-! ### Shared steps -/

/-- `NotFoundError` about a document. -/
def documentNotFound (documentId : Uuid) (message : String) : DomainError :=
  ⟨.notFound, message, .notFound, [("document_id", .text documentId.str)]⟩

/-- `session.get(Document, document_id)`. -/
def getDocument (reply : Option Exc) : Session Exc (Store V) (Option Document) := do
  await reply
  return (← current).document

/-- Sets columns of the document. -/
def setDocument (f : Document → Document) : Session Exc (Store V) Unit :=
  change (Store.updateDocument f)

/-- The columns that a failure sets. -/
def Document.fail (code : ErrorCode) (message : String) (document : Document) : Document :=
  { document with
    ingestionStatus := .failed, errorCode := some code, errorMessage := some message }

/-- The rollback of a failure handler and `_record_failure`. -/
def recordFailure (replies : AmendReplies Exc) (code : ErrorCode) (message : String) :
    Session Exc (Store V) Unit :=
  amend replies (·.document) (Store.updateDocument (Document.fail code message))

/-! ### Upload -/

/-- An upload: what `resolve_mime_type` makes of the request, its file, the limits in
force, the id and the hash it would be stored with, and what the calls answer. -/
structure UploadAttempt where
  mimeType : String
  filename : Option Str
  stream : Except Exc (List UInt8)
  allowedMimeTypes : List String
  maxUploadBytes : ℕ
  documentId : Uuid
  hexdigest : List UInt8 → Str
  lookup : Option Exc
  stored : Option Exc
  finalCommit : CommitReply Exc

/-- `_read_and_hash`. -/
def readAndHash (a : UploadAttempt) : Except Exc (List UInt8 × Str) := do
  let payload ← a.stream
  if a.maxUploadBytes < payload.length then
    throw (.domain ⟨.payloadTooLarge, "The file exceeds the maximum upload size.", .payloadTooLarge,
      [("max_bytes", .number a.maxUploadBytes)]⟩)
  else if payload = [] then
    throw (.domain ⟨.unsupportedMediaType, "The uploaded file is empty.",
      .unsupportedMediaType, []⟩)
  else return (payload, a.hexdigest payload)

/-- The end of `create_from_upload`: the file is stored, and then its document.  The
store is that of one document: once that is there, a file with other content is a
document of another store. -/
def registerDocument (a : UploadAttempt) (payload : List UInt8) (contentHash : Str) :
    Session Exc (Store V) Document := do
  await a.stored
  let document : Document :=
    { id := a.documentId, contentHash, filename := a.filename, mimeType := a.mimeType,
      sizeBytes := payload.length }
  change fun s => { s with document := s.document <|> some document }
  commit a.finalCommit
  return document

/-- `create_from_upload`. -/
def createFromUpload (a : UploadAttempt) : Session Exc (Store V) Document := do
  if a.mimeType ∉ a.allowedMimeTypes then
    raise (.domain ⟨.unsupportedMediaType, a.mimeType ++ " cannot be ingested.",
      .unsupportedMediaType, [("mime_type", .name a.mimeType),
        ("supported", .names (a.allowedMimeTypes.mergeSort fun x y => x ≤ y))]⟩)
  else
    let (payload, contentHash) ← ask (readAndHash a)
    match (← getDocument a.lookup).filter (·.contentHash = contentHash) with
    | some existing =>
        raise (.domain ⟨.conflict, "This document has already been ingested into the project.",
          .conflict, [("document_id", .text existing.id.str), ("content_hash", .text contentHash)]⟩)
    | none => registerDocument a payload contentHash

/-! ### Ingestion -/

/-- An attempt at ingestion: the settings and the parser library in force, and what
the calls answer, in the order in which they are made. -/
structure IngestAttempt where
  documentId : Uuid
  chunkSizeChars : ℤ
  chunkOverlapChars : ℤ
  pypdf : List UInt8 → Except Exc PdfFile
  chunkIdFor : Uuid → ℕ → Uuid
  lookup : Option Exc
  startCommit : CommitReply Exc
  payload : Except Exc (List UInt8)
  chunkingCommit : CommitReply Exc
  delete : Option Exc
  finalCommit : CommitReply Exc
  failure : AmendReplies Exc
  refresh : Option Exc

/-- The columns that a complete ingestion sets. -/
def Document.complete (pageCount : Option ℕ) (chunkCount : ℕ) (document : Document) : Document :=
  { document with
    pageCount, chunkCount, ingestionStatus := .completed, errorCode := none, errorMessage := none }

/-- The `try` of `run_ingestion`. -/
def ingest (a : IngestAttempt) (document : Document) : Session Exc (Store V) Unit := do
  setDocument fun d => { d with ingestionStatus := .parsing }
  commit a.startCommit
  let payload ← ask a.payload
  let parsed ← ask (parseAs a.pypdf document.mimeType payload document.filename)
  setDocument fun d => { d with ingestionStatus := .chunking }
  commit a.chunkingCommit
  let chunker ← ask (RecursiveCharacterChunker.init a.chunkSizeChars a.chunkOverlapChars none)
  let chunks := chunker.chunk parsed
  await a.delete
  change fun s => { s with chunks := [] }
  change fun s => { s with chunks := s.chunks ++ chunkRows (a.chunkIdFor document.id) chunks }
  setDocument (Document.complete parsed.pageCount chunks.length)
  commit a.finalCommit

/-- The handlers of `run_ingestion`: a domain error is recorded and not raised, any
other exception is recorded and raised, and a cancellation is only raised. -/
def ingestHandler (a : IngestAttempt) (e : Exc) : Session Exc (Store V) Unit :=
  match e.domain? with
  | some d => recordFailure a.failure d.code d.message
  | none =>
      if e.isException then do
        recordFailure a.failure .ingestionFailed "Ingestion failed unexpectedly."
        raise e
      else raise e

/-- The end of `run_ingestion`: the document is read back. -/
def readBack (a : IngestAttempt) : Session Exc (Store V) Document := do
  match ← getDocument a.refresh with
  | none =>
      raise (.domain (documentNotFound a.documentId "Document disappeared during ingestion."))
  | some refreshed => return refreshed

/-- `run_ingestion`. -/
def runIngestion (a : IngestAttempt) : Session Exc (Store V) Document := do
  match ← getDocument a.lookup with
  | none => raise (.domain (documentNotFound a.documentId "Document not found."))
  | some document =>
      handling (ingest a document) (ingestHandler a)
      readBack a

/-! ### Embedding -/

/-- An attempt at embedding: the pipeline (its model, or what making it raises) and
what the calls answer, in the order in which they are made. -/
structure EmbedAttempt (V : Type) where
  documentId : Uuid
  lookup : Option Exc
  pipeline : Except Exc String
  select : Option Exc
  embedTexts : List Str → Except Exc (List V)
  finalCommit : CommitReply Exc
  failure : AmendReplies Exc

/-- The error for a provider that does not give one vector for each text. -/
def mismatchedEmbeddings : DomainError :=
  ⟨.domain, "The provider returned a mismatched number of embeddings.", .embeddingFailed, []⟩

/-- The `try` of `embed_document`. -/
def embed (a : EmbedAttempt V) : Session Exc (Store V) ℕ := do
  let modelId ← ask a.pipeline
  await a.select
  let pending := pendingChunks modelId (← current).chunks
  if pending.isEmpty then return 0
  else
    let vectors ← ask (a.embedTexts (pending.map (·.text)))
    if vectors.length ≠ pending.length then raise (.domain mismatchedEmbeddings)
    else
      change (Store.setEmbeddings modelId (pending.zip vectors))
      -- The error is cleared; the status is left as it is.
      setDocument fun d => { d with errorCode := none, errorMessage := none }
      commit a.finalCommit
      return pending.length

/-- The handler of `embed_document`: a domain error is recorded, and raised. -/
def embedHandler (a : EmbedAttempt V) (e : Exc) : Session Exc (Store V) ℕ :=
  match e.domain? with
  | some d => do
      recordFailure a.failure d.code d.message
      raise e
  | none => raise e

/-- `embed_document`. -/
def embedDocument (a : EmbedAttempt V) : Session Exc (Store V) ℕ := do
  match ← getDocument a.lookup with
  | none => raise (.domain (documentNotFound a.documentId "Document not found."))
  | some _ => handling (embed a) (embedHandler a)

end Ingest
end EvidenceLab
