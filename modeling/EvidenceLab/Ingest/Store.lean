/-
# Stored documents and chunks

`app/models/document.py` and `app/models/chunk.py`: the row of one document and the
rows of its chunks, with what the services read and write of them.  A chunk row is
a chunk under an id that is derived from its ordinal, so a row that is written
again has the id of the row it replaces.
-/

import EvidenceLab.Data.Uuid
import EvidenceLab.Ingest.Chunking

namespace EvidenceLab
namespace Ingest

open Text Data EvidenceLab.Core

variable {V : Type}

/-- `IngestionStatus`. -/
inductive IngestionStatus
  | pending | parsing | chunking | completed | failed
  deriving DecidableEq, Repr

/-- `Document`: the columns that the pipeline reads or writes. -/
structure Document where
  id : Uuid
  contentHash : Str
  filename : Option Str
  mimeType : String
  sizeBytes : ℕ
  pageCount : Option ℕ := none
  chunkCount : ℕ := 0
  ingestionStatus : IngestionStatus := .pending
  errorCode : Option ErrorCode := none
  errorMessage : Option String := none
  deriving DecidableEq, Repr

/-- `Chunk` of `app/models/chunk.py`: a chunk with its id and, once it is embedded,
its vector and the model the vector is from. -/
structure ChunkRow (V : Type) extends Chunk where
  id : Uuid
  embedding : Option V := none
  embeddingModel : Option String := none
  deriving DecidableEq

/-- The rows `run_ingestion` adds for the chunks of a document, `chunkIdFor` being
`chunk_id_for` for that document. -/
def chunkRows (chunkIdFor : ℕ → Uuid) (chunks : List Chunk) : List (ChunkRow V) :=
  chunks.map fun chunk => { toChunk := chunk, id := chunkIdFor chunk.ordinal }

/-- The `where` of `_pending_chunks`.  In SQL a missing model is not different from
any, so it is the missing vector that makes such a row pending. -/
def ChunkRow.Pending (modelId : String) (row : ChunkRow V) : Bool :=
  row.embedding.isNone || row.embeddingModel.any (· ≠ modelId)

/-- `_pending_chunks`: chunks with no vector, or one from a different model. -/
def pendingChunks (modelId : String) (rows : List (ChunkRow V)) : List (ChunkRow V) :=
  (rows.filter (·.Pending modelId)).mergeSort fun a b => a.ordinal ≤ b.ordinal

/-- What is stored of one document, `none` before its upload. -/
structure Store (V : Type) where
  document : Option Document := none
  chunks : List (ChunkRow V) := []

/-- Writes to the document row, if there is one. -/
def Store.updateDocument (f : Document → Document) (s : Store V) : Store V :=
  { s with document := s.document.map f }

@[simp] theorem Store.document_updateDocument (f : Document → Document) (s : Store V) :
    (s.updateDocument f).document = s.document.map f := rfl

@[simp] theorem Store.chunks_updateDocument (f : Document → Document) (s : Store V) :
    (s.updateDocument f).chunks = s.chunks := rfl

/-- Sets the vectors of the rows that were sent to the provider. -/
def Store.setEmbeddings (modelId : String) (embedded : List (ChunkRow V × V)) (s : Store V) :
    Store V :=
  { s with chunks := s.chunks.map fun row =>
      match embedded.find? (·.1.id = row.id) with
      | some (_, vector) => { row with embedding := some vector, embeddingModel := some modelId }
      | none => row }

end Ingest
end EvidenceLab
