/-
# Jobs at work on one document

`run_ingestion` and `embed_document` as the workers run them: several jobs at once, each
in a slot of its own (a worker has `max_jobs` of them), each taking one database step at a
time, in any order.

The chunk rows of the document are versions of rows: a row that is deleted and inserted
again has its id again, but another `stamp`.  A statement sees the rows that are
committed when it begins.  A `DELETE` or an `UPDATE` of a row that another job has
written to waits for the end of that job, and then leaves alone what is gone; it does
not see what has come in the meantime.  An `INSERT` of a key that is taken waits, or
fails.  A job may fail, or be cancelled, at any point: its transaction is rolled back.
-/

import EvidenceLab.Ingest.Store
import EvidenceLab.Runs.System
import Mathlib.Data.Fintype.Basic

namespace EvidenceLab
namespace Ingest

open Text Data EvidenceLab.Core Runs

variable {V Slot : Type}

/-- A committed chunk row, as one of the versions its key has had. -/
structure Stored (V : Type) extends ChunkRow V where
  stamp : ℕ
  deriving DecidableEq

/-- What `embed_document` is to write to a row it has loaded: the text it sent to the
provider and the vector it got. -/
structure Write (V : Type) where
  id : Uuid
  text : Str
  vector : V

/-- How far a `run_ingestion` is. -/
inductive IngestStage
  | started
  /-- The status is `PARSING`. -/
  | parsing
  /-- The status is `CHUNKING`; these are the chunks. -/
  | chunking (chunks : List Chunk)
  /-- The `DELETE` has begun, and has seen these rows. -/
  | deleting (chunks : List Chunk) (seen : List ℕ)
  /-- The `DELETE` is done; some chunks are still to be inserted, others are. -/
  | inserting (deleted : List ℕ) (todo inserted : List Chunk)

/-- How far an `embed_document` is. -/
inductive EmbedStage (V : Type)
  | started
  /-- It waits for the provider, with the texts of these rows. -/
  | loaded (pending : List (ChunkRow V))
  /-- Some rows are still to be written, the `UPDATE` of one has begun, others are done. -/
  | writing (todo : List (Write V)) (begun : Option (ℕ × Write V)) (done : List (ℕ × Write V))

/-- What is in a slot. -/
inductive Job (V : Type)
  | idle
  | ingest (stage : IngestStage)
  | embed (modelId : String) (stage : EmbedStage V)

/-- The versions of rows a job has written to and not committed yet. -/
def Job.locks : Job V → List ℕ
  | .ingest (.inserting deleted _ _) => deleted
  | .embed _ (.writing _ _ done) => done.map Prod.fst
  | _ => []

/-- The chunks a job has inserted and not committed yet. -/
def Job.inserted : Job V → List Chunk
  | .ingest (.inserting _ _ inserted) => inserted
  | _ => []

/-- The `UPDATE` a job has begun, with the version of the row that it has found. -/
def Job.begun : Job V → Option (ℕ × Write V)
  | .embed _ (.writing _ begun _) => begun
  | _ => none

/-- The slot is free. -/
def Job.isIdle : Job V → Bool
  | .idle => true
  | _ => false

/-- The chunk rows of the document, the stamp of the next one, the jobs, and a record of
what the provider has returned for which text. -/
structure Jobs (Slot V : Type) where
  rows : List (Stored V) := []
  nextStamp : ℕ := 0
  job : Slot → Job V := fun _ => .idle
  returned : List (Str × V) := []

/-- What a job does next. -/
inductive Event (V : Type)
  | startIngest
  | parse
  | chunk (chunks : List Chunk)
  | delete
  | deleted
  | insert
  | startEmbed (modelId : String)
  | load
  | answer (vectors : List V)
  | update (position : ℕ)
  | updated
  | commit
  /-- The job ends without a commit: it is skipped, fails or is cancelled. -/
  | abort

/-- The `UPDATE` that has begun is carried out. -/
def Event.isUpdated : Event V → Bool
  | .updated => true
  | _ => false

/-- The chunks that an ingestion has made. -/
def Event.chunks : Event V → List Chunk
  | .chunk chunks => chunks
  | _ => []

namespace Jobs

variable (s : Jobs Slot V) (slot : Slot)

/-- One of these versions is there, and another job has written to it. -/
def Locked (stamps : List ℕ) : Prop :=
  ∃ other, other ≠ slot ∧
    ∃ row ∈ s.rows, row.stamp ∈ stamps ∧ row.stamp ∈ (s.job other).locks

instance [Fintype Slot] [DecidableEq Slot] (stamps : List ℕ) :
    Decidable (s.Locked slot stamps) :=
  inferInstanceAs (Decidable (∃ _other, _ ∧ _))

variable (chunkIdFor : ℕ → Uuid)

/-- Two chunks that cannot both be rows: the id is the primary key, and the ordinal is
unique within the document. -/
def Clash (a b : Chunk) : Prop :=
  chunkIdFor a.ordinal = chunkIdFor b.ordinal ∨ a.ordinal = b.ordinal

instance : DecidableRel (Clash chunkIdFor) :=
  fun _ _ => inferInstanceAs (Decidable (_ ∨ _))

/-- The key of a chunk is taken: by a row the job has not deleted, or by what some job
has inserted. -/
def Taken (deleted : List ℕ) (chunk : Chunk) : Prop :=
  (∃ row ∈ s.rows, row.stamp ∉ deleted ∧
    (row.id = chunkIdFor chunk.ordinal ∨ row.ordinal = chunk.ordinal)) ∨
  ∃ other, ∃ chunk' ∈ (s.job other).inserted, Clash chunkIdFor chunk' chunk

instance [Fintype Slot] (deleted : List ℕ) (chunk : Chunk) :
    Decidable (s.Taken chunkIdFor deleted chunk) :=
  inferInstanceAs (Decidable (_ ∨ ∃ _other, _))

/-- Chunks as rows, with stamps from `next` on. -/
def stampRows (next : ℕ) (chunks : List Chunk) : List (Stored V) :=
  ((chunkRows chunkIdFor chunks).zipIdx next).map fun p => { toChunkRow := p.1, stamp := p.2 }

/-- A row with what the `UPDATE`s of a job write to it. -/
def written (modelId : String) (done : List (ℕ × Write V)) (row : Stored V) : Stored V :=
  match done.find? (·.1 = row.stamp) with
  | some (_, w) => { row with embedding := some w.vector, embeddingModel := some modelId }
  | none => row

section Step

variable [DecidableEq Slot]

/-- The job in a slot moves on. -/
def put (job : Job V) : Jobs Slot V := { s with job := Function.update s.job slot job }

@[simp] theorem rows_put (job : Job V) : (s.put slot job).rows = s.rows := rfl
@[simp] theorem nextStamp_put (job : Job V) : (s.put slot job).nextStamp = s.nextStamp := rfl
@[simp] theorem returned_put (job : Job V) : (s.put slot job).returned = s.returned := rfl

@[simp] theorem job_put_self (job : Job V) : (s.put slot job).job slot = job :=
  Function.update_self ..

theorem job_put_of_ne {other : Slot} (h : other ≠ slot) (job : Job V) :
    (s.put slot job).job other = s.job other :=
  Function.update_of_ne h ..

/-- The provider's answer is recorded, and is to be written. -/
def recordAnswer (modelId : String) (writes : List (Write V)) : Jobs Slot V :=
  { s.put slot (.embed modelId (.writing writes none [])) with
    returned := s.returned ++ writes.map fun w => (w.text, w.vector) }

/-- An ingestion commits: the rows it has deleted go, and those it has inserted come. -/
def commitIngest (deleted : List ℕ) (inserted : List Chunk) : Jobs Slot V :=
  { s.put slot .idle with
    rows := s.rows.filter (fun row => row.stamp ∉ deleted) ++
      stampRows chunkIdFor s.nextStamp inserted
    nextStamp := s.nextStamp + inserted.length }

/-- An embedding job commits what it has written. -/
def commitEmbed (modelId : String) (done : List (ℕ × Write V)) : Jobs Slot V :=
  { s.put slot .idle with rows := s.rows.map (written modelId done) }

/-- A free slot takes a job. -/
def startStep : Event V → Option (Jobs Slot V)
  | .startIngest => some (s.put slot (.ingest .started))
  | .startEmbed modelId => some (s.put slot (.embed modelId .started))
  | _ => none

variable [Fintype Slot]

/-- What an ingestion does next, `none` where it does not do this next, or waits. -/
def ingestStep : IngestStage → Event V → Option (Jobs Slot V)
  | .started, .parse => some (s.put slot (.ingest .parsing))
  | .parsing, .chunk chunks => some (s.put slot (.ingest (.chunking chunks)))
  | .chunking chunks, .delete =>
      some (s.put slot (.ingest (.deleting chunks (s.rows.map (·.stamp)))))
  | .deleting chunks seen, .deleted =>
      if s.Locked slot seen then none
      else some (s.put slot (.ingest (.inserting seen chunks [])))
  | .inserting deleted (chunk :: todo) inserted, .insert =>
      if s.Taken chunkIdFor deleted chunk then none
      else some (s.put slot (.ingest (.inserting deleted todo (inserted ++ [chunk]))))
  | .inserting deleted [] inserted, .commit =>
      some (s.commitIngest slot chunkIdFor deleted inserted)
  | _, .abort => some (s.put slot .idle)
  | _, _ => none

/-- What the rows of `pending` are to get. -/
def writes (pending : List (ChunkRow V)) (vectors : List V) : List (Write V) :=
  (pending.zip vectors).map fun p => ⟨p.1.id, p.1.text, p.2⟩

/-- What an embedding job does next, `none` where it does not do this next, or waits. -/
def embedStep (modelId : String) : EmbedStage V → Event V → Option (Jobs Slot V)
  | .started, .load =>
      some (s.put slot (.embed modelId
        (.loaded (pendingChunks modelId (s.rows.map (·.toChunkRow))))))
  | .loaded pending, .answer vectors =>
      if pending ≠ [] ∧ vectors.length = pending.length then
        some (s.recordAnswer slot modelId (writes pending vectors))
      else none
  | .writing todo none done, .update position =>
      match todo[position]? with
      | some w =>
          -- The statement names the row by its id.
          let begun := (s.rows.find? (·.id = w.id)).map fun row => (row.stamp, w)
          some (s.put slot (.embed modelId (.writing (todo.eraseIdx position) begun done)))
      | none => none
  | .writing todo (some (stamp, w)) done, .updated =>
      if s.Locked slot [stamp] then none
      else if stamp ∈ s.rows.map (·.stamp) then
        some (s.put slot (.embed modelId (.writing todo none (done ++ [(stamp, w)]))))
      else some (s.put slot (.embed modelId (.writing todo none done)))
  | .writing [] none done, .commit => some (s.commitEmbed slot modelId done)
  | _, .abort => some (s.put slot .idle)
  | _, _ => none

/-- **A step of the job in a slot**, or the start of one. -/
def step (s : Jobs Slot V) (e : Slot × Event V) : Option (Jobs Slot V) :=
  match s.job e.1 with
  | .idle => s.startStep e.1 e.2
  | .ingest stage => s.ingestStep e.1 chunkIdFor stage e.2
  | .embed modelId stage => s.embedStep e.1 modelId stage e.2

end Step

/-- No job is running. -/
def Quiet : Prop := ∀ slot, (s.job slot).isIdle

instance [Fintype Slot] : Decidable s.Quiet := inferInstanceAs (Decidable (∀ _, _))

/-- Every stored embedding is a vector that the provider has returned for the row's own
text. -/
def Belongs : Prop :=
  ∀ row ∈ s.rows, ∀ vector ∈ row.embedding, (row.text, vector) ∈ s.returned

instance [DecidableEq V] : Decidable s.Belongs :=
  inferInstanceAs (Decidable (∀ row ∈ s.rows, ∀ vector ∈ row.embedding, _))

/-- The step is not an `UPDATE` that writes to a row whose text is not the text that was
sent to the provider. -/
def Fresh (e : Slot × Event V) : Prop :=
  e.2.isUpdated → ∀ p ∈ (s.job e.1).begun, ∀ row ∈ s.rows, row.stamp = p.1 → row.text = p.2.text

instance (e : Slot × Event V) : Decidable (s.Fresh e) :=
  inferInstanceAs (Decidable (_ → ∀ p ∈ (s.job e.1).begun, _))

end Jobs

end Ingest
end EvidenceLab
