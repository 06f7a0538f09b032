/-
# The queue and the worker

`app/workers/`, with what the requests give it to do: a request commits a document and then queues
its ingestion, a worker takes a task from the queue and runs it, and `ingest_document` queues the
embedding of what it has completed.  This is about one document; its rows are those of `Jobs`, and
the statements that a task makes on them are its steps.

The queue keeps a task until a worker tells it of the end, so a task that is cancelled, or whose
worker dies, is taken again.  A task that raises is not, nor is one that has taken too long or has
been taken too often: what it was to do is then left undone, unless `_record_failure` has written
why.  It is called by the handlers of `run_ingestion`, which catch what derives from `Exception`,
and by that of `embed_document`, which catches a `DomainError`.

A session keeps the status that it has read.  What it sets is written where it differs from that.
-/

import EvidenceLab.Ingest.Jobs

namespace EvidenceLab
namespace Workers

open EvidenceLab.Core Data Ingest

variable {V Slot : Type}

/-! ### Tasks -/

/-- The tasks of `TASK_FUNCTIONS` that are about a document. -/
inductive Task
  | ingestDocument
  | embedDocumentChunks
  deriving DecidableEq, Repr

/-- How far a worker is with a task, apart from the statements on the rows. -/
inductive Stand
  | free
  /-- In `run_ingestion`, with the status that the session has of the document. -/
  | ingesting (status : Option IngestionStatus)
  /-- In `ingest_document`, where `run_ingestion` has completed. -/
  | chaining
  /-- In `embed_document`. -/
  | embedding
  /-- A failure is rolled back, and `_record_failure` is to read the document. -/
  | failed (task : Task)
  /-- `_record_failure` has read this status. -/
  | recording (task : Task) (status : IngestionStatus)
  /-- The task has ended, and the queue is to be told. -/
  | ended (task : Task)

/-- The task that the worker is at. -/
def Stand.task : Stand → Option Task
  | .free => none
  | .ingesting _ => some .ingestDocument
  | .chaining => some .ingestDocument
  | .embedding => some .embedDocumentChunks
  | .failed task => some task
  | .recording task _ => some task
  | .ended task => some task

/-- What the handlers around this place catch. -/
def Stand.catches (exc : Exc) : Stand → Bool
  | .ingesting (some _) => exc.isException
  -- The last commit is in the `try`, and may raise when it is carried out.
  | .chaining => exc.isException
  | .embedding => exc.domain?.isSome
  | _ => false

/-! ### The system -/

/-- A document with its rows, the tasks about it that are queued, and what is done for it in each
slot of the workers.  A `request` has committed the document and is to queue its ingestion. -/
structure Workshop (Slot V : Type) where
  jobs : Jobs Slot V := {}
  status : Option IngestionStatus := none
  request : Bool := false
  queue : List Task := []
  stand : Slot → Stand := fun _ => .free

/-- What happens. -/
inductive Action (Slot V : Type)
  /-- `create_from_upload` commits. -/
  | upload
  /-- `upload_document` queues the ingestion. -/
  | enqueue
  /-- A task is queued by hand. -/
  | rerun (task : Task)
  | take (slot : Slot) (task : Task)
  /-- `session.get(Document, document_id)`. -/
  | read (slot : Slot)
  /-- A statement on the rows, or a commit. -/
  | work (slot : Slot) (event : Event V)
  /-- `embed_document` has found no row that is pending. -/
  | skip (slot : Slot)
  /-- `ingest_document` queues the embedding, where that is configured. -/
  | chain (slot : Slot)
  /-- The program raises what a handler catches; the handler rolls back. -/
  | fail (slot : Slot) (exc : Exc)
  /-- The commit of `_record_failure`. -/
  | record (slot : Slot)
  | finish (slot : Slot)
  /-- The task is cancelled, or its worker dies. -/
  | redeliver (slot : Slot)
  /-- An exception ends the task, and no failure is recorded: no handler catches it, or the handler
  or `_record_failure` has raised it. -/
  | escape (slot : Slot)
  /-- The queue gives the task up. -/
  | drop (slot : Slot)
  /-- The request ends before it has queued anything. -/
  | dropRequest

/-- Nothing that was to be done is dropped. -/
def Action.keeps : Action Slot V → Bool
  | .escape _ => false
  | .drop _ => false
  | .dropRequest => false
  | _ => true

namespace Workshop

variable (s : Workshop Slot V) (slot : Slot)

/-- There is nothing more to do: nothing is queued, and every slot is free. -/
def Drained : Prop := s.request = false ∧ s.queue = [] ∧ ∀ slot, (s.stand slot).task = none

/-- The status, when a session that has read `loaded` sets another. -/
def write (loaded status : IngestionStatus) : Option IngestionStatus :=
  if loaded = status then s.status else some status

variable [DecidableEq Slot]

/-- A worker moves on in a slot. -/
def place (stand : Stand) : Workshop Slot V :=
  { s with stand := Function.update s.stand slot stand }

variable (chunkIdFor : ℕ → Uuid) (modelId : String) (embeddingsEnabled : Bool)

/-- A slot takes a task. -/
def take (task : Task) : Workshop Slot V :=
  let s := { s with queue := s.queue.erase task }
  match task with
  | .ingestDocument =>
      { s.place slot (.ingesting none) with jobs := s.jobs.put slot (.ingest .started) }
  | .embedDocumentChunks =>
      { s.place slot .embedding with jobs := s.jobs.put slot (.embed modelId .started) }

/-- A worker leaves a task where it is. -/
def leave : Workshop Slot V := { s.place slot .free with jobs := s.jobs.put slot .idle }

/-- The status is read. -/
def read : Option (Workshop Slot V) :=
  match s.stand slot, s.status with
  | .ingesting none, some status => some (s.place slot (.ingesting (some status)))
  | .failed task, some status => some (s.place slot (.recording task status))
  | _, _ => none

/-- A step of the job in the slot, with the status that is committed in the same transaction. -/
def work [Fintype Slot] (event : Event V) : Option (Workshop Slot V) := do
  let jobs ← s.jobs.step chunkIdFor (slot, event)
  match s.stand slot, event with
  | .ingesting (some status), .parse =>
      some { s.place slot (.ingesting (some .parsing)) with
        jobs, status := s.write status .parsing }
  -- What the session has here it has set itself, so that it is another status each time.
  | .ingesting (some _), .chunk _ =>
      some { s.place slot (.ingesting (some .chunking)) with jobs, status := some .chunking }
  | .ingesting (some _), .commit =>
      some { s.place slot .chaining with jobs, status := some .completed }
  | .ingesting (some _), .delete => some { s with jobs }
  | .ingesting (some _), .deleted => some { s with jobs }
  | .ingesting (some _), .insert => some { s with jobs }
  | .embedding, .load => some { s with jobs }
  | .embedding, .answer _ => some { s with jobs }
  | .embedding, .update _ => some { s with jobs }
  | .embedding, .updated => some { s with jobs }
  | .embedding, .commit => some { s.place slot (.ended .embedDocumentChunks) with jobs }
  | _, _ => none

/-- `embed_document` returns, as nothing is pending. -/
def skip : Option (Workshop Slot V) :=
  match s.stand slot, s.jobs.job slot with
  | .embedding, .embed _ (.loaded []) =>
      some { s.place slot (.ended .embedDocumentChunks) with jobs := s.jobs.put slot .idle }
  | _, _ => none

/-- `ingest_document` goes on from `run_ingestion`. -/
def chain : Option (Workshop Slot V) :=
  match s.stand slot with
  | .chaining =>
      some { s.place slot (.ended .ingestDocument) with
        queue := if embeddingsEnabled then s.queue ++ [.embedDocumentChunks] else s.queue }
  | _ => none

/-- A handler catches what the task has raised: what is not committed is rolled back. -/
def fail (exc : Exc) : Option (Workshop Slot V) :=
  if (s.stand slot).catches exc then
    (s.stand slot).task.map fun task =>
      { s.place slot (.failed task) with jobs := s.jobs.put slot .idle }
  else none

/-- `_record_failure` commits. -/
def record : Option (Workshop Slot V) :=
  match s.stand slot with
  | .recording task status =>
      some { s.place slot (.ended task) with status := s.write status .failed }
  | _ => none

/-- **A step of the system.** -/
def step [Fintype Slot] (s : Workshop Slot V) : Action Slot V → Option (Workshop Slot V)
  | .upload =>
      if s.status = none then some { s with status := some .pending, request := true } else none
  | .enqueue =>
      if s.request then some { s with request := false, queue := s.queue ++ [.ingestDocument] }
      else none
  | .rerun task =>
      if s.status = none then none else some { s with queue := s.queue ++ [task] }
  | .take slot task =>
      if (s.stand slot).task = none ∧ task ∈ s.queue then some (s.take slot modelId task) else none
  | .read slot => s.read slot
  | .work slot event => s.work slot chunkIdFor event
  | .skip slot => s.skip slot
  | .chain slot => s.chain slot embeddingsEnabled
  | .fail slot exc => s.fail slot exc
  | .record slot => s.record slot
  | .finish slot =>
      match s.stand slot with
      | .ended _ => some (s.place slot .free)
      | _ => none
  | .redeliver slot =>
      (s.stand slot).task.map fun task => { s.leave slot with queue := s.queue ++ [task] }
  | .escape slot => (s.stand slot).task.map fun _ => s.leave slot
  | .drop slot => (s.stand slot).task.map fun _ => s.leave slot
  | .dropRequest => if s.request then some { s with request := false } else none
end Workshop

end Workers
end EvidenceLab
