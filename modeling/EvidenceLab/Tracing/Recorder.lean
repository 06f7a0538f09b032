/-
# The trace recorder

`core/tracing/recorder.py`: a collector takes a span when a stage ends, and gives the
spans in the order in which their stages began.  A `span` block is an opening, which
keeps the local variables of the block in a frame, and a closing, which is told what
left the block; an execution holds the collector and the frames of the blocks that
are open.  Every closing closes the innermost block, as `with` does.

The ids and the readings of the clocks come with the events.  Attributes have any
type of values.
-/

import EvidenceLab.Core.Errors
import EvidenceLab.Data.Dict
import EvidenceLab.Data.Float64
import EvidenceLab.Data.Uuid
import EvidenceLab.Runs.Nesting
import EvidenceLab.Runs.System
import Mathlib.Algebra.Order.Field.Rat

namespace EvidenceLab
namespace Tracing

open Data EvidenceLab.Core Runs

variable {A : Type}

/-- `TraceStage`: the pipeline stages a trace can contain. -/
inductive TraceStage
  | queryAnalysis | queryEmbedding | semanticRetrieval | keywordRetrieval | retrieval | fusion
  | reranking | evidenceAssessment | modelRouting | generation | verification
  deriving DecidableEq, Repr

/-- `SpanStatus`. -/
inductive SpanStatus
  | ok | error
  deriving DecidableEq, Repr

/-- `d.update(attributes)`. -/
def update (d attributes : Dict String A) : Dict String A :=
  attributes.entries.foldl (fun d e => d.set e.1 e.2) d

/-! ### Records -/

/-- `SpanRecord`: one completed pipeline stage. -/
structure SpanRecord (A : Type) where
  sequence : ℕ
  spanId : Uuid
  parentSpanId : Option Uuid
  stage : TraceStage
  status : SpanStatus
  startedAt : ℤ
  finishedAt : ℤ
  durationMs : ℚ
  attributes : Dict String A := Dict.empty
  errorCode : Option ErrorCode := none
  errorMessage : Option String := none

/-- `TraceRecord`: a complete execution trace, ready to persist. -/
structure TraceRecord (A : Type) where
  traceId : Uuid
  status : SpanStatus
  startedAt : ℤ
  finishedAt : ℤ
  totalLatencyMs : ℚ
  spans : List (SpanRecord A) := []
  inputTokens : ℕ := 0
  outputTokens : ℕ := 0
  cost : Option Float64 := none
  errorCode : Option ErrorCode := none
  errorMessage : Option String := none
  attributes : Dict String A := Dict.empty

/-! ### Events -/

/-- The entry of a `span` block: its stage and attributes, with the id and the time. -/
structure Opening (A : Type) where
  spanId : Uuid
  stage : TraceStage
  attributes : Dict String A := Dict.empty
  startedAt : ℤ

/-- The exit of a `span` block: what it raised, the text of that, the attributes that
were set inside, and the time. -/
structure Closing (A : Type) where
  raised : Option Exc := none
  text : String := ""
  attributes : Dict String A := Dict.empty
  finishedAt : ℤ
  durationMs : ℚ

/-- The status that a block records: its handlers see what derives from `Exception`. -/
def Closing.status (c : Closing A) : SpanStatus :=
  if c.raised.any Exc.isException then .error else .ok

/-- The error code that a block records. -/
def Closing.errorCode (c : Closing A) : Option ErrorCode :=
  (c.raised.filter Exc.isException).map fun e => e.domain?.elim .internalError (·.code)

/-- The error message that a block records. -/
def Closing.errorMessage (c : Closing A) : Option String :=
  (c.raised.filter Exc.isException).map fun e => e.domain?.elim c.text (·.message)

/-! ### The collector -/

/-- `TraceCollector`; the innermost span is the first of `stack`. -/
structure TraceCollector (A : Type) where
  traceId : Uuid
  spans : List (SpanRecord A) := []
  stack : List Uuid := []
  sequence : ℕ := 0
  inputTokens : ℕ := 0
  outputTokens : ℕ := 0
  cost : Option Float64 := none
  startedAt : ℤ
  attributes : Dict String A := Dict.empty

/-- What an open block keeps to itself. -/
structure Frame (A : Type) where
  sequence : ℕ
  spanId : Uuid
  parent : Option Uuid
  stage : TraceStage
  attributes : Dict String A
  startedAt : ℤ

/-- The record of a block. -/
def Frame.record (f : Frame A) (c : Closing A) : SpanRecord A where
  sequence := f.sequence
  spanId := f.spanId
  parentSpanId := f.parent
  stage := f.stage
  status := c.status
  startedAt := f.startedAt
  finishedAt := c.finishedAt
  durationMs := c.durationMs
  attributes := update f.attributes c.attributes
  errorCode := c.errorCode
  errorMessage := c.errorMessage

namespace TraceCollector

/-- `set`. -/
def set (t : TraceCollector A) (attributes : Dict String A) : TraceCollector A :=
  { t with attributes := update t.attributes attributes }

/-- `record_usage`. -/
def recordUsage (t : TraceCollector A) (inputTokens outputTokens : ℕ)
    (cost : Option Float64) : TraceCollector A :=
  { t with
    inputTokens := t.inputTokens + inputTokens
    outputTokens := t.outputTokens + outputTokens
    cost := cost.elim t.cost fun more => some (Float64.add (Float64.orZero t.cost) more) }

/-- `span`, up to the `yield`. -/
def enter (t : TraceCollector A) (o : Opening A) : TraceCollector A × Frame A :=
  ({ t with sequence := t.sequence + 1, stack := o.spanId :: t.stack },
    ⟨t.sequence, o.spanId, t.stack.head?, o.stage, o.attributes, o.startedAt⟩)

/-- The `finally` of `span`. -/
def exit (t : TraceCollector A) (f : Frame A) (c : Closing A) : TraceCollector A :=
  { t with stack := t.stack.tail, spans := t.spans ++ [f.record c] }

/-- A block around a body that opens none itself: the body gives a value and the
attributes it sets, or raises. -/
def within {α : Type} (t : TraceCollector A) (o : Opening A) (text : Exc → String)
    (finishedAt : ℤ) (durationMs : ℚ) (body : Except Exc (α × Dict String A)) :
    Except Exc α × TraceCollector A :=
  let (t, frame) := t.enter o
  match body with
  | .error e => (.error e, t.exit frame ⟨some e, text e, Dict.empty, finishedAt, durationMs⟩)
  | .ok (a, attributes) => (.ok a, t.exit frame ⟨none, "", attributes, finishedAt, durationMs⟩)

/-- `finish`: the trace fails if it was told it failed, or if any span did. -/
def finish (t : TraceCollector A) (errorCode : Option ErrorCode) (errorMessage : Option String)
    (finishedAt : ℤ) (totalLatencyMs : ℚ) : TraceRecord A where
  traceId := t.traceId
  status :=
    if errorCode.isSome ∨ ∃ span ∈ t.spans, span.status = .error then .error else .ok
  startedAt := t.startedAt
  finishedAt := finishedAt
  totalLatencyMs := totalLatencyMs
  spans := t.spans.mergeSort fun a b => a.sequence ≤ b.sequence
  inputTokens := t.inputTokens
  outputTokens := t.outputTokens
  cost := t.cost
  errorCode := errorCode
  errorMessage := errorMessage
  attributes := t.attributes

end TraceCollector

/-! ### Executions -/

/-- A collector, and the frames of the blocks that are open, the innermost first. -/
structure Execution (A : Type) where
  collector : TraceCollector A
  frames : List (Frame A) := []

/-- A block is entered, or the innermost one is left. -/
def Execution.step (x : Execution A) : Boundary (Opening A) (Closing A) → Option (Execution A)
  | .opening o =>
      let (collector, frame) := x.collector.enter o
      some ⟨collector, frame :: x.frames⟩
  | .closing c =>
      match x.frames with
      | [] => none
      | frame :: frames => some ⟨x.collector.exit frame c, frames⟩

/-! ### What a block records -/

@[simp] theorem Frame.status_record (f : Frame A) (c : Closing A) :
    (f.record c).status = c.status := rfl

theorem Closing.status_eq_error {c : Closing A} :
    c.status = .error ↔ ∃ e, c.raised = some e ∧ e.isException = true := by
  unfold Closing.status
  cases h : c.raised with
  | none => simp
  | some e => cases he : e.isException <;> simp [he]

/-- A block that records an error records its code, and no other block does. -/
theorem Closing.errorCode_isSome {c : Closing A} :
    c.errorCode.isSome = true ↔ c.status = .error := by
  rw [Closing.status_eq_error, Closing.errorCode, Option.isSome_map]
  cases h : c.raised with
  | none => simp
  | some e => cases he : e.isException <;> simp [he]

/-- Of an exception, a block fails exactly when one leaves it. -/
theorem Closing.status_of_exceptions {c : Closing A}
    (h : ∀ e, c.raised = some e → e.isException = true) :
    c.status = if c.raised.isSome then .error else .ok := by
  unfold Closing.status
  cases hr : c.raised with
  | none => rfl
  | some e => rw [Option.any_some, h e hr, Option.isSome_some]

/-! ### A block of its own -/

namespace TraceCollector

variable {α : Type} (t : TraceCollector A) (o : Opening A) (text : Exc → String)
  (finishedAt : ℤ) (durationMs : ℚ) (body : Except Exc (α × Dict String A))

/-- A block raises what its body raises, and gives what that gives. -/
theorem within_fst : (t.within o text finishedAt durationMs body).1 = body.map Prod.fst := by
  cases body <;> rfl

/-- **A block adds its span**, which has the next number and failed iff an exception
left the body; what was open before is open again. -/
theorem within_snd : ∃ span : SpanRecord A,
    (t.within o text finishedAt durationMs body).2 =
      { t with sequence := t.sequence + 1, spans := t.spans ++ [span] } ∧
    span.stage = o.stage ∧ span.sequence = t.sequence ∧
    (span.status = .error ↔ ∃ e, body = .error e ∧ e.isException = true) := by
  cases body with
  | error e =>
      refine ⟨_, rfl, rfl, rfl, ?_⟩
      rw [Frame.status_record, Closing.status_eq_error]
      simp
  | ok r =>
      refine ⟨_, rfl, rfl, rfl, ?_⟩
      rw [Frame.status_record, Closing.status_eq_error]
      simp

end TraceCollector

end Tracing
end EvidenceLab
