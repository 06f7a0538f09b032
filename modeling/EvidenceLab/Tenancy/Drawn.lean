/-
# The timeline draws the execution

A trace as the two endpoints show it: `get_trace` gives the spans with their offsets, and
`trace_timeline` a bar for each.  Both load the rows in the order of their starts, and rows
that begin at once come in an order of the database's choice; the depths are found by the
ids, so that they do not depend on it (`depthOf_perm`).

Whatever code with spans was run, and wherever it raised, the spans and bars are those of
its calls (`timeline_draws_execution`): there is one for each, at the depth of the nesting,
and on a clock that does not go back they fit into each other as the calls do.
-/

import EvidenceLab.Runs.Intervals
import EvidenceLab.Tenancy.Isolation
import EvidenceLab.Tracing.Raising
import EvidenceLab.Visualization.Depth

namespace EvidenceLab
namespace Tenancy

open Text Data EvidenceLab.Core Runs Reasoning Tracing Visualization

variable {V : Type} (b : Backend V)

/-! ### What is shown -/

/-- A span with its offset, and its bar. -/
abbrev DrawnSpan := (TraceSpanRow Attribute × ℚ) × TimelineBar Attribute

/-- The spans of a trace as `get_trace` gives them, each with what `trace_timeline` draws
in its place. -/
def drawn (trace : StoredTrace) : List DrawnSpan :=
  (toRead b trace).spans.zip (traceTimeline b trace).1.bars

section Calls

variable (traceId : Uuid) (start : ℤ) (call : Call (Opening Attribute) (Closing Attribute))
  (c : Closing Attribute)

/-- The row of a call that was closed so. -/
def rowOf : TraceSpanRow Attribute where
  id := call.opening.spanId
  traceId := traceId
  parentSpanId := call.around.head?.map (·.spanId)
  stage := call.opening.stage
  status := c.status
  startedAt := call.opening.startedAt
  finishedAt := c.finishedAt
  durationMs := c.durationMs
  attributes := update call.opening.attributes c.attributes
  errorCode := c.errorCode
  errorMessage := c.errorMessage

/-- Its bar. -/
def barOf : TimelineBar Attribute where
  spanId := call.opening.spanId.str
  stage := call.opening.stage
  status := c.status
  depth := call.around.length
  offsetMs := (call.opening.startedAt - start : ℤ) / 1000
  durationMs := c.durationMs
  errorCode := c.errorCode
  attributes := update call.opening.attributes c.attributes

/-- What is shown of it. -/
def drawnOf : DrawnSpan :=
  ((rowOf traceId call c, ((call.opening.startedAt - start : ℤ) : ℚ) / 1000), barOf start call c)

end Calls

/-- What is shown of calls. -/
def drawnCalls (traceId : Uuid) (start : ℤ)
    (cs : List (Call (Opening Attribute) (Closing Attribute))) : List DrawnSpan :=
  cs.filterMap fun call => call.closing.map (drawnOf traceId start call)

/-- The first span lies within the second one, and is drawn deeper. -/
def Within (x y : DrawnSpan) : Prop :=
  y.1.1.startedAt ≤ x.1.1.startedAt ∧ x.1.1.finishedAt ≤ y.1.1.finishedAt ∧ y.2.depth < x.2.depth

/-- The first span is over when the second one begins. -/
def Apart (x y : DrawnSpan) : Prop := x.1.1.finishedAt ≤ y.1.1.startedAt

/-- Two spans do not cross. -/
def Fits (x y : DrawnSpan) : Prop := (Within x y ∨ Within y x) ∨ Apart x y ∨ Apart y x

theorem Fits.symm {x y : DrawnSpan} (h : Fits x y) : Fits y x := h.imp Or.symm Or.symm

/-! ### Rows in any order -/

section Rows

variable {b} {trace : StoredTrace}

/-- What the timeline is given of a row. -/
def inputOf (trace : StoredTrace) (span : TraceSpanRow Attribute) : SpanInput Attribute where
  spanId := span.id.str
  parentSpanId := span.parentSpanId.map Uuid.str
  stage := span.stage
  status := span.status
  offsetMs := offsetMs trace span
  durationMs := span.durationMs
  errorCode := span.errorCode
  attributes := some span.attributes

/-- What is shown of a row, when the timeline is given these. -/
def drawnRow (trace : StoredTrace) (inputs : List (SpanInput Attribute))
    (span : TraceSpanRow Attribute) : DrawnSpan :=
  ((span, offsetMs trace span),
    { spanId := span.id.str
      stage := span.stage
      status := span.status
      depth := depthOf inputs (inputOf trace span)
      offsetMs := offsetMs trace span
      durationMs := span.durationMs
      errorCode := span.errorCode
      attributes := span.attributes })

theorem drawn_eq : drawn b trace = (loadSpans b trace).map
    (drawnRow trace ((loadSpans b trace).map (inputOf trace))) := by
  have hbars : (traceTimeline b trace).1.bars = (loadSpans b trace).map fun span =>
      (drawnRow trace ((loadSpans b trace).map (inputOf trace)) span).2 :=
    List.map_map
  rw [drawn, hbars]
  exact List.zip_map' ..

/-- What is shown does not depend on the order in which the rows are loaded, but for its
own order. -/
theorem drawn_perm (hids : (trace.spans.map (·.id)).Nodup) :
    (drawn b trace).Perm (trace.spans.map (drawnRow trace (trace.spans.map (inputOf trace)))) := by
  have hload : (loadSpans b trace).Perm trace.spans := Engine.perm_orderBy
  have hkeys : (((loadSpans b trace).map (inputOf trace)).map (·.spanId)).Nodup := by
    have hmap := ((hload.map (·.id)).nodup_iff.mpr hids).map Uuid.str_injective
    rwa [List.map_map] at hmap ⊢
  rw [drawn_eq]
  refine (hload.map _).trans (.of_eq (List.map_congr_left fun span _ => ?_))
  rw [drawnRow, drawnRow, depthOf_perm hkeys (hload.map (inputOf trace))]

theorem pairwise_loadSpans : (loadSpans b trace).Pairwise fun x y => x.startedAt ≤ y.startedAt := by
  refine (List.pairwise_mergeSort ?_ ?_ _).imp of_decide_eq_true
  · intro x y z hxy hyz
    exact decide_eq_true ((of_decide_eq_true hxy).trans (of_decide_eq_true hyz))
  · intro x y
    rw [Bool.or_eq_true]
    exact (le_total x.startedAt y.startedAt).imp decide_eq_true decide_eq_true

/-- A bar has failed iff a span has. -/
theorem exists_drawn_error :
    (∃ x ∈ drawn b trace, x.2.status = .error) ↔ ∃ span ∈ trace.spans, span.status = .error := by
  have hload : (loadSpans b trace).Perm trace.spans := Engine.perm_orderBy
  simp only [drawn_eq, List.mem_map, exists_exists_and_eq_and, hload.mem_iff]
  rfl

/-- Bars are drawn from the left to the right. -/
theorem pairwise_offsets :
    (drawn b trace).Pairwise fun x y => x.2.offsetMs ≤ y.2.offsetMs := by
  rw [drawn_eq, List.pairwise_map]
  refine pairwise_loadSpans.imp fun {x y} h => ?_
  have hcast : ((x.startedAt - trace.startedAt : ℤ) : ℚ) ≤ (y.startedAt - trace.startedAt : ℤ) :=
    Int.cast_le.mpr (sub_le_sub_right h _)
  exact div_le_div_of_nonneg_right hcast (by norm_num)

end Rows

/-! ### The rows of calls -/

section Saved

variable {b} {trace : StoredTrace} {es : List (Boundary (Opening Attribute) (Closing Attribute))}
  {call : Call (Opening Attribute) (Closing Attribute)} {c : Closing Attribute} {traceId : Uuid}

theorem spanRow_record (n : ℕ) : spanRow traceId ((frameOf n call).record c) =
    rowOf traceId call c := by
  rw [spanRow, Frame.record, frameOf, rowOf, List.head?_map]

/-- The rows of the records of calls. -/
theorem map_spanRow_records (traceId : Uuid) (n : ℕ)
    (cs : List (Call (Opening Attribute) (Closing Attribute))) :
    (records n cs).map (spanRow traceId) =
      cs.filterMap fun call => call.closing.map (rowOf traceId call) := by
  induction cs generalizing n with
  | nil => rfl
  | cons call cs ih =>
      rw [records, List.map_append, ih, List.filterMap_cons]
      cases call.closing with
      | none => rfl
      | some c => exact congrArg (· :: _) (spanRow_record n)

/-- The timeline is given the records. -/
theorem inputOf_spanRow (span : SpanRecord Attribute) :
    inputOf trace (spanRow traceId span) = spanInput trace.startedAt span := by
  rw [inputOf, spanRow, spanInput, offsetMs, Int.cast_sub]

theorem inputOf_rowOf (n : ℕ) : inputOf trace (rowOf traceId call c) =
    spanInput trace.startedAt ((frameOf n call).record c) := by
  rw [← spanRow_record n, inputOf_spanRow]

/-- **What is shown of the rows of calls** is what is shown of the calls. -/
theorem drawn_records (h : WellNested es) (hids : ((openings es).map (·.spanId)).Nodup) (n : ℕ)
    (hspans : trace.spans = (records n (calls [] es)).map (spanRow traceId)) :
    (drawn b trace).Perm (drawnCalls traceId trace.startedAt (calls [] es)) := by
  have hinputs : trace.spans.map (inputOf trace) =
      (records n (calls [] es)).map (spanInput trace.startedAt) := by
    rw [hspans, List.map_map]
    exact List.map_congr_left fun span _ => inputOf_spanRow span
  have hrows : (trace.spans.map (·.id)).Nodup := by
    rw [hspans, List.map_map]
    exact (map_spanId_records h n).symm ▸ hids
  refine (drawn_perm hrows).trans (.of_eq ?_)
  rw [hinputs, hspans, map_spanRow_records, List.map_filterMap, drawnCalls]
  refine List.filterMap_congr fun call hcall => ?_
  obtain ⟨c, hc, -⟩ := closing_of_mem_calls h hcall
  rw [hc, Option.map_some, Option.map_some, Option.map_some, drawnRow, inputOf_rowOf 0,
    depthOf_record h hids _ _ _ hcall]
  rfl

/-- Each call is shown. -/
theorem length_drawnCalls (h : WellNested es) (start : ℤ) :
    (drawnCalls traceId start (calls [] es)).length = (openings es).length := by
  rw [← map_opening_calls [], List.length_map, drawnCalls, List.length_filterMap_eq_countP,
    List.countP_eq_length]
  intro call hcall
  obtain ⟨c, hc, -⟩ := closing_of_mem_calls h hcall
  rw [hc]
  rfl

/-- Calls are drawn as they fit into each other. -/
theorem pairwise_drawnCalls (h : WellNested es)
    (hclock : Clocked Opening.startedAt Closing.finishedAt es) (start : ℤ) :
    (drawnCalls traceId start (calls [] es)).Pairwise Fits := by
  refine (pairwise_calls h hclock).filterMap _ fun a a' hfit x hx y hy => ?_
  obtain ⟨c, hc, rfl⟩ := Option.map_eq_some_iff.mp hx
  obtain ⟨c', hc', rfl⟩ := Option.map_eq_some_iff.mp hy
  rcases hfit with hencloses | hprecedes
  · refine Or.inl (Or.inr ⟨hencloses.opens, hencloses.closes c hc c' hc', ?_⟩)
    exact hencloses.around.length_le
  · exact Or.inr (Or.inl (hprecedes c hc))

/-- The rows of one stage are those of its calls. -/
theorem filter_rows (traceId : Uuid) (stage : TraceStage)
    (cs : List (Call (Opening Attribute) (Closing Attribute))) :
    (cs.filterMap fun call => call.closing.map (rowOf traceId call)).filter (·.stage = stage) =
      (cs.filter (·.opening.stage = stage)).filterMap fun call =>
        call.closing.map (rowOf traceId call) := by
  rw [List.filter_filterMap, List.filterMap_filter]
  refine List.filterMap_congr fun call _ => ?_
  cases call.closing with
  | none => exact (ite_self _).symm
  | some c => rfl

/-- The latency of a stage that was entered once is that of its call. -/
theorem stageLatency_of_once {n : ℕ}
    (hspans : trace.spans = (records n (calls [] es)).map (spanRow traceId)) {stage : TraceStage}
    (honce : (calls [] es).filter (·.opening.stage = stage) = [call]) :
    stageLatency (loadSpans b trace) stage = call.closing.map (·.durationMs) := by
  have hload : (loadSpans b trace).Perm trace.spans := Engine.perm_orderBy
  have hrows : trace.spans.filter (·.stage = stage) =
      (call.closing.map (rowOf traceId call)).toList := by
    rw [hspans, map_spanRow_records, filter_rows, honce, List.filterMap_cons, List.filterMap_nil]
    cases call.closing <;> rfl
  have hfilter := hload.filter (·.stage = stage)
  rw [stageLatency, ← List.head?_filter]
  rw [hrows] at hfilter
  cases hc : call.closing with
  | none =>
      rw [hc] at hfilter
      rw [List.perm_nil.mp hfilter]
      rfl
  | some c =>
      rw [hc] at hfilter
      rw [List.perm_singleton.mp hfilter]
      rfl

end Saved

/-! ### Executions -/

/-- The trace that is stored of code with spans, which was run from this collector. -/
def tracedRun (code : Code (SpanBlock Attribute) Exc) (t : TraceCollector Attribute)
    (errorCode : Option ErrorCode) (errorMessage : Option String) (finishedAt : ℤ)
    (totalLatencyMs : ℚ) (args : SaveArgs) (savedAt : ℤ) : StoredTrace :=
  let record := (span.run code t).2.finish errorCode errorMessage finishedAt totalLatencyMs
  { savedTrace record args with createdAt := savedAt, updatedAt := savedAt }

section Executions

variable (code : Code (SpanBlock Attribute) Exc) {t : TraceCollector Attribute}

/-- A collector that has no spans yet ends with the records of the calls, in some order. -/
theorem run_span (hstack : t.stack = []) (hspans : t.spans = []) : ∃ sequence done,
    done.Perm (records t.sequence (calls [] (boundaries code))) ∧
      (span.run code t).2 = { t with sequence, spans := done } := by
  obtain ⟨done, hperm, hrun⟩ := run_wellNested (wellNested_boundaries code) ⟨t, []⟩ [] hstack
  have hend := Option.some.inj ((run_boundaries code t []).symm.trans hrun)
  rw [hspans, List.nil_append] at hend
  exact ⟨_, done, hperm, congrArg Execution.collector hend⟩

/-- A trace has failed iff it was told so or a span has. -/
theorem status_tracedRun (t : TraceCollector Attribute) (errorCode : Option ErrorCode)
    (errorMessage : Option String) (finishedAt : ℤ) (totalLatencyMs : ℚ) (args : SaveArgs)
    (savedAt : ℤ) :
    let trace := tracedRun code t errorCode errorMessage finishedAt totalLatencyMs args savedAt
    trace.status = .error ↔
      errorCode.isSome = true ∨ ∃ span ∈ trace.spans, span.status = .error := by
  refine (status_finish _ errorCode errorMessage finishedAt totalLatencyMs).trans ?_
  simp only [tracedRun, savedTrace, savedSpans, List.mem_map, exists_exists_and_eq_and]
  rfl

variable (hstack : t.stack = []) (hspans : t.spans = []) (errorCode : Option ErrorCode)
  (errorMessage : Option String) (finishedAt : ℤ) (totalLatencyMs : ℚ) (args : SaveArgs)
  (savedAt : ℤ)

include hstack hspans

theorem spans_tracedRun :
    (tracedRun code t errorCode errorMessage finishedAt totalLatencyMs args savedAt).spans =
      (records t.sequence (calls [] (boundaries code))).map (spanRow t.traceId) := by
  obtain ⟨sequence, done, hperm, hrun⟩ := run_span code hstack hspans
  have hsorted := mergeSort_eq_of_perm hperm (pairwise_records _ _).1
  rw [tracedRun, hrun]
  exact congrArg (List.map (spanRow t.traceId)) hsorted

theorem startedAt_tracedRun :
    (tracedRun code t errorCode errorMessage finishedAt totalLatencyMs args savedAt).startedAt =
      t.startedAt := by
  obtain ⟨sequence, done, -, hrun⟩ := run_span code hstack hspans
  rw [tracedRun, hrun]
  rfl

end Executions

/-- **The timeline draws the execution.**  Whatever code with spans was run from a collector
without any, each with an id of its own, and however the database orders rows that began at once:
what is shown of the stored trace is, in the order of the offsets, what is to be shown of the calls
of the code, each once, with the depth at which it was nested; the trace has failed iff it was told
so or a bar has; a stage that was entered once has the latency of its call; and on a clock that
does not go back no two spans cross, and one that lies in another is drawn deeper. -/
theorem timeline_draws_execution (code : Code (SpanBlock Attribute) Exc)
    (t : TraceCollector Attribute) (hstack : t.stack = []) (hspans : t.spans = [])
    (hids : ((openings (boundaries code)).map (·.spanId)).Nodup) (errorCode : Option ErrorCode)
    (errorMessage : Option String) (finishedAt : ℤ) (totalLatencyMs : ℚ) (args : SaveArgs)
    (savedAt : ℤ) :
    let trace := tracedRun code t errorCode errorMessage finishedAt totalLatencyMs args savedAt
    let executed := calls [] (boundaries code)
    (drawn b trace).Perm (drawnCalls t.traceId t.startedAt executed) ∧
    (drawn b trace).length = (openings (boundaries code)).length ∧
    ((drawn b trace).Pairwise fun x y => x.2.offsetMs ≤ y.2.offsetMs) ∧
    ((traceTimeline b trace).1.status = .error ↔
      errorCode.isSome = true ∨ ∃ x ∈ drawn b trace, x.2.status = .error) ∧
    (∀ stage call, executed.filter (·.opening.stage = stage) = [call] →
      stageLatency (loadSpans b trace) stage = call.closing.map (·.durationMs)) ∧
    (Clocked Opening.startedAt Closing.finishedAt (boundaries code) →
      (drawn b trace).Pairwise Fits) := by
  intro trace executed
  have hnested := wellNested_boundaries code
  have hrows : trace.spans = (records t.sequence executed).map (spanRow t.traceId) :=
    spans_tracedRun code hstack hspans ..
  have hstart : trace.startedAt = t.startedAt := startedAt_tracedRun code hstack hspans ..
  have hdrawn : (drawn b trace).Perm (drawnCalls t.traceId t.startedAt executed) :=
    hstart ▸ drawn_records hnested hids _ hrows
  refine ⟨hdrawn, hdrawn.length_eq.trans (length_drawnCalls hnested _), pairwise_offsets, ?_,
    fun stage call honce => stageLatency_of_once hrows honce, fun hclock => ?_⟩
  · rw [exists_drawn_error]
    exact status_tracedRun ..
  · exact (hdrawn.pairwise_iff Fits.symm).mpr (pairwise_drawnCalls hnested hclock _)

/-- A stage of 4 ms, and before it one around a stage that raises, both of which begin at once. -/
def sampleCode : Code (SpanBlock Attribute) Exc :=
  .seq
    (.block { opening := ⟨1, .retrieval, Dict.empty, 0⟩, finishedAt := 5000, durationMs := 5 }
      (.handle
        (.block
          { opening := ⟨2, .semanticRetrieval, Dict.empty, 0⟩, finishedAt := 3000, durationMs := 3 }
          (.raise .crash))
        (fun _ => true) fun _ => .pass))
    (.block { opening := ⟨3, .generation, Dict.empty, 5000⟩, finishedAt := 9000, durationMs := 4 }
      .pass)

/-- What is saved besides the record. -/
def sampleSaveArgs : SaveArgs where
  projectId := 3
  principal := ⟨2, 1⟩
  queryText := []
  strategy := .hybrid
  topK := 10
  model := []
  embeddingModel := none
  evidenceCount := 0

/-- The stage that raises is drawn inside the first one, and the trace has failed. -/
theorem timeline_draws_execution_sample :
    let trace := tracedRun sampleCode { traceId := 7, startedAt := 0 } none none 9000 9
      sampleSaveArgs 0
    ((drawn sampleBackend trace).map fun x => (x.2.depth, x.2.status)).Perm
      [(0, .ok), (1, .error), (0, .ok)] ∧
    (traceTimeline sampleBackend trace).1.status = .error ∧
    stageLatency (loadSpans sampleBackend trace) .generation = some 4 ∧
    (drawn sampleBackend trace).Pairwise Fits := by
  intro trace
  obtain ⟨hdrawn, -, -, hstatus, hlatency, hfits⟩ :=
    timeline_draws_execution sampleBackend sampleCode { traceId := 7, startedAt := 0 } rfl rfl
      (by decide) none none 9000 9 sampleSaveArgs 0
  have hdepths := hdrawn.map fun x => (x.2.depth, x.2.status)
  refine ⟨hdepths, hstatus.mpr (Or.inr ?_), hlatency .generation _ rfl, hfits ?_⟩
  · obtain ⟨x, hx, hfailed⟩ := List.mem_map.mp
      (hdepths.mem_iff.mpr (show (1, SpanStatus.error) ∈ [(0, .ok), (1, .error), (0, .ok)] by simp))
    exact ⟨x, hx, congrArg Prod.snd hfailed⟩
  · unfold Clocked
    decide

end Tenancy
end EvidenceLab
