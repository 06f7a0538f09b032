/-
# Stored traces

`TraceService.save` of `app/services/trace_service.py` and the relationship
`Trace.spans` of `app/models/trace.py`.  A span is stored without its sequence number,
and the spans of a trace are read back ordered by their start: any order of the rows
that the timestamps allow may come back.  So the order of execution survives exactly
when no two spans share their timestamp (`readsBack_iff`).
-/

import EvidenceLab.Tracing.Tree

namespace EvidenceLab
namespace Tracing

open Data EvidenceLab.Core Runs

variable {A : Type}

/-- `TraceSpan`: the stored columns of a span. -/
structure TraceSpanRow (A : Type) where
  id : Uuid
  traceId : Uuid
  parentSpanId : Option Uuid
  stage : TraceStage
  status : SpanStatus
  startedAt : ℤ
  finishedAt : ℤ
  durationMs : ℚ
  attributes : Dict String A
  errorCode : Option ErrorCode
  errorMessage : Option String

/-- The row that `save` makes of a span. -/
def spanRow (traceId : Uuid) (span : SpanRecord A) : TraceSpanRow A where
  id := span.spanId
  traceId := traceId
  parentSpanId := span.parentSpanId
  stage := span.stage
  status := span.status
  startedAt := span.startedAt
  finishedAt := span.finishedAt
  durationMs := span.durationMs
  attributes := span.attributes
  errorCode := span.errorCode
  errorMessage := span.errorMessage

/-- The rows that `save` adds for the spans of a trace, in the recorded order. -/
def savedSpans (record : TraceRecord A) : List (TraceSpanRow A) :=
  record.spans.map (spanRow record.traceId)

/-- The lists that reading `trace.spans` may give: the saved rows in any order that
its `order_by` allows. -/
def ReadBack (record : TraceRecord A) (rows : List (TraceSpanRow A)) : Prop :=
  rows.Perm (savedSpans record) ∧ rows.Pairwise fun a b => a.startedAt ≤ b.startedAt

/-- No span comes before its parent. -/
def ParentsFirst (rows : List (TraceSpanRow A)) : Prop :=
  rows.Pairwise fun a b => a.parentSpanId ≠ some b.id

/-- Whatever is read back has the recorded order, and keeps every parent first if that
does. -/
def ReadsBack (record : TraceRecord A) : Prop :=
  ∀ rows, ReadBack record rows →
    rows = savedSpans record ∧ (ParentsFirst (savedSpans record) → ParentsFirst rows)

theorem map_startedAt_savedSpans (record : TraceRecord A) :
    (savedSpans record).map (·.startedAt) = record.spans.map (·.startedAt) := by
  rw [savedSpans, List.map_map]
  rfl

theorem sorted_savedSpans {record : TraceRecord A} :
    (savedSpans record).Pairwise (fun a b => a.startedAt ≤ b.startedAt) ↔
      record.spans.Pairwise fun a b => a.startedAt ≤ b.startedAt :=
  List.pairwise_map

/-- Spans with ids of their own are saved as rows of their own. -/
theorem nodup_savedSpans {record : TraceRecord A} (hids : (record.spans.map (·.spanId)).Nodup) :
    (savedSpans record).Nodup := by
  refine List.Nodup.of_map (·.id) ?_
  rw [savedSpans, List.map_map]
  exact hids

/-- **The order of execution survives iff no two spans share their timestamp.** -/
theorem readsBack_iff {record : TraceRecord A}
    (hsorted : record.spans.Pairwise fun a b => a.startedAt ≤ b.startedAt)
    (hids : (record.spans.map (·.spanId)).Nodup) :
    ReadsBack record ↔ (record.spans.map (·.startedAt)).Nodup := by
  have hsaved := sorted_savedSpans.mpr hsorted
  rw [← map_startedAt_savedSpans]
  constructor
  · intro h
    by_contra hdup
    obtain ⟨rows, hperm, hrows, hne⟩ :=
      exists_perm_of_not_nodup hsaved hdup (nodup_savedSpans hids)
    exact hne (h rows ⟨hperm, hrows⟩).1
  · rintro hnodup rows ⟨hperm, hrows⟩
    have hstrict : (savedSpans record).Pairwise fun a b => a.startedAt < b.startedAt :=
      (hsaved.and (List.pairwise_map.mp hnodup)).imp fun h => lt_of_le_of_ne h.1 h.2
    obtain rfl := eq_of_perm hperm hrows hstrict
    exact ⟨rfl, id⟩

/-- A trace of two stages that began at different times. -/
def twoTicks : TraceRecord Unit :=
  { traceId := 0, status := .ok, startedAt := 0, finishedAt := 3, totalLatencyMs := 3
    spans := [⟨0, 1, none, .retrieval, .ok, 0, 3, 3, Dict.empty, none, none⟩,
      ⟨1, 2, some 1, .semanticRetrieval, .ok, 1, 2, 1, Dict.empty, none, none⟩] }

theorem twoTicks_readsBack : ReadsBack twoTicks :=
  (readsBack_iff (by decide) (by decide)).mpr (by decide)

/-- A trace of two stages, one inside the other, on a clock that does not tell their
starts apart. -/
def oneTick : TraceCollector Unit :=
  let t : TraceCollector Unit := { traceId := 0, startedAt := 0 }
  let (t, outer) := t.enter ⟨1, .retrieval, Dict.empty, 0⟩
  let (t, inner) := t.enter ⟨2, .semanticRetrieval, Dict.empty, 0⟩
  (t.exit inner ⟨none, "", Dict.empty, 1, 1⟩).exit outer ⟨none, "", Dict.empty, 1, 1⟩

/-- The rows of that trace, in the order in which its stages began. -/
theorem savedSpans_oneTick :
    savedSpans (oneTick.finish none none 1 1) = oneTick.spans.reverse.map (spanRow 0) := by
  have hspans : (oneTick.finish none none 1 1).spans = oneTick.spans.reverse := by
    refine mergeSort_eq_of_perm (List.reverse_perm _).symm ?_
    simp [oneTick, TraceCollector.enter, TraceCollector.exit, Frame.record]
  rw [savedSpans, hspans]
  rfl

/-- The stage inside may be read back before the one around it. -/
theorem oneTick_not_readsBack :
    (oneTick.finish none none 1 1).spans.Pairwise (fun a b => a.startedAt ≤ b.startedAt) ∧
      ParentsFirst (savedSpans (oneTick.finish none none 1 1)) ∧
      ¬ ReadsBack (oneTick.finish none none 1 1) := by
  have hfirst : ParentsFirst (savedSpans (oneTick.finish none none 1 1)) := by
    rw [savedSpans_oneTick]
    unfold ParentsFirst
    decide
  have hread : ReadBack (oneTick.finish none none 1 1) (oneTick.spans.map (spanRow 0)) := by
    rw [ReadBack, savedSpans_oneTick]
    exact ⟨(List.reverse_perm _).symm.map _, by decide⟩
  refine ⟨sorted_savedSpans.mp ?_, hfirst, ?_⟩
  · rw [savedSpans_oneTick]
    decide
  · intro h
    have hswapped : ¬ ParentsFirst (oneTick.spans.map (spanRow 0)) := by
      unfold ParentsFirst
      decide
    exact hswapped ((h _ hread).2 hfirst)

end Tracing
end EvidenceLab
