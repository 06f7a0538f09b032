/-
# The execution timeline

`visualization/traces/timeline.py`: one bar for each span, its depth found by walking
the parent links.  The walk stops at a parent that is missing or was met before, so
it ends on any list of spans (`depthFrom`), and on a list in which the links of a
span lead along a chain it counts the chain (`depthFrom_chain`).
-/

import EvidenceLab.Tracing.Recorder

namespace EvidenceLab
namespace Visualization

open Text Data EvidenceLab.Core Tracing

variable {A : Type}

/-- `SpanInput`: a stored span, flattened out of the ORM. -/
structure SpanInput (A : Type) where
  spanId : Str
  parentSpanId : Option Str
  stage : TraceStage
  status : SpanStatus
  offsetMs : ℚ
  durationMs : ℚ
  errorCode : Option ErrorCode := none
  attributes : Option (Dict String A) := none

/-- `TimelineBar`: one stage on the execution timeline. -/
structure TimelineBar (A : Type) where
  spanId : Str
  stage : TraceStage
  status : SpanStatus
  depth : ℕ
  offsetMs : ℚ
  durationMs : ℚ
  errorCode : Option ErrorCode
  attributes : Dict String A

/-- `Timeline`. -/
structure Timeline (A : Type) where
  traceId : Str
  totalMs : ℚ
  status : SpanStatus
  bars : List (TimelineBar A)

/-- The keys of a dictionary that are not seen yet. -/
def unseen (byId : Dict Str (SpanInput A)) (seen : List Str) : List Str :=
  byId.keys.filter fun k => !seen.contains k

/-- Seeing a key leaves fewer. -/
theorem length_unseen_cons {byId : Dict Str (SpanInput A)} {seen : List Str} {p : Str}
    (hp : p ∈ byId.keys) (hseen : p ∉ seen) :
    (unseen byId (p :: seen)).length < (unseen byId seen).length := by
  have hcut : unseen byId (p :: seen) = (unseen byId seen).filter fun k => k ≠ p := by
    unfold unseen
    rw [List.filter_filter]
    refine List.filter_congr fun k _ => ?_
    simp [List.mem_cons]
  rw [hcut]
  have hmem : p ∈ unseen byId seen := List.mem_filter.mpr ⟨hp, by simpa using hseen⟩
  exact List.length_filter_lt_length_iff_exists.mpr ⟨p, hmem, by simp⟩

/-- The loop of `depth_of`: how often it turns. -/
def depthFrom (byId : Dict Str (SpanInput A)) (seen : List Str) (parent : Option Str) : ℕ :=
  match parent with
  | none => 0
  | some p =>
      if h : p ∈ byId.keys ∧ p ∉ seen then
        depthFrom byId (p :: seen) ((byId.get? p).bind (·.parentSpanId)) + 1
      else 0
termination_by (unseen byId seen).length
decreasing_by exact length_unseen_cons h.1 h.2

/-- `{span.span_id: span for span in spans}`. -/
def byId (spans : List (SpanInput A)) : Dict Str (SpanInput A) :=
  spans.foldl (fun d span => d.set span.spanId span) Dict.empty

/-- `depth_of`. -/
def depthOf (spans : List (SpanInput A)) (span : SpanInput A) : ℕ :=
  depthFrom (byId spans) [span.spanId] span.parentSpanId

/-- `build_timeline`. -/
def buildTimeline (traceId : Str) (totalMs : ℚ) (status : SpanStatus)
    (spans : List (SpanInput A)) : Timeline A where
  traceId := traceId
  totalMs := totalMs
  status := status
  bars := spans.map fun span =>
    { spanId := span.spanId
      stage := span.stage
      status := span.status
      depth := depthOf spans span
      offsetMs := span.offsetMs
      durationMs := span.durationMs
      errorCode := span.errorCode
      attributes := span.attributes.getD Dict.empty }

/-! ### Walking a chain -/

/-- A span is found under its id, when no other has it. -/
theorem get?_byId {spans : List (SpanInput A)} (hids : (spans.map (·.spanId)).Nodup)
    {span : SpanInput A} (hspan : span ∈ spans) :
    (byId spans).get? span.spanId = some span := by
  have hfold : byId spans =
      (spans.map fun s => (s.spanId, s)).foldl (fun d e => d.set e.1 e.2) Dict.empty := by
    rw [List.foldl_map]
    rfl
  rw [hfold]
  refine Dict.get?_foldl_set (List.mem_map_of_mem hspan) ?_
  intro other hother
  obtain ⟨s, hs, heq⟩ := List.mem_map.mp hother
  obtain ⟨hid, rfl⟩ := Prod.mk.inj heq
  exact List.inj_on_of_nodup_map hids hs hspan hid

theorem mem_keys_byId {spans : List (SpanInput A)} {id : Str} :
    id ∈ (byId spans).keys ↔ ∃ span ∈ spans, span.spanId = id := by
  rw [byId, ← List.mem_map]
  exact (Dict.mem_keys_foldl_alter (fun s : SpanInput A => s.spanId) (fun _ s => s)).trans
    (or_iff_right List.not_mem_nil)

/-- A chain of parents: each is a span of the list, whose parent is the next one. -/
def Chain (spans : List (SpanInput A)) : List Str → Prop
  | [] => True
  | p :: rest =>
      (∃ span ∈ spans, span.spanId = p ∧ span.parentSpanId = rest.head?) ∧ Chain spans rest

/-- **The walk along a chain counts it.** -/
theorem depthFrom_chain {spans : List (SpanInput A)} (hids : (spans.map (·.spanId)).Nodup)
    {chain seen : List Str} (hchain : Chain spans chain) (hnodup : chain.Nodup)
    (hseen : ∀ p ∈ chain, p ∉ seen) :
    depthFrom (byId spans) seen chain.head? = chain.length := by
  induction chain generalizing seen with
  | nil => rw [List.head?_nil, depthFrom, List.length_nil]
  | cons p rest ih =>
      obtain ⟨⟨span, hspan, rfl, hparent⟩, hrest⟩ := hchain
      obtain ⟨hnew, hnodup'⟩ := List.nodup_cons.mp hnodup
      have hunseen : span.spanId ∉ seen := hseen _ (List.mem_cons_self ..)
      have hnext : ∀ q ∈ rest, q ∉ span.spanId :: seen := by
        intro q hq hmem
        rcases List.mem_cons.mp hmem with rfl | hmem
        · exact hnew hq
        · exact hseen q (List.mem_cons_of_mem _ hq) hmem
      rw [List.head?_cons, depthFrom, dif_pos ⟨mem_keys_byId.mpr ⟨span, hspan, rfl⟩, hunseen⟩,
        get?_byId hids hspan, Option.bind_some, hparent, ih hrest hnodup' hnext, List.length_cons]

end Visualization
end EvidenceLab
