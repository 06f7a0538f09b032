/-
# The recorded tree is the real one

A collector that is run through well-nested blocks holds one record for each call,
and sorting by the sequence number puts these in the order in which the calls began
(`spans_of_run`): the records are appended as the blocks end, a permutation of that
order.  The parent of a record is the block that was innermost, so the links of a
record lead along the blocks around its call, and the depth that the timeline finds
by walking them is the number of these (`depthOf_record`).
-/

import EvidenceLab.Data.Sorting
import EvidenceLab.Visualization.Timeline

namespace EvidenceLab
namespace Tracing

open Text Data EvidenceLab.Core Runs Visualization

variable {A : Type}

/-! ### The records of calls -/

/-- The frame of a call that is the `n`-th to begin. -/
def frameOf (n : ℕ) (call : Call (Opening A) (Closing A)) : Frame A where
  sequence := n
  spanId := call.opening.spanId
  parent := (call.around.map Opening.spanId).head?
  stage := call.opening.stage
  attributes := call.opening.attributes
  startedAt := call.opening.startedAt

/-- The records of calls, the first of which is the `n`-th to begin. -/
def records : ℕ → List (Call (Opening A) (Closing A)) → List (SpanRecord A)
  | _, [] => []
  | n, call :: rest =>
      (call.closing.map (frameOf n call).record).toList ++ records (n + 1) rest

theorem records_append (n : ℕ) (xs ys : List (Call (Opening A) (Closing A))) :
    records n (xs ++ ys) = records n xs ++ records (n + xs.length) ys := by
  induction xs generalizing n with
  | nil => rfl
  | cons x xs ih =>
      rw [List.cons_append, records, records, ih, List.append_assoc, List.length_cons,
        Nat.add_right_comm, Nat.add_assoc]

/-- Records carry the numbers of their calls, in order. -/
theorem pairwise_records (n : ℕ) (xs : List (Call (Opening A) (Closing A))) :
    (records n xs).Pairwise (fun a b => a.sequence < b.sequence) ∧
      ∀ r ∈ records n xs, n ≤ r.sequence := by
  induction xs generalizing n with
  | nil => exact ⟨List.Pairwise.nil, fun r hr => absurd hr List.not_mem_nil⟩
  | cons x xs ih =>
      obtain ⟨hsorted, hle⟩ := ih (n + 1)
      rw [records]
      cases hc : x.closing with
      | none => exact ⟨hsorted, fun r hr => Nat.le_of_succ_le (hle r hr)⟩
      | some c =>
          refine ⟨List.pairwise_cons.mpr ⟨hle, hsorted⟩, ?_⟩
          intro r hr
          rcases List.mem_cons.mp hr with rfl | hr
          · exact le_rfl
          · exact Nat.le_of_succ_le (hle r hr)

/-- Where every call is closed, a record is read off its call. -/
theorem map_records {β : Type} {f : SpanRecord A → β} {g : Call (Opening A) (Closing A) → β}
    {xs : List (Call (Opening A) (Closing A))}
    (h : ∀ call ∈ xs, ∃ c, call.closing = some c ∧ ∀ n, f ((frameOf n call).record c) = g call)
    (n : ℕ) : (records n xs).map f = xs.map g := by
  induction xs generalizing n with
  | nil => rfl
  | cons x xs ih =>
      obtain ⟨c, hc, hfg⟩ := h x (List.mem_cons_self ..)
      rw [records, hc, Option.map_some, Option.toList_some, List.singleton_append, List.map_cons,
        List.map_cons, hfg, ih fun call hcall => h call (List.mem_cons_of_mem _ hcall)]

/-! ### Running the collector -/

/-- **A run through well-nested blocks** appends a record for each call, in the order
in which the calls end, and leaves the rest of the collector as it was. -/
theorem run_wellNested {es : List (Boundary (Opening A) (Closing A))} (h : WellNested es)
    (x : Execution A) (outer : List (Opening A))
    (hstack : x.collector.stack = outer.map Opening.spanId) :
    ∃ done, done.Perm (records x.collector.sequence (calls outer es)) ∧
      run Execution.step x es = some ⟨{ x.collector with
        sequence := x.collector.sequence + (calls outer es).length
        spans := x.collector.spans ++ done }, x.frames⟩ := by
  induction h generalizing x outer with
  | nil => exact ⟨[], List.Perm.nil, by simp [calls]⟩
  | @call o body c rest hbody hrest ihbody ihrest =>
      have hinner : (x.collector.enter o).1.stack = (o :: outer).map Opening.spanId := by
        rw [List.map_cons, ← hstack]
        rfl
      obtain ⟨done₁, hperm₁, hrun₁⟩ :=
        ihbody ⟨(x.collector.enter o).1, (x.collector.enter o).2 :: x.frames⟩ (o :: outer) hinner
      -- The collector when the block is left.
      let left : TraceCollector A := TraceCollector.exit
        { (x.collector.enter o).1 with
          sequence := x.collector.sequence + 1 + (calls (o :: outer) body).length
          spans := x.collector.spans ++ done₁ } (x.collector.enter o).2 c
      obtain ⟨done₂, hperm₂, hrun₂⟩ := ihrest ⟨left, x.frames⟩ outer hstack
      have hframe : (x.collector.enter o).2 = frameOf x.collector.sequence ⟨o, outer, some c⟩ := by
        simp only [TraceCollector.enter, frameOf, hstack]
      refine ⟨done₁ ++ (x.collector.enter o).2.record c :: done₂, ?_, ?_⟩
      · rw [calls_call _ _ _ _ hbody, records, records_append, Option.map_some,
          Option.toList_some, List.singleton_append, hframe]
        exact List.perm_middle.trans ((hperm₁.append hperm₂).cons _)
      · refine run_cons.mpr ⟨_, rfl, run_append.mpr ⟨_, hrun₁, run_cons.mpr ⟨_, rfl, ?_⟩⟩⟩
        refine hrun₂.trans ?_
        rw [calls_call _ _ _ _ hbody, List.length_cons, List.length_append]
        simp only [left, TraceCollector.exit, TraceCollector.enter, List.tail_cons,
          List.append_assoc, List.singleton_append]
        congr 3
        omega

/-- A collector that starts empty ends with one record for each call, and gives them
in the order in which the calls began. -/
theorem spans_of_run {es : List (Boundary (Opening A) (Closing A))} (h : WellNested es)
    {t : TraceCollector A} (hstack : t.stack = []) (hspans : t.spans = []) :
    ∃ t', run Execution.step ⟨t, []⟩ es = some ⟨t', []⟩ ∧
      t'.spans.Perm (records t.sequence (calls [] es)) ∧
      ∀ code message at_ total,
        (t'.finish code message at_ total).spans = records t.sequence (calls [] es) := by
  obtain ⟨done, hperm, hrun⟩ := run_wellNested h ⟨t, []⟩ [] hstack
  have hdone : (t.spans ++ done).Perm (records t.sequence (calls [] es)) := by
    rw [hspans]
    exact hperm
  refine ⟨_, hrun, hdone, ?_⟩
  intro code message at_ total
  exact mergeSort_eq_of_perm hdone (pairwise_records _ _).1

/-! ### Depth -/

/-- A span as the timeline gets it; `start` is the start of the trace. -/
def spanInput (start : ℤ) (span : SpanRecord A) : SpanInput A where
  spanId := span.spanId.str
  parentSpanId := span.parentSpanId.map Uuid.str
  stage := span.stage
  status := span.status
  offsetMs := (span.startedAt - start) / 1000
  durationMs := span.durationMs
  errorCode := span.errorCode
  attributes := some span.attributes

/-- The ids of what is around a call, as the timeline has them. -/
def ancestors (call : Call (Opening A) (Closing A)) : List Str :=
  call.around.map fun o => o.spanId.str

/-- A record of a call has the innermost block around it as its parent. -/
theorem parentSpanId_spanInput (start : ℤ) (n : ℕ) (call : Call (Opening A) (Closing A))
    (c : Closing A) :
    (spanInput start ((frameOf n call).record c)).parentSpanId = (ancestors call).head? := by
  simp [spanInput, Frame.record, frameOf, ancestors, List.head?_map, Function.comp_def]

/-- A record that is made for a call is a record of the list. -/
theorem mem_records {xs : List (Call (Opening A) (Closing A))}
    {call : Call (Opening A) (Closing A)} {c : Closing A} (hcall : call ∈ xs)
    (hc : call.closing = some c) (n : ℕ) : ∃ m, (frameOf m call).record c ∈ records n xs := by
  induction xs generalizing n with
  | nil => exact absurd hcall List.not_mem_nil
  | cons x xs ih =>
      rw [records]
      rcases List.mem_cons.mp hcall with rfl | hcall
      · refine ⟨n, List.mem_append_left _ ?_⟩
        rw [hc]
        exact List.mem_cons_self ..
      · obtain ⟨m, hm⟩ := ih hcall (n + 1)
        exact ⟨m, List.mem_append_right _ hm⟩

/-- The blocks around a call of a well-nested sequence are a chain of parents. -/
theorem chain_ancestors {es : List (Boundary (Opening A) (Closing A))} (h : WellNested es)
    (start : ℤ) (n : ℕ) {around : List (Opening A)} {call : Call (Opening A) (Closing A)}
    (hcall : call ∈ calls [] es) (haround : call.around = around) :
    Chain ((records n (calls [] es)).map (spanInput start)) (ancestors call) := by
  induction around generalizing call with
  | nil =>
      rw [ancestors, haround]
      trivial
  | cons p rest ih =>
      obtain ⟨call', hcall', rfl, hrest⟩ := exists_call_of_around hcall haround
      obtain ⟨c, hc, -⟩ := closing_of_mem_calls h hcall'
      obtain ⟨m, hm⟩ := mem_records hcall' hc n
      have htail : ancestors call = call'.opening.spanId.str :: ancestors call' := by
        rw [ancestors, haround, ancestors, hrest, List.map_cons]
      rw [htail]
      refine ⟨⟨_, List.mem_map_of_mem hm, rfl, ?_⟩, ih hcall' hrest⟩
      exact parentSpanId_spanInput start m call' c

/-- The records have the ids of the openings. -/
theorem map_spanId_records {es : List (Boundary (Opening A) (Closing A))} (h : WellNested es)
    (n : ℕ) : (records n (calls [] es)).map (·.spanId) = (openings es).map Opening.spanId := by
  rw [← map_opening_calls [] es, List.map_map]
  refine map_records ?_ n
  intro call hcall
  obtain ⟨c, hc, -⟩ := closing_of_mem_calls h hcall
  exact ⟨c, hc, fun _ => rfl⟩

/-- **The depth of a record** is the number of blocks that were open around its call. -/
theorem depthOf_record {es : List (Boundary (Opening A) (Closing A))} (h : WellNested es)
    (hids : ((openings es).map Opening.spanId).Nodup) (start : ℤ) (n m : ℕ)
    {call : Call (Opening A) (Closing A)} {c : Closing A} (hcall : call ∈ calls [] es) :
    depthOf ((records n (calls [] es)).map (spanInput start))
      (spanInput start ((frameOf m call).record c)) = call.around.length := by
  have hkeys : (((records n (calls [] es)).map (spanInput start)).map (·.spanId)).Nodup := by
    have hstr : ((records n (calls [] es)).map fun span => span.spanId.str).Nodup := by
      have hmap := hids.map Uuid.str_injective
      rwa [← map_spanId_records h n, List.map_map] at hmap
    rwa [List.map_map]
  have hnodup : ((call.opening :: call.around).map fun o => o.spanId.str).Nodup := by
    have houter : (([] : List (Opening A)).map Opening.spanId).Nodup := List.nodup_nil
    have hown := nodup_call hids houter (fun _ _ => List.not_mem_nil) hcall
    have hmap := hown.map Uuid.str_injective
    rwa [List.map_map] at hmap
  obtain ⟨hown, hnodup'⟩ := List.nodup_cons.mp hnodup
  rw [depthOf, parentSpanId_spanInput]
  refine (depthFrom_chain hkeys (chain_ancestors h start n hcall rfl) hnodup' ?_).trans
    (List.length_map ..)
  intro p hp hself
  rw [List.mem_singleton.mp hself] at hp
  exact hown hp

/-! ### The recorded tree -/

/-- A trace fails iff it was told it failed or one of its spans did. -/
theorem status_finish (t : TraceCollector A) (code : Option ErrorCode) (message : Option String)
    (finishedAt : ℤ) (total : ℚ) :
    (t.finish code message finishedAt total).status = .error ↔
      code.isSome = true ∨
        ∃ span ∈ (t.finish code message finishedAt total).spans, span.status = .error := by
  have hmem : ∀ span, span ∈ (t.finish code message finishedAt total).spans ↔ span ∈ t.spans :=
    fun span => (List.mergeSort_perm _ _).mem_iff
  simp only [hmem]
  simp only [TraceCollector.finish]
  split_ifs with h
  · exact ⟨fun _ => h, fun _ => rfl⟩
  · exact ⟨(fun hok => by cases hok), fun hno => absurd hno h⟩

/-- A trace of spans that did not fail is not failed by itself. -/
theorem status_finish_ok {t : TraceCollector A} (h : ∀ span ∈ t.spans, span.status ≠ .error)
    (message : Option String) (finishedAt : ℤ) (total : ℚ) :
    (t.finish none message finishedAt total).status = .ok := by
  refine if_neg ?_
  rintro (hsome | ⟨span, hmem, herror⟩)
  · cases hsome
  · exact h span hmem herror

/-- Spans that are in the order of their numbers stay in it. -/
theorem spans_finish {t : TraceCollector A}
    (h : t.spans.Pairwise fun a b => a.sequence < b.sequence) (code : Option ErrorCode)
    (message : Option String) (finishedAt : ℤ) (total : ℚ) :
    (t.finish code message finishedAt total).spans = t.spans :=
  mergeSort_eq_of_perm (List.Perm.refl _) h

/-- **The recorded tree is the real one.**  After any well-nested blocks, of which any
may be left by an exception, the spans are those of the blocks, in the order in which
they were entered; the parent of each is the innermost block around it, it failed iff
an exception left it, and, their ids being different, its depth on the timeline is the number of
blocks around it. -/
theorem finish_of_wellNested {es : List (Boundary (Opening A) (Closing A))} (h : WellNested es)
    (hexceptions : ∀ c, Boundary.closing c ∈ es → ∀ e, c.raised = some e → e.isException = true)
    (traceId : Uuid) (startedAt : ℤ) (code : Option ErrorCode) (message : Option String)
    (finishedAt : ℤ) (total : ℚ) :
    ∃ t : TraceCollector A,
      run Execution.step ⟨{ traceId, startedAt }, []⟩ es = some ⟨t, []⟩ ∧
      let record := t.finish code message finishedAt total
      record.spans.map (·.spanId) = (openings es).map (·.spanId) ∧
      record.spans.map (·.parentSpanId) =
        (calls [] es).map (fun call => call.around.head?.map (·.spanId)) ∧
      record.spans.map (·.status) =
        (calls [] es).map (fun call =>
          if call.closing.any (·.raised.isSome) then .error else .ok) ∧
      (record.status = .error ↔
        code.isSome = true ∨ ∃ span ∈ record.spans, span.status = .error) ∧
      (((openings es).map Opening.spanId).Nodup →
        (buildTimeline record.traceId.str record.totalLatencyMs record.status
            (record.spans.map (spanInput record.startedAt))).bars.map (·.depth) =
          (calls [] es).map (fun call => call.around.length)) := by
  obtain ⟨t, hrun, -, hspans⟩ :=
    spans_of_run h (t := { traceId, startedAt : TraceCollector A }) rfl rfl
  have hclosed := fun call (hcall : call ∈ calls [] es) => closing_of_mem_calls h hcall
  refine ⟨t, hrun, ?_, ?_, ?_, status_finish .., fun hids => ?_⟩
  · rw [hspans]
    exact map_spanId_records h _
  · rw [hspans]
    refine map_records (fun call hcall => (hclosed call hcall).imp fun c hc => ⟨hc.1, ?_⟩) _
    intro n
    simp [Frame.record, frameOf]
  · rw [hspans]
    refine map_records (fun call hcall => (hclosed call hcall).imp fun c hc => ⟨hc.1, ?_⟩) _
    intro n
    rw [hc.1, Option.any_some]
    exact Closing.status_of_exceptions (hexceptions c hc.2)
  · rw [hspans, buildTimeline, List.map_map, List.map_map]
    refine map_records (fun call hcall => (hclosed call hcall).imp fun c hc => ⟨hc.1, ?_⟩) _
    intro n
    exact depthOf_record h hids _ _ _ hcall

/-- A block that raises. -/
def failingBlock : List (Boundary (Opening Unit) (Closing Unit)) :=
  [.opening ⟨2, .generation, Dict.empty, 0⟩, .closing ⟨some .crash, "boom", Dict.empty, 1, 1⟩]

/-- The same inside one that goes on. -/
def nestedBlocks : List (Boundary (Opening Unit) (Closing Unit)) :=
  .opening ⟨1, .retrieval, Dict.empty, 0⟩ ::
    (failingBlock ++ [.closing ⟨none, "", Dict.empty, 1, 1⟩])

theorem finish_of_nestedBlocks :
    ∃ t : TraceCollector Unit,
      run Execution.step ⟨{ traceId := 0, startedAt := 0 }, []⟩ nestedBlocks = some ⟨t, []⟩ ∧
      let record := t.finish none none 1 1
      record.spans.map (·.parentSpanId) = [none, some 1] ∧
      record.spans.map (·.status) = [.ok, .error] ∧
      (buildTimeline record.traceId.str record.totalLatencyMs record.status
        (record.spans.map (spanInput record.startedAt))).bars.map (·.depth) = [0, 1] := by
  have hfailing : WellNested failingBlock := .call _ _ .nil .nil
  have hnested : WellNested nestedBlocks := .call _ _ hfailing .nil
  obtain ⟨t, hrun, -, hparents, hstatus, -, hdepths⟩ :=
    finish_of_wellNested hnested (by simp [nestedBlocks, failingBlock, Exc.isException])
      0 0 none none 1 1
  exact ⟨t, hrun, hparents, hstatus, hdepths (by decide)⟩

end Tracing
end EvidenceLab
