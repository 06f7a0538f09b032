/-
# What a raising stage records

`TraceCollector.span` as the context manager it is: whatever leaves the block is raised again,
and the block adds its record.  The record fails iff a handler of the block sees what leaves it,
and these see what derives from `Exception`.  So a cancelled stage is recorded as one that went
well, and no other raising stage is (`raising_recorded_iff`).

A run of code with spans makes a well-nested sequence of openings and closings, and goes through
the states of its execution (`run_boundaries`).
-/

import EvidenceLab.Runs.Blocks
import EvidenceLab.Tracing.Recorder

namespace EvidenceLab
namespace Tracing

open Data EvidenceLab.Core Runs

variable {A : Type}

/-! ### Spans as blocks -/

/-- A `span` block, but for what leaves it: its opening, `str` of an exception, the attributes
that are set inside, and the time. -/
structure SpanBlock (A : Type) where
  opening : Opening A
  text : Exc → String := fun _ => ""
  attributes : Dict String A := Dict.empty
  finishedAt : ℤ
  durationMs : ℚ

/-- The exit of the block. -/
def SpanBlock.closing (b : SpanBlock A) (raised : Option Exc) : Closing A where
  raised := raised
  text := raised.elim "" b.text
  attributes := b.attributes
  finishedAt := b.finishedAt
  durationMs := b.durationMs

/-- `span`. -/
def span : Manager (SpanBlock A) Exc (TraceCollector A) where
  enter b t := (t.enter b.opening).1
  exit b before raised t := t.exit (before.enter b.opening).2 (b.closing raised)

/-! ### The records -/

/-- The record of a block that ended with this. -/
def RecordOf (b : SpanBlock A × Option Exc) (r : SpanRecord A) : Prop :=
  r.spanId = b.1.opening.spanId ∧ r.stage = b.1.opening.stage ∧
    r.status = (b.1.closing b.2).status ∧ r.errorCode = (b.1.closing b.2).errorCode

/-- **Each block adds its record** when it ends. -/
theorem records_run (code : Code (SpanBlock A) Exc) (t : TraceCollector A) :
    ∃ new, (span.run code t).2.spans = t.spans ++ new ∧ List.Forall₂ RecordOf code.left new := by
  refine span.run_rule (R := fun t ended t' =>
    ∃ new, t'.spans = t.spans ++ new ∧ List.Forall₂ RecordOf ended new) ?_ ?_ ?_ code t
  · exact fun t => ⟨[], (List.append_nil _).symm, .nil⟩
  · rintro t t' t'' ended ended' ⟨new, hspans, hnew⟩ ⟨new', hspans', hnew'⟩
    refine ⟨new ++ new', ?_, List.rel_append hnew hnew'⟩
    rw [hspans', hspans, List.append_assoc]
  · rintro b t t' ended raised ⟨new, hspans, hnew⟩
    refine ⟨new ++ [(t.enter b.opening).2.record (b.closing raised)], ?_,
      List.rel_append hnew (.cons ⟨rfl, rfl, rfl, rfl⟩ .nil)⟩
    rw [← List.append_assoc]
    exact congrArg (· ++ [_]) hspans

/-- A record fails iff what left its block is an `Exception`, and then has an error code. -/
theorem RecordOf.status_eq_error {b : SpanBlock A × Option Exc} {r : SpanRecord A}
    (h : RecordOf b r) :
    (r.status = .error ↔ ∃ e, b.2 = some e ∧ e.isException = true) ∧
      (r.errorCode.isSome = true ↔ r.status = .error) := by
  obtain ⟨-, -, hstatus, hcode⟩ := h
  rw [hstatus, hcode]
  exact ⟨Closing.status_eq_error, Closing.errorCode_isSome⟩

/-! ### Raising stages -/

theorem exists_of_mem_left {α β : Type*} {R : α → β → Prop} {l : List α} {l' : List β}
    (h : List.Forall₂ R l l') {a : α} (ha : a ∈ l) : ∃ b ∈ l', R a b := by
  induction h with
  | nil => cases ha
  | cons hab _ ih =>
      rcases List.mem_cons.mp ha with rfl | ha
      · exact ⟨_, List.mem_cons_self .., hab⟩
      · obtain ⟨b, hb, hR⟩ := ih ha
        exact ⟨b, List.mem_cons_of_mem _ hb, hR⟩

/-- No raising stage is recorded as one that went well: what is raised is raised unchanged, the
spans that it leaves have failed with an error code, and so has the trace. -/
def RaisingRecorded (code : Code (SpanBlock A) Exc) (t : TraceCollector A) : Prop :=
  (span.run code t).1 = code.raises ∧
  (∃ new, (span.run code t).2.spans = t.spans ++ new ∧
    List.Forall₂ (fun b r => r.spanId = b.1.opening.spanId ∧
      (b.2.isSome = true → r.status = .error ∧ r.errorCode.isSome = true)) code.left new) ∧
  ((∃ b ∈ code.left, b.2.isSome = true) → ∀ errorCode errorMessage finishedAt totalLatencyMs,
    ((span.run code t).2.finish errorCode errorMessage finishedAt totalLatencyMs).status = .error)

/-- A trace with a failed span has failed. -/
theorem status_finish_of_mem {t : TraceCollector A} {r : SpanRecord A} (hr : r ∈ t.spans)
    (h : r.status = .error) (errorCode : Option ErrorCode) (errorMessage : Option String)
    (finishedAt : ℤ) (totalLatencyMs : ℚ) :
    (t.finish errorCode errorMessage finishedAt totalLatencyMs).status = .error :=
  if_pos (Or.inr ⟨r, hr, h⟩)

/-- **A raising stage is never recorded as one that went well iff** whatever leaves a span is an
`Exception`. -/
theorem raising_recorded_iff (code : Code (SpanBlock A) Exc) (t : TraceCollector A) :
    RaisingRecorded code t ↔ ∀ b ∈ code.left, ∀ e, b.2 = some e → e.isException = true := by
  obtain ⟨new, hspans, hnew⟩ := records_run code t
  constructor
  · rintro ⟨-, ⟨new', hspans', hnew'⟩, -⟩
    obtain rfl : new' = new := List.append_cancel_left (hspans'.symm.trans hspans)
    intro b hb e he
    obtain ⟨r, -, ⟨-, hfails⟩, hrecord⟩ :=
      exists_of_mem_left (hnew'.mp (fun _ _ => And.intro) hnew) hb
    obtain ⟨e', he', hexception⟩ := hrecord.status_eq_error.1.mp (hfails (he ▸ rfl)).1
    rw [Option.some.inj (he.symm.trans he')]
    exact hexception
  · intro hexceptions
    have hfails : List.Forall₂ (fun b r => r.spanId = b.1.opening.spanId ∧
        (b.2.isSome = true → r.status = .error ∧ r.errorCode.isSome = true)) code.left new := by
      refine ((List.forall₂_and_left _ _).mpr ⟨hexceptions, hnew⟩).imp ?_
      rintro b r ⟨hexception, hrecord⟩
      refine ⟨hrecord.1, fun hraised => ?_⟩
      obtain ⟨e, he⟩ := Option.isSome_iff_exists.mp hraised
      have hstatus := hrecord.status_eq_error.1.mpr ⟨e, he, hexception e he⟩
      exact ⟨hstatus, hrecord.status_eq_error.2.mpr hstatus⟩
    refine ⟨span.run_fst code t, ⟨new, hspans, hfails⟩, ?_⟩
    rintro ⟨b, hb, hraised⟩ errorCode errorMessage finishedAt totalLatencyMs
    obtain ⟨r, hr, -, hfailed⟩ := exists_of_mem_left hfails hb
    have hin : r ∈ (span.run code t).2.spans := hspans ▸ List.mem_append_right _ hr
    exact status_finish_of_mem hin (hfailed hraised).1 _ _ _ _

/-- A stage that is cancelled. -/
def cancelledStage : Code (SpanBlock Empty) Exc :=
  .block { opening := ⟨0, .generation, Dict.empty, 0⟩, finishedAt := 1, durationMs := 1 }
    (.raise .cancelled)

/-- **A cancelled stage is recorded as one that went well.** -/
theorem cancelled_recorded_ok :
    ¬ ∀ (code : Code (SpanBlock Empty) Exc) (t : TraceCollector Empty), RaisingRecorded code t := by
  intro hclaim
  obtain ⟨-, -, hfinish⟩ := hclaim cancelledStage { traceId := 1, startedAt := 0 }
  have hfailed := hfinish ⟨_, List.mem_singleton_self _, rfl⟩ none none 2 2
  exact absurd hfailed (by decide)

/-! ### Executions -/

/-- What is entered and left when the code runs, in order. -/
def boundaries : Code (SpanBlock A) Exc → List (Boundary (Opening A) (Closing A))
  | .pass => []
  | .raise _ => []
  | .block b body => .opening b.opening :: (boundaries body ++ [.closing (b.closing body.raises)])
  | .seq first next => boundaries first ++ first.raises.elim (boundaries next) fun _ => []
  | .handle body catches handler =>
      boundaries body ++ body.raises.elim [] fun e =>
        if catches e then boundaries (handler e) else []

/-- Blocks are well-nested. -/
theorem wellNested_boundaries (code : Code (SpanBlock A) Exc) : WellNested (boundaries code) := by
  induction code with
  | pass => exact .nil
  | raise e => exact .nil
  | block b body ih => exact .call _ _ ih .nil
  | seq first next ihfirst ihnext =>
      refine ihfirst.append ?_
      cases first.raises with
      | none => exact ihnext
      | some e => exact .nil
  | handle body catches handler ihbody ihhandler =>
      refine ihbody.append ?_
      cases body.raises with
      | none => exact .nil
      | some e =>
          rw [Option.elim_some]
          split_ifs
          · exact ihhandler e
          · exact .nil

/-- **A run of the code is an execution** through its openings and closings. -/
theorem run_boundaries (code : Code (SpanBlock A) Exc) (t : TraceCollector A)
    (frames : List (Frame A)) :
    run Execution.step ⟨t, frames⟩ (boundaries code) = some ⟨(span.run code t).2, frames⟩ := by
  induction code generalizing t frames with
  | pass => rfl
  | raise e => rfl
  | block b body ih =>
      refine run_cons.mpr ⟨_, rfl, run_append.mpr ⟨_, ih _ _, run_cons.mpr ⟨_, rfl, ?_⟩⟩⟩
      rw [Manager.run, span.run_fst]
      rfl
  | seq first next ihfirst ihnext =>
      refine run_append.mpr ⟨_, ihfirst t frames, ?_⟩
      rw [Manager.run, span.run_fst]
      cases first.raises with
      | none => exact ihnext _ _
      | some e => rfl
  | handle body catches handler ihbody ihhandler =>
      refine run_append.mpr ⟨_, ihbody t frames, ?_⟩
      rw [Manager.run, span.run_fst]
      cases body.raises with
      | none => rfl
      | some e =>
          rw [Option.elim_some, Option.elim_some]
          split_ifs
          · exact ihhandler e _ _
          · rfl

end Tracing
end EvidenceLab
