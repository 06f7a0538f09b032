/-
# Which executions leave a trace

`create_query` promises a trace of every execution, a failed one included.  What it
does: an execution behind its checks leaves its one trace, with a span for each stage
that was entered and the status of the request, exactly when no stage is left by
anything but a `DomainError` and the commit that saves the trace is carried out, and,
if the execution answered, raises nothing and the cost does not overflow (`traced_iff`).
Another exception, or a cancellation, passes `except DomainError` and leaves no trace at
all.
-/

import EvidenceLab.Reasoning.Traced

namespace EvidenceLab
namespace Reasoning

open Text Data EvidenceLab.Core Runs Tracing

variable {deps : TracedDeps} {request : QueryRequest} {project : Uuid}
  {generator : AnswerGenerator}

/-- The stages that an execution enters: generation only with evidence to generate from. -/
def enteredStages (deps : TracedDeps) (request : QueryRequest) (project : Uuid) :
    List TraceStage :=
  match deps.retrieve request.strategy ⟨request.query, project, request.topK⟩ with
  | .error _ => [.retrieval]
  | .ok _ => [.retrieval, .generation]

/-- An execution leaves one trace, with a span for each stage it entered, which failed
iff the request raised. -/
def LeavesTrace {α : Type} (stages : List TraceStage) (r : Except Exc α × List SavedTrace) :
    Prop :=
  ∃ saved, r.2 = [saved] ∧ saved.spans.map (·.stage) = stages ∧
    (saved.status = .error ↔ ∃ e, r.1 = .error e)

/-- Nothing but a `DomainError` leaves a stage, and the trace is saved; if the execution
answered, its cost can be computed and the save raises nothing. -/
def Reported (deps : TracedDeps) (request : QueryRequest) (project : Uuid)
    (generator : AnswerGenerator) : Prop :=
  match deps.retrieve request.strategy ⟨request.query, project, request.topK⟩ with
  | .error e => e.domain? ≠ none ∧ deps.commit.Lands
  | .ok evidence =>
      match generator.generate request.query evidence ⟨0, deps.maxOutputTokens⟩ with
      | .error e => e.domain? ≠ none ∧ deps.commit.Lands
      | .ok answer =>
          (∃ cost, estimateCost deps.inputRate deps.outputRate answer.usage.inputTokens
            answer.usage.outputTokens = .ok cost) ∧ deps.commit.raised = none

/-! ### The stages -/

/-- Retrieval gives what the retriever gives, and adds the first span. -/
theorem retrieveTraced_spec (deps : TracedDeps) (request : QueryRequest) (project : Uuid) :
    ∃ (t : TraceCollector Attribute) (span : SpanRecord Attribute),
      retrieveTraced deps request project (newTrace deps request) =
        (deps.retrieve request.strategy ⟨request.query, project, request.topK⟩, t) ∧
      t = { newTrace deps request with sequence := 1, spans := [span] } ∧
      span.stage = .retrieval ∧ span.sequence = 0 ∧
      ∀ evidence,
        deps.retrieve request.strategy ⟨request.query, project, request.topK⟩ = .ok evidence →
          span.status ≠ .error := by
  obtain ⟨span, ht, hstage, hseq, hstatus⟩ := (newTrace deps request).within_snd
    ⟨deps.retrievalSpan, .retrieval, keywords [("strategy", .name request.strategy.str)],
      deps.clock 1⟩
    deps.excText (deps.clock 2) (deps.elapsed 2)
    ((deps.retrieve request.strategy ⟨request.query, project, request.topK⟩).map fun evidence =>
      (evidence, update
        (if request.strategy = .adaptive then deps.analysis request.query else Dict.empty)
        (keywords [("candidate_count", .number evidence.length),
          ("sources", .names (sources evidence))])))
  refine ⟨_, span, Prod.ext ?_ rfl, ht, hstage, hseq, ?_⟩
  · refine (TraceCollector.within_fst ..).trans ?_
    cases deps.retrieve request.strategy ⟨request.query, project, request.topK⟩ <;> rfl
  · intro found hfound herror
    obtain ⟨e, he, -⟩ := hstatus.mp herror
    rw [hfound] at he
    cases he

/-- Generation gives what the generator gives, and adds a span after those there. -/
theorem generateTraced_spec (deps : TracedDeps) (request : QueryRequest)
    (generator : AnswerGenerator) (evidence : List RetrievedChunk) (t : TraceCollector Attribute) :
    ∃ (t' : TraceCollector Attribute) (span : SpanRecord Attribute),
      generateTraced deps request generator evidence t =
        (generator.generate request.query evidence ⟨0, deps.maxOutputTokens⟩, t') ∧
      t' = { t with sequence := t.sequence + 1, spans := t.spans ++ [span] } ∧
      span.stage = .generation ∧ span.sequence = t.sequence ∧
      ∀ answer,
        generator.generate request.query evidence ⟨0, deps.maxOutputTokens⟩ = .ok answer →
          span.status ≠ .error := by
  obtain ⟨span, ht, hstage, hseq, hstatus⟩ := t.within_snd
    ⟨deps.generationSpan, .generation, keywords [("model", .text generator.modelId)],
      deps.clock 3⟩
    deps.excText (deps.clock 4) (deps.elapsed 4)
    ((generator.generate request.query evidence ⟨0, deps.maxOutputTokens⟩).map fun answer =>
      (answer, keywords [("claims", .number answer.claims.length),
        ("abstained", .flag answer.abstained),
        ("invented_citations", .number (answer.metadata.inventedCitations.getD 0)),
        ("input_tokens", .number answer.usage.inputTokens),
        ("output_tokens", .number answer.usage.outputTokens)]))
  refine ⟨_, span, Prod.ext ?_ rfl, ht, hstage, hseq, ?_⟩
  · refine (TraceCollector.within_fst ..).trans ?_
    cases generator.generate request.query evidence ⟨0, deps.maxOutputTokens⟩ <;> rfl
  · intro answer hanswer herror
    obtain ⟨e, he, -⟩ := hstatus.mp herror
    rw [hanswer] at he
    cases he

/-! ### Saving -/

/-- The stages of a saved trace are those of the collector's spans. -/
theorem stages_savedTrace {t : TraceCollector Attribute} {args : SaveArgs}
    (h : t.spans.Pairwise fun a b => a.sequence < b.sequence) (code : Option ErrorCode)
    (message : Option String) (finishedAt : ℤ) (total : ℚ) :
    (savedTrace (t.finish code message finishedAt total) args).spans.map (·.stage) =
      t.spans.map (·.stage) := by
  show ((t.finish code message finishedAt total).spans.map _).map _ = _
  rw [spans_finish h, List.map_map]
  rfl

@[simp] theorem status_savedTrace (record : TraceRecord Attribute) (args : SaveArgs) :
    (savedTrace record args).status = record.status := rfl

/-- A trace that is saved is left behind iff the save is carried out and the status is
that of the outcome. -/
theorem leavesTrace_saving {α : Type} {saved : SavedTrace} {outcome : Except Exc α}
    {stages : List TraceStage} (hstages : saved.spans.map (·.stage) = stages) :
    LeavesTrace stages (saving deps saved outcome) ↔
      deps.commit.Lands ∧
        (saved.status = .error ↔ ∃ e, (saving deps saved outcome).1 = .error e) := by
  constructor
  · rintro ⟨saved', hrows, -, hstatus⟩
    simp only [saving] at hrows
    split_ifs at hrows with hlands
    obtain rfl := List.singleton_inj.mp hrows
    exact ⟨hlands, hstatus⟩
  · rintro ⟨hlands, hstatus⟩
    refine ⟨saved, ?_, hstages, hstatus⟩
    simp only [saving, if_pos hlands]

/-- An execution that answered raises iff its save does. -/
theorem exists_error_saving {α : Type} {saved : SavedTrace} {a : α} :
    (∃ e, (saving deps saved (.ok a)).1 = .error e) ↔ deps.commit.raised ≠ none := by
  simp only [saving]
  cases hr : deps.commit.raised with
  | none =>
      constructor
      · rintro ⟨e, he⟩
        cases he
      · intro h
        exact absurd rfl h
  | some e => exact ⟨(fun _ h => by cases h), fun _ => ⟨e, rfl⟩⟩

/-- The handler of the route leaves a trace iff the exception is a `DomainError` and
the save is carried out. -/
theorem leavesTrace_saveFailed {α : Type} {model : Str} {embeddingModel : Option Str}
    {evidence : List RetrievedChunk} {t : TraceCollector Attribute} {e : Exc}
    {stages : List TraceStage} (hsorted : t.spans.Pairwise fun a b => a.sequence < b.sequence)
    (hstages : t.spans.map (·.stage) = stages) :
    LeavesTrace stages
        (saveFailed (α := α) deps request project model embeddingModel evidence t e) ↔
      e.domain? ≠ none ∧ deps.commit.Lands := by
  unfold saveFailed
  cases hd : e.domain? with
  | none =>
      constructor
      · rintro ⟨saved, hrows, -, -⟩
        exact absurd hrows (List.cons_ne_nil _ _).symm
      · rintro ⟨h, -⟩
        exact absurd rfl h
  | some d =>
      refine (leavesTrace_saving ((stages_savedTrace hsorted ..).trans hstages)).trans ?_
      have hraises : ∀ saved,
          ∃ e', (saving deps saved (.error e : Except Exc α)).1 = .error e' := by
        intro saved
        cases hr : deps.commit.raised with
        | none => exact ⟨e, by simp only [saving, hr]; rfl⟩
        | some e' => exact ⟨e', by simp only [saving, hr]; rfl⟩
      constructor
      · rintro ⟨hlands, -⟩
        exact ⟨(fun h => by cases h), hlands⟩
      · rintro ⟨-, hlands⟩
        refine ⟨hlands, fun _ => hraises _, fun _ => ?_⟩
        rw [status_savedTrace]
        exact (status_finish ..).mpr (Or.inl rfl)

/-! ### The cost -/

theorem millions_error {tokens : ℕ} {e : Exc} (h : millions tokens = .error e) :
    e = .overflowError := by
  unfold millions at h
  split at h
  · exact (Except.error.inj h).symm
  · cases h

/-- Nothing but an overflow keeps the cost from being computed. -/
theorem estimateCost_error {inputRate outputRate : Option Float64} {inputTokens outputTokens : ℕ}
    {e : Exc} (h : estimateCost inputRate outputRate inputTokens outputTokens = .error e) :
    e = .overflowError := by
  unfold estimateCost at h
  split at h
  · cases h
  · cases hinput : millions inputTokens with
    | error e' =>
        rw [hinput] at h
        obtain rfl := Except.error.inj h
        exact millions_error hinput
    | ok input =>
        cases houtput : millions outputTokens with
        | error e' =>
            rw [hinput, houtput] at h
            obtain rfl := Except.error.inj h
            exact millions_error houtput
        | ok output =>
            rw [hinput, houtput] at h
            cases h

theorem cost_recordUsage {t : TraceCollector Attribute} (h : t.cost = none) (m n : ℕ)
    (cost : Option Float64) : (t.recordUsage m n cost).cost = recordedCost cost := by
  cases cost with
  | none => exact h
  | some cost =>
      simp only [TraceCollector.recordUsage, h]
      rfl

/-! ### Executions -/

/-- **Which executions leave a trace.** -/
theorem leavesTrace_runTraced :
    LeavesTrace (enteredStages deps request project)
        (runTraced deps request project generator) ↔
      Reported deps request project generator := by
  obtain ⟨t, span, hretrieve, ht, hstage, hseq, hstatus⟩ :=
    retrieveTraced_spec deps request project
  unfold runTraced enteredStages Reported
  rw [hretrieve]
  cases hr : deps.retrieve request.strategy ⟨request.query, project, request.topK⟩ with
  | error e =>
      refine leavesTrace_saveFailed ?_ ?_
      · rw [ht]
        exact List.pairwise_singleton _ _
      · rw [ht, List.map_singleton, hstage]
  | ok evidence =>
      obtain ⟨t', span', hgenerate, ht', hstage', hseq', hstatus'⟩ :=
        generateTraced_spec deps request generator evidence t
      have hspans : t'.spans = [span, span'] := by
        rw [ht', ht]
        rfl
      have hsorted : t'.spans.Pairwise fun a b => a.sequence < b.sequence := by
        rw [hspans, List.pairwise_pair, hseq, hseq', ht]
        exact Nat.zero_lt_one
      have hstages : t'.spans.map (·.stage) = [.retrieval, .generation] := by
        rw [hspans, List.map_cons, List.map_singleton, hstage, hstage']
      simp only [hgenerate]
      cases hg : generator.generate request.query evidence ⟨0, deps.maxOutputTokens⟩ with
      | error e => exact leavesTrace_saveFailed hsorted hstages
      | ok answer =>
          have hunfailed : ∀ s ∈ t'.spans, s.status ≠ .error := by
            rw [hspans]
            intro s hs
            rcases List.mem_pair.mp hs with rfl | rfl
            · exact hstatus _ hr
            · exact hstatus' _ hg
          dsimp only
          cases hcost : estimateCost deps.inputRate deps.outputRate answer.usage.inputTokens
              answer.usage.outputTokens with
          | error e =>
              obtain rfl := estimateCost_error hcost
              refine (leavesTrace_saveFailed hsorted hstages).trans (iff_of_false ?_ ?_)
              · exact fun h => h.1 rfl
              · rintro ⟨⟨cost, h⟩, -⟩
                cases h
          | ok cost =>
              refine (leavesTrace_saving ((stages_savedTrace (t := t'.recordUsage _ _ _)
                hsorted ..).trans hstages)).trans ?_
              rw [status_savedTrace, status_finish_ok (t := t'.recordUsage _ _ _) hunfailed,
                exists_error_saving]
              constructor
              · rintro ⟨-, hiff⟩
                refine ⟨⟨cost, rfl⟩, ?_⟩
                by_contra hraised
                cases hiff.mpr hraised
              · rintro ⟨-, hnone⟩
                exact ⟨CommitReply.lands_of_raised hnone, (fun h => by cases h),
                  fun hraised => absurd hnone hraised⟩

/-- **An execution leaves its trace iff nothing but a domain error leaves a stage, its cost
can be computed and its trace is saved.** -/
theorem traced_iff (hcheck : checkQuery deps.query request = .ok (project, generator)) :
    LeavesTrace (enteredStages deps request project) (createQueryTraced deps request) ↔
      Reported deps request project generator := by
  unfold createQueryTraced
  rw [hcheck]
  exact leavesTrace_runTraced

/-- A project and a provider whose embedding gives up on the query. -/
def tracedSample (retrieved : Except Exc (List RetrievedChunk)) : TracedDeps where
  principal := ⟨2, 1⟩
  getProject := fun id => .ok id
  generator := some ⟨[], fun _ _ _ => .ok { text := [] }⟩
  embeddings := some []
  maxOutputTokens := 1024
  retrieve := fun _ _ => retrieved
  traceId := 7
  retrievalSpan := 8
  generationSpan := 9
  commit := .done

/-- A query that is answered leaves its trace. -/
theorem traced_answered :
    LeavesTrace [.retrieval, .generation]
      (createQueryTraced (tracedSample (.ok [])) { projectId := 3, query := [] }) := by
  have hcheck : checkQuery (tracedSample (.ok [])).query { projectId := 3, query := [] } =
      .ok (3, ⟨[], fun _ _ _ => .ok { text := [] }⟩) := rfl
  exact (traced_iff hcheck).mpr ⟨⟨none, rfl⟩, rfl⟩

/-- A query whose retrieval is left by an exception that is no domain error raises it,
and leaves none. -/
theorem untraced_crash :
    createQueryTraced (tracedSample (.error .crash)) { projectId := 3, query := [] } =
        (.error .crash, []) ∧
      ¬ LeavesTrace [.retrieval]
        (createQueryTraced (tracedSample (.error .crash)) { projectId := 3, query := [] }) := by
  refine ⟨rfl, ?_⟩
  rintro ⟨saved, hrows, -, -⟩
  exact absurd hrows (List.cons_ne_nil _ _).symm

/-! ### The same execution without its spans -/

/-- Unless its commit raises after it was carried out, a save commits what the
execution without spans commits. -/
theorem saving_query {α : Type} {saved : SavedTrace} {row : TraceRow} {outcome : Except Exc α}
    (hlanded : ∀ e, deps.commit ≠ .landed e) (hrow : saved.row = row) :
    ((saving deps saved outcome).1, (saving deps saved outcome).2.map (·.row)) =
      withTrace deps.query row outcome := by
  unfold saving withTrace TracedDeps.query
  cases hc : deps.commit with
  | done =>
      rw [← hrow]
      rfl
  | lost e => rfl
  | landed e => exact absurd hc (hlanded e)

/-- The same of the handler. -/
theorem saveFailed_query {α : Type} {model : Str} {embeddingModel : Option Str}
    {evidence : List RetrievedChunk} {spans : List (SpanRecord Attribute)} {n : ℕ} {e : Exc}
    (hlanded : ∀ e, deps.commit ≠ .landed e) :
    ((saveFailed (α := α) deps request project model embeddingModel evidence
        { newTrace deps request with sequence := n, spans } e).1,
      (saveFailed (α := α) deps request project model embeddingModel evidence
        { newTrace deps request with sequence := n, spans } e).2.map (·.row)) =
      withFailedTrace deps.query request project model embeddingModel evidence e := by
  unfold saveFailed withFailedTrace
  cases hd : e.domain? with
  | none => rfl
  | some d =>
      refine saving_query hlanded ?_
      have hfailed := (status_finish { newTrace deps request with sequence := n, spans }
        (some d.code) (some d.message) (deps.clock 5) (deps.elapsed 5)).mpr (Or.inl rfl)
      simp only [savedTrace, failedTrace, hfailed, decide_true]
      rfl

/-- The row of an execution that answered. -/
theorem row_savedTrace_answered {t : TraceCollector Attribute} {embeddingModel : Option Str}
    {evidence : List RetrievedChunk} {answer : GeneratedAnswer} {cost : Option Float64}
    (hunfailed : ∀ s ∈ t.spans, s.status ≠ .error) (hid : t.traceId = deps.traceId)
    (hin : t.inputTokens = 0) (hout : t.outputTokens = 0) (hcost : t.cost = none) :
    (savedTrace ((t.recordUsage answer.usage.inputTokens answer.usage.outputTokens cost).finish
        none none (deps.clock 5) (deps.elapsed 5))
      (answeredArgs deps request project embeddingModel evidence answer)).row =
      answeredTrace deps.query request project embeddingModel evidence answer
        (recordedCost cost) := by
  have hok := status_finish_ok (t := t.recordUsage answer.usage.inputTokens
    answer.usage.outputTokens cost) hunfailed none (deps.clock 5) (deps.elapsed 5)
  rw [← cost_recordUsage hcost answer.usage.inputTokens answer.usage.outputTokens cost]
  simp only [savedTrace, answeredTrace, hok]
  simp only [TraceCollector.finish, TraceCollector.recordUsage, answeredArgs, hid, hin, hout,
    TracedDeps.query, Nat.zero_add]
  simp

/-- **Without its spans this is the execution of `createQuery`.** -/
theorem createQuery_of_traced (hlanded : ∀ e, deps.commit ≠ .landed e) :
    ((createQueryTraced deps request).1, (createQueryTraced deps request).2.map (·.row)) =
      createQuery deps.query request := by
  unfold createQueryTraced createQuery
  cases hcheck : checkQuery deps.query request with
  | error e => rfl
  | ok checked =>
      obtain ⟨project, generator⟩ := checked
      obtain ⟨t, span, hretrieve, rfl, -, -, hstatus⟩ :=
        retrieveTraced_spec deps request project
      simp only [runTraced, runQuery, hretrieve]
      have hdeps : deps.query.retrieve = deps.retrieve := rfl
      rw [hdeps]
      cases hr : deps.retrieve request.strategy ⟨request.query, project, request.topK⟩ with
      | error e => exact saveFailed_query hlanded
      | ok evidence =>
          obtain ⟨t', span', hgenerate, rfl, -, -, hstatus'⟩ :=
            generateTraced_spec deps request generator evidence
              { newTrace deps request with sequence := 1, spans := [span] }
          simp only [hgenerate]
          have hmax : deps.query.maxOutputTokens = deps.maxOutputTokens := rfl
          rw [hmax]
          cases hg : generator.generate request.query evidence ⟨0, deps.maxOutputTokens⟩ with
          | error e => exact saveFailed_query hlanded
          | ok answer =>
              have hinput : deps.query.inputRate = deps.inputRate := rfl
              have houtput : deps.query.outputRate = deps.outputRate := rfl
              rw [hinput, houtput]
              dsimp only
              cases hcost : estimateCost deps.inputRate deps.outputRate answer.usage.inputTokens
                  answer.usage.outputTokens with
              | error e => exact saveFailed_query hlanded
              | ok cost =>
                  dsimp only
                  rw [cost_recordUsage rfl]
                  refine saving_query hlanded ?_
                  refine row_savedTrace_answered ?_ rfl rfl rfl rfl
                  intro s hs
                  rcases List.mem_pair.mp hs with rfl | rfl
                  · exact hstatus _ hr
                  · exact hstatus' _ hg

/-! ### What an execution reads -/

/-- A trace in the name of the principal, about evidence retrieved in the project. -/
def Records (deps : TracedDeps) (request : QueryRequest) (project : Uuid) (saved : SavedTrace) :
    Prop :=
  saved.organizationId = deps.principal.organizationId ∧ saved.row.projectId = project ∧
    ∀ id ∈ saved.row.retrievedChunkIds, ∃ evidence,
      deps.retrieve request.strategy ⟨request.query, project, request.topK⟩ = .ok evidence ∧
        id ∈ evidence.map (·.chunkId)

theorem mem_saving {α : Type} {saved saved' : SavedTrace} {outcome : Except Exc α}
    (h : saved' ∈ (saving deps saved outcome).2) : saved' = saved := by
  simp only [saving] at h
  split at h
  · exact List.mem_singleton.mp h
  · cases h

/-- What the handler saves records the evidence that it was given. -/
theorem records_saveFailed {α : Type} {model : Str} {embeddingModel : Option Str}
    {evidence : List RetrievedChunk} {t : TraceCollector Attribute} {e : Exc} {saved : SavedTrace}
    (hevidence : ∀ id ∈ evidence.map (·.chunkId), ∃ evidence',
      deps.retrieve request.strategy ⟨request.query, project, request.topK⟩ = .ok evidence' ∧
        id ∈ evidence'.map (·.chunkId))
    (h : saved ∈
      (saveFailed (α := α) deps request project model embeddingModel evidence t e).2) :
    Records deps request project saved := by
  unfold saveFailed at h
  cases hd : e.domain? with
  | none =>
      rw [hd] at h
      cases h
  | some d =>
      rw [hd] at h
      obtain rfl := mem_saving h
      exact ⟨rfl, rfl, hevidence⟩

/-- **What an execution saves**: at most a trace of the principal's, with chunks that were
retrieved in the project that the check of the request gave. -/
theorem mem_createQueryTraced {saved : SavedTrace}
    (h : saved ∈ (createQueryTraced deps request).2) :
    ∃ project, deps.getProject request.projectId = .ok project ∧
      Records deps request project saved := by
  unfold createQueryTraced at h
  cases hcheck : checkQuery deps.query request with
  | error e =>
      rw [hcheck] at h
      cases h
  | ok checked =>
      obtain ⟨project, generator⟩ := checked
      obtain ⟨project', hproject, hrest⟩ := bind_eq_ok.mp hcheck
      obtain ⟨generator', -, hpair⟩ := bind_eq_ok.mp hrest
      obtain ⟨rfl, rfl⟩ := Prod.mk.inj (Except.ok.inj hpair)
      refine ⟨project', hproject, ?_⟩
      obtain ⟨t, span, hretrieve, -, -, -, -⟩ := retrieveTraced_spec deps request project'
      simp only [hcheck, runTraced, hretrieve] at h
      cases hr : deps.retrieve request.strategy ⟨request.query, project', request.topK⟩ with
      | error e =>
          simp only [hr] at h
          exact records_saveFailed (fun id hid => absurd hid List.not_mem_nil) h
      | ok evidence =>
          have hevidence : ∀ id ∈ evidence.map (·.chunkId), ∃ evidence',
              deps.retrieve request.strategy ⟨request.query, project', request.topK⟩ =
                .ok evidence' ∧ id ∈ evidence'.map (·.chunkId) :=
            fun id hid => ⟨evidence, hr, hid⟩
          obtain ⟨t', span', hgenerate, -, -, -, -⟩ :=
            generateTraced_spec deps request generator' evidence t
          simp only [hr, hgenerate] at h
          cases hg : generator'.generate request.query evidence ⟨0, deps.maxOutputTokens⟩ with
          | error e =>
              simp only [hg] at h
              exact records_saveFailed hevidence h
          | ok answer =>
              simp only [hg] at h
              cases hcost : estimateCost deps.inputRate deps.outputRate answer.usage.inputTokens
                  answer.usage.outputTokens with
              | error e =>
                  simp only [hcost] at h
                  exact records_saveFailed hevidence h
              | ok cost =>
                  simp only [hcost] at h
                  obtain rfl := mem_saving h
                  exact ⟨rfl, rfl, hevidence⟩

/-- **What an execution depends on**: the project check at the project of the request, and
the retriever at its one query. -/
theorem createQueryTraced_congr {getProject' : Uuid → Except Exc Uuid}
    {retrieve' : SearchStrategy → RetrievalQuery → Except Exc (List RetrievedChunk)}
    (hproject : deps.getProject request.projectId = getProject' request.projectId)
    (hretrieve : ∀ project, deps.getProject request.projectId = .ok project →
      deps.retrieve request.strategy ⟨request.query, project, request.topK⟩ =
        retrieve' request.strategy ⟨request.query, project, request.topK⟩) :
    createQueryTraced deps request =
      createQueryTraced { deps with getProject := getProject', retrieve := retrieve' }
        request := by
  have hcheck : checkQuery deps.query request =
      checkQuery ({ deps with getProject := getProject', retrieve := retrieve' } :
        TracedDeps).query request := by
    show (deps.getProject request.projectId >>= _) = (getProject' request.projectId >>= _)
    rw [hproject]
    rfl
  unfold createQueryTraced
  rw [← hcheck]
  cases hchecked : checkQuery deps.query request with
  | error e => rfl
  | ok checked =>
      obtain ⟨project, generator⟩ := checked
      obtain ⟨project', hok, hrest⟩ := bind_eq_ok.mp hchecked
      obtain ⟨generator', -, hpair⟩ := bind_eq_ok.mp hrest
      obtain ⟨rfl, rfl⟩ := Prod.mk.inj (Except.ok.inj hpair)
      show runTraced deps request project' generator' = runTraced _ request project' generator'
      unfold runTraced retrieveTraced
      rw [hretrieve project' hok]
      rfl

end Reasoning
end EvidenceLab
