/-
# An attempt stays in the project of its run

An attempt leaves the run in its project, whatever becomes of it (`projectId_execute`), and
it asks its retrievers in that project alone: attempts whose retrievers find the same there
do the same (`execute_congr`).
-/

import EvidenceLab.Evaluation.Execute
import EvidenceLab.Runs.Frames

namespace EvidenceLab
namespace Evaluation

open Text Data EvidenceLab.Core Reasoning Runs Session

variable {K : Type} [Field K] [LinearOrder K] {log2 : ℕ → K}

/-! ### What an attempt leaves -/

omit [Field K] [LinearOrder K] in
/-- The run is in the project. -/
def Stays (projectId : Uuid) (run? : Option (EvaluationRun K)) : Prop :=
  run?.map (·.projectId) = some projectId

section Stays

variable {projectId : Uuid}

omit [Field K] [LinearOrder K] in
theorem Stays.map {run? : Option (EvaluationRun K)} (h : Stays projectId run?)
    {f : EvaluationRun K → EvaluationRun K} (hf : ∀ run, (f run).projectId = run.projectId) :
    Stays projectId (run?.map f) := by
  rw [Stays, ← h, Option.map_map]
  exact congrFun (congrArg Option.map (funext hf)) run?

theorem preserves_executeItems (a : ExecuteAttempt) (config : RunConfig) (run : EvaluationRun K)
    (generator : Option (ℕ → AnswerGenerator)) (i : ℕ) (items : List EvaluationItem) :
    Preserves (Stays projectId) (executeItems log2 a config run generator i items) := by
  induction items generalizing i with
  | nil => exact preserves_pure _
  | cons item items ih =>
      refine (preserves_ask _).bind fun row => ?_
      refine Preserves.bind (preserves_change fun _ h => h.map fun _ => rfl) fun _ => ?_
      exact (ih (i + 1)).bind fun _ => preserves_pure _

theorem preserves_score (a : ExecuteAttempt) (config : RunConfig) (run : EvaluationRun K)
    (items : List EvaluationItem) :
    Preserves (Stays projectId) (score log2 a config run items) := by
  refine (preserves_ask _).bind fun _ => (preserves_ask _).bind fun generator => ?_
  refine (preserves_executeItems a config run generator 0 items).bind fun scored => ?_
  exact Preserves.bind (preserves_change fun _ h => h.map fun _ => rfl) fun _ =>
    preserves_commit _

omit [Field K] [LinearOrder K] in
theorem preserves_executeHandler (a : ExecuteAttempt) (e : Exc) :
    Preserves (Stays (K := K) projectId) (executeHandler a e) := by
  unfold executeHandler
  split
  · refine (preserves_amend _ _ fun _ h => h.map fun _ => rfl).bind fun _ => ?_
    exact preserves_raise _
  · exact preserves_raise _

omit [Field K] [LinearOrder K] in
theorem preserves_closeProviders (a : ExecuteAttempt) (config : RunConfig) :
    Preserves (Stays (K := K) projectId) (closeProviders a config) := by
  have hclose : Preserves (Stays (K := K) projectId)
      (if a.ownsGenerator config then await a.closeGenerator else pure ()) :=
    (preserves_await _).ite (preserves_pure _)
  unfold closeProviders
  split
  · exact preserves_pure _
  · dsimp only
    split
    · refine (preserves_await _).bind fun _ => ?_
      split
      · exact preserves_pure _
      · exact hclose
    · split
      · exact preserves_pure _
      · exact hclose

theorem preserves_execute (a : ExecuteAttempt) (items : List EvaluationItem) :
    Preserves (Stays (K := K) projectId) (execute log2 a items) := by
  refine (preserves_await _).bind fun _ => preserves_current.bind fun run? => ?_
  cases run? with
  | none => exact preserves_raise _
  | some run =>
      refine (preserves_await _).bind fun _ => (preserves_ask _).bind fun config => ?_
      refine Preserves.bind (preserves_change fun _ h => h.map fun _ => rfl) fun _ => ?_
      refine (preserves_commit _).bind fun _ => ?_
      refine Preserves.bind ?_ fun _ => preserves_current
      exact ((preserves_score a config run items).handling (preserves_executeHandler a)).ensuring
        (preserves_closeProviders a config)

/-- **No attempt moves a run to another project.** -/
theorem projectId_execute {a : ExecuteAttempt} {items : List EvaluationItem}
    {run left : EvaluationRun K} (h : (perform (execute log2 a items) (some run)).2 = some left) :
    left.projectId = run.projectId := by
  have hkeeps : Preserves (Stays run.projectId) (execute log2 a items) := preserves_execute a items
  have hstays := hkeeps.perform (rfl : Stays run.projectId (some run))
  rw [h] at hstays
  exact Option.some.inj hstays

end Stays

/-! ### What an attempt depends on -/

section Depends

variable {a : ExecuteAttempt} {retriever' : ℕ → Except Exc (RetrievalQuery → Except Exc
  (List RetrievedChunk))} {config : RunConfig} {run : EvaluationRun K}

/-- What a retriever finds in a project. -/
def findsIn (projectId : Uuid)
    (retriever : Except Exc (RetrievalQuery → Except Exc (List RetrievedChunk))) :
    Except Exc (Str → ℕ → Except Exc (List RetrievedChunk)) :=
  retriever.map fun retrieve text topK => retrieve ⟨text, projectId, topK⟩

omit [Field K] [LinearOrder K] in
theorem runItem_congr {ctx : ItemContext}
    {retriever : Except Exc (RetrievalQuery → Except Exc (List RetrievedChunk))}
    (h : findsIn ctx.projectId ctx.retriever = findsIn ctx.projectId retriever)
    (generator : Option AnswerGenerator) (spec : EvaluationItemSpec) :
    runItem (K := K) ctx generator spec = runItem { ctx with retriever } generator spec := by
  cases hctx : ctx.retriever with
  | error e =>
      rw [hctx] at h
      cases retriever with
      | error e' =>
          obtain rfl := Except.error.inj h
          simp only [runItem, hctx]
          rfl
      | ok retrieve' => cases h
  | ok retrieve =>
      rw [hctx] at h
      cases retriever with
      | error e' => cases h
      | ok retrieve' =>
          have hfinds : retrieve ⟨spec.question, ctx.projectId, ctx.topK⟩ =
              retrieve' ⟨spec.question, ctx.projectId, ctx.topK⟩ :=
            congrFun (congrFun (Except.ok.inj h) spec.question) ctx.topK
          simp only [runItem, hctx]
          show recordFailure (observeItem ctx retrieve generator spec) =
            recordFailure (observeItem _ retrieve' generator spec)
          simp only [observeItem]
          rw [hfinds]
          rfl

variable (hfinds : ∀ i, findsIn run.projectId (a.retriever i) =
  findsIn run.projectId (retriever' i))

include hfinds

theorem scoreRow_congr (generator : Option (ℕ → AnswerGenerator)) (i : ℕ)
    (item : EvaluationItem) :
    scoreRow log2 a config run generator i item =
      scoreRow log2 { a with retriever := retriever' } config run generator i item := by
  have hitem := fun generator spec =>
    @runItem_congr K (a.context config run i) _ (hfinds i) generator spec
  simp only [scoreRow, hitem]
  rfl

theorem executeItems_congr (generator : Option (ℕ → AnswerGenerator)) (i : ℕ)
    (items : List EvaluationItem) :
    executeItems log2 a config run generator i items =
      executeItems log2 { a with retriever := retriever' } config run generator i items := by
  induction items generalizing i with
  | nil => rfl
  | cons item items ih => simp only [executeItems, scoreRow_congr hfinds, ih]

theorem score_congr (items : List EvaluationItem) :
    score log2 a config run items =
      score log2 { a with retriever := retriever' } config run items := by
  simp only [score, executeItems_congr hfinds]
  rfl

/-- **An attempt depends on what its retrievers find in the project of the run.** -/
theorem execute_congr (items : List EvaluationItem) :
    perform (execute log2 a items) (some run) =
      perform (execute log2 { a with retriever := retriever' } items) (some run) := by
  have hstart : execute log2 a items ⟨some run, some run⟩ =
      execute log2 { a with retriever := retriever' } items ⟨some run, some run⟩ := by
    cases hlookup : a.lookup with
    | some e => simp only [execute, bind, await, hlookup]
    | none =>
        simp only [execute, bind, await, hlookup, current, score_congr hfinds]
        rfl
  simp only [perform, hstart]

end Depends

end Evaluation
end EvidenceLab
