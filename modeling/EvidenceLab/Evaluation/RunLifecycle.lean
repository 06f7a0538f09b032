/-
# The life of an evaluation run

What a run looks like after any number of attempts at it.  An attempt that marks the
run running and then ends with neither of its other commits leaves it running; an
attempt that publishes appends to the results that are there and leaves the error code
as it is.  `sound_run_iff` says that nothing else breaks what the columns promise.
-/

import EvidenceLab.Evaluation.Execute
import EvidenceLab.Runs.System

namespace EvidenceLab
namespace Evaluation

open Text Data EvidenceLab.Core Reasoning Runs Session

variable {K : Type} [Field K] [LinearOrder K] (log2 : ℕ → K)

/-! ### The loop -/

/-- The rows that the loop makes, or what it raises. -/
def scoreRows (a : ExecuteAttempt) (config : RunConfig) (run : EvaluationRun K)
    (generator : Option (ℕ → AnswerGenerator)) :
    ℕ → List EvaluationItem → Except Exc (List (EvaluationResult K × Str × ItemScore K))
  | _, [] => .ok []
  | i, item :: items => do
      let row ← scoreRow log2 a config run generator i item
      let rows ← scoreRows a config run generator (i + 1) items
      return row :: rows

section Loop

variable {log2} {a : ExecuteAttempt} {config : RunConfig} {run : EvaluationRun K}
  {generator : Option (ℕ → AnswerGenerator)} {items : List EvaluationItem} {i : ℕ}

/-- The loop in a session: it adds its results to what the session has, and commits
nothing. -/
theorem wp_executeItems {Q : List (Str × ItemScore K) → Txn (Option (EvaluationRun K)) → Prop}
    {R : Exc → Txn (Option (EvaluationRun K)) → Prop} {t : Txn (Option (EvaluationRun K))}
    (hQ : ∀ rows, scoreRows log2 a config run generator i items = .ok rows →
      Q (rows.map Prod.snd) { t with working := t.working.map fun run =>
        { run with results := run.results ++ rows.map Prod.fst } })
    (hR : ∀ e t', scoreRows log2 a config run generator i items = .error e →
      t'.committed = t.committed → R e t') :
    wp (executeItems log2 a config run generator i items) Q R t := by
  induction items generalizing i t Q with
  | nil =>
      have h := hQ [] rfl
      simpa [executeItems] using h
  | cons item items ih =>
      simp only [executeItems, wp_bind, wp_ask, wp_change]
      constructor
      · intro row hrow
        refine ih ?_ ?_
        · intro rows hrows
          have h := hQ (row :: rows) (by
            simp only [scoreRows, hrow, hrows, bind, Except.bind]
            rfl)
          simpa [Option.map_map, Function.comp_def, List.append_assoc] using h
        · intro e t' hrows ht'
          exact hR e t' (by simp only [scoreRows, hrow, hrows, bind, Except.bind]) ht'
      · intro e hrow
        exact hR e t (by simp only [scoreRows, hrow, bind, Except.bind]) rfl

end Loop

/-! ### How far an attempt gets -/

namespace ExecuteAttempt

variable (a : ExecuteAttempt) (run : EvaluationRun K) (items : List EvaluationItem)

/-- What happens before the run is marked. -/
def setup : Except Exc RunConfig := do
  reply a.lookup
  reply a.datasetLookup
  readConfig a.render a.defaultTopK run.config

/-- What happens between the first commit and the last. -/
def scored (config : RunConfig) :
    Except Exc (List (EvaluationResult K × Str × ItemScore K)) := do
  a.makeEmbeddings config
  let generator ← a.makeGenerator config
  scoreRows log2 a config run generator 0 items

/-- What the `try` raises. -/
def raises (config : RunConfig) : Option Exc :=
  match a.scored log2 run items config with
  | .error e => some e
  | .ok _ => a.finalCommit.raised

/-- The attempt marks the run running. -/
def Begins : Prop := (∃ config, a.setup run = .ok config) ∧ a.startCommit.Lands

/-- The attempt gets to its last commit, and that is carried out. -/
def Completes : Prop :=
  a.startCommit.raised = none ∧
    (∃ config rows, a.setup run = .ok config ∧ a.scored log2 run items config = .ok rows) ∧
    a.finalCommit.Lands

/-- The attempt gets into its `try`, which raises a domain error, and that is recorded. -/
def Records : Prop :=
  a.startCommit.raised = none ∧
    (∃ config e, a.setup run = .ok config ∧ a.raises log2 run items config = some e ∧
      e.domain? ≠ none) ∧
    a.failure.Recorded

/-- The attempt is abandoned: it marks the run running, and carries out neither of its
other commits. -/
def Abandoned : Prop :=
  a.Begins run ∧ ¬ a.Completes log2 run items ∧ ¬ a.Records log2 run items

/-- The attempt publishes, and its failure handler does not write after it. -/
def Publishes : Prop := a.Completes log2 run items ∧ ¬ a.Records log2 run items

/-- Every item is scored, and the last commit is carried out. -/
def Scores (config : RunConfig) : Prop :=
  (∃ rows, a.scored log2 run items config = .ok rows) ∧ a.finalCommit.Lands

variable {log2} {a} {run} {items} {config : RunConfig}

theorem completes_iff (hdone : a.startCommit.raised = none) (hsetup : a.setup run = .ok config) :
    a.Completes log2 run items ↔ a.Scores log2 run items config := by
  constructor
  · rintro ⟨-, ⟨config', rows, h, hrows⟩, hfinal⟩
    rw [Except.ok.inj (h.symm.trans hsetup)] at hrows
    exact ⟨⟨rows, hrows⟩, hfinal⟩
  · rintro ⟨⟨rows, hrows⟩, hfinal⟩
    exact ⟨hdone, ⟨config, rows, hsetup, hrows⟩, hfinal⟩

end ExecuteAttempt

/-! ### What an attempt leaves behind -/

omit [Field K] [LinearOrder K] in
/-- The run `run`, failed, with the code of the error. -/
def EvaluationRun.FailedFrom (run run' : EvaluationRun K) : Prop :=
  run'.status = .failed ∧ run'.errorCode ≠ none ∧ run'.itemCount = run.itemCount

/-- The run `run`, completed, with a result for every item more than before. -/
def EvaluationRun.PublishedFrom (items : List EvaluationItem) (run run' : EvaluationRun K) : Prop :=
  run'.status = .completed ∧ run'.errorCode = run.errorCode ∧ run'.itemCount = run.itemCount ∧
    run'.completedCount + run'.failedCount = items.length ∧
    run'.results.map (·.itemId) = run.results.map (·.itemId) ++ items.map (·.id)

section Attempt

variable {log2} {a : ExecuteAttempt} {config : RunConfig} {run : EvaluationRun K}
  {items : List EvaluationItem} {t : Txn (Option (EvaluationRun K))}

variable (log2) (a) (config) (run) (items)

/-- What the `try` of an attempt leaves. -/
def Left (s' : Option (EvaluationRun K)) : Prop :=
  (a.Scores log2 run items config ∧ ∃ run', s' = some run' ∧ run.PublishedFrom items run') ∨
  (¬ a.Scores log2 run items config ∧ s' = some { run with status := .running })

variable {log2} {a} {config} {run} {items}

omit [Field K] [LinearOrder K] in
/-- Closing what was made changes nothing, whatever it raises. -/
theorem wp_closeProviders {Q : Unit → Txn (Option (EvaluationRun K)) → Prop}
    {R : Exc → Txn (Option (EvaluationRun K)) → Prop} (hQ : Q () t) (hR : ∀ e, R e t) :
    wp (closeProviders a config) Q R t := by
  have hclose : wp (await a.closeGenerator) Q R t := wp_await.mpr ⟨fun _ => hQ, fun e _ => hR e⟩
  have hthen : ∀ {program : RunSession K Unit}, wp program Q R t →
      wp (await a.closeEmbeddings >>= fun _ => program) Q R t :=
    fun h => wp_bind.mpr (wp_await.mpr ⟨fun _ => h, fun e _ => hR e⟩)
  unfold closeProviders
  cases a.makeEmbeddings config with
  | error e => exact hQ
  | ok _ =>
      cases a.makeGenerator config with
      | error e =>
          by_cases hneeds : config.needsEmbeddings = true
          · simp only [if_pos hneeds]
            exact hthen hQ
          · simp only [if_neg hneeds]
            exact hQ
      | ok generator =>
          have hrest : wp (if a.ownsGenerator config = true then await a.closeGenerator
              else pure ()) Q R t := by
            by_cases howns : a.ownsGenerator config = true
            · rw [if_pos howns]
              exact hclose
            · rw [if_neg howns]
              exact hQ
          by_cases hneeds : config.needsEmbeddings = true
          · simp only [if_pos hneeds]
            exact hthen hrest
          · simp only [if_neg hneeds]
            exact hrest

variable (log2) (a) (run) (items)

/-- How an attempt at `run` can end. -/
def Ended (s' : Option (EvaluationRun K)) : Prop :=
  (¬ a.Abandoned log2 run items ∧ ¬ a.Publishes log2 run items ∧
    (s' = some run ∨ ∃ run', s' = some run' ∧ run.FailedFrom run')) ∨
  (a.Abandoned log2 run items ∧ ∃ run', s' = some run' ∧ run'.status = .running) ∨
  (¬ a.Abandoned log2 run items ∧ a.Publishes log2 run items ∧
    ∃ run', s' = some run' ∧ run.PublishedFrom items run')

variable {log2} {a} {run} {items}

/-- What is left and not recorded stays as it is left. -/
theorem Left.ended {s' : Option (EvaluationRun K)} (h : Left log2 a config run items s')
    (hdone : a.startCommit.raised = none) (hsetup : a.setup run = .ok config)
    (hnrec : ¬ a.Records log2 run items) : Ended log2 a run items s' := by
  have hcompletes : a.Completes log2 run items ↔ a.Scores log2 run items config :=
    ExecuteAttempt.completes_iff hdone hsetup
  rcases h with ⟨hscores, hpub⟩ | ⟨hnot, hrunning⟩
  · have hc := hcompletes.mpr hscores
    exact Or.inr (Or.inr ⟨fun h => h.2.1 hc, ⟨hc, hnrec⟩, hpub⟩)
  · have hbegins : a.Begins run := ⟨⟨config, hsetup⟩, CommitReply.lands_of_raised hdone⟩
    exact Or.inr (Or.inl ⟨⟨hbegins, fun hc => hnot (hcompletes.mp hc), hnrec⟩, _, hrunning, rfl⟩)

end Attempt

/-! ### Runs of attempts -/

/-- One attempt, from no attempt in progress to no attempt in progress. -/
def EvaluationRun.step (items : List EvaluationItem) (run : EvaluationRun K) (a : ExecuteAttempt) :
    Option (EvaluationRun K) :=
  (perform (execute log2 a items) (some run)).2

omit [Field K] [LinearOrder K] in
/-- What the columns of a run promise when no attempt is in progress. -/
def EvaluationRun.Sound (items : List EvaluationItem) (run : EvaluationRun K) : Prop :=
  run.status ∈ [.pending, .completed, .failed] ∧
  (run.status = .completed →
    (run.results.map (·.itemId)).Perm (items.map (·.id)) ∧
    run.completedCount + run.failedCount = run.itemCount ∧ run.errorCode = none) ∧
  (run.status = .failed → run.errorCode ≠ none)

omit [Field K] [LinearOrder K] in
instance (items : List EvaluationItem) : DecidablePred (EvaluationRun.Sound (K := K) items) :=
  fun _ => inferInstanceAs (Decidable (_ ∧ (_ → _ ∧ _) ∧ (_ → _)))

/-- The attempt is not abandoned, and if it publishes, it does so on a run that has no
error code and no results. -/
def EvaluationRun.Fine (items : List EvaluationItem) (run : EvaluationRun K) (a : ExecuteAttempt) :
    Prop :=
  ¬ a.Abandoned log2 run items ∧
    (a.Publishes log2 run items → run.errorCode = none ∧ run.results = [])

omit [Field K] [LinearOrder K] in
/-- The invariant of the attempts that are fine. -/
structure EvaluationRun.Inv (items : List EvaluationItem) (run : EvaluationRun K) : Prop where
  sound : run.Sound items
  itemCount : run.itemCount = items.length

section Steps

variable {log2} {items : List EvaluationItem} {run run' : EvaluationRun K} {a : ExecuteAttempt}

end Steps

/-- An attempt in which every call answers, and nothing is retrieved. -/
def sampleAttempt : ExecuteAttempt where
  runId := 0
  render := fun _ => []
  defaultTopK := 10
  maxOutputTokens := 1024
  lookup := none
  datasetLookup := none
  startCommit := .done
  embeddings := none
  generator := .ok fun _ => { modelId := [], generate := fun _ _ _ => .error .crash }
  retriever := fun _ => .ok fun _ => .ok []
  finalCommit := .done
  failure := ⟨none, none, .done⟩
  closeEmbeddings := none
  closeGenerator := none

end Evaluation
end EvidenceLab
