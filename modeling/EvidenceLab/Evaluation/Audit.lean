/-
# What a report is made of

The aggregates of a run are stored beside the results that they were computed from.  An attempt
that publishes adds a result for each item and sets the aggregates in the same commit, and no
other commit touches either.  So while a run is completed its aggregates are those of its last
results, whatever was attempted before (`Audited`, `audited_execute`).

A result keeps the ids of what was retrieved, and the item those of what is gold.  The metrics of
retrieval are functions of the two, so they can be computed again without the corpus
(`Measures`).
-/

import EvidenceLab.Evaluation.RunLifecycle
import EvidenceLab.Runs.Frames

namespace EvidenceLab
namespace Evaluation

open Text Data EvidenceLab.Core Reasoning Runs Session

variable {K : Type} [Field K] [LinearOrder K] (log2 : ℕ → K)

/-! ### Results -/

omit [Field K] [LinearOrder K] in
/-- The score that a result keeps. -/
def ResultRow.score (row : ResultRow K) : ItemScore K := ⟨row.metrics, row.failureCategory⟩

/-- The metrics of a run that are functions of what is retrieved and what is gold. -/
def MetricName.OfRetrieval : MetricName → Prop
  | .recallAt k => k ∈ defaultKValues
  | .precisionAt k => k ∈ defaultKValues
  | .hitRateAt k => k ∈ defaultKValues
  | .ndcgAt k => k ∈ defaultKValues
  | .mrr => True
  | _ => False

omit [LinearOrder K] in
/-- A metric of retrieval, computed from the ids. -/
def recomputed (gold : Finset Uuid) (retrieved : List Uuid) : MetricName → Option K
  | .recallAt k => recallAtK retrieved gold k
  | .precisionAt k => precisionAtK retrieved gold k
  | .hitRateAt k => hitRateAtK retrieved gold k
  | .ndcgAt k => ndcgAtK log2 retrieved gold k
  | .mrr => reciprocalRank retrieved gold
  | _ => none

/-- The result is one of the item: its metrics of retrieval are those of the ids that it and the
item keep, and it counts as completed iff it holds no error. -/
structure Measures (item : EvaluationItem) (row : EvaluationResult K) : Prop where
  itemId : row.itemId = item.id
  ok : row.ok = row.errorCode.isNone
  completed : itemCompleted row.score = row.ok
  retrieval : ∀ name : MetricName, name.OfRetrieval →
    row.score.metric name = recomputed log2 item.goldChunkIds.toFinset row.retrievedChunkIds name

section Rows

variable {log2} {a : ExecuteAttempt} {config : RunConfig} {run : EvaluationRun K}
  {generator : Option (ℕ → AnswerGenerator)} {i : ℕ}

/-- What an item is scored as keeps its gold chunks and its condition. -/
theorem of_toSpec {item : EvaluationItem} {spec : EvaluationItemSpec} (h : toSpec item = .ok spec) :
    spec.goldChunks = item.goldChunkIds ∧ spec.evidenceCondition.str = item.evidenceCondition := by
  unfold toSpec at h
  split at h
  · cases h
  · split at h
    · cases h
    · rename_i condition hcondition
      obtain rfl := Except.ok.inj h
      exact ⟨rfl, by simpa using List.find?_some hcondition⟩

/-- **A turn of the loop makes a result of its item.** -/
theorem measures_scoreRow {item : EvaluationItem}
    {row : EvaluationResult K × Str × ItemScore K}
    (h : scoreRow log2 a config run generator i item = .ok row) :
    Measures log2 item row.1 ∧ row.2 = (item.evidenceCondition, row.1.score) := by
  obtain ⟨spec, hspec, h⟩ := bind_eq_ok.mp h
  obtain ⟨observation, -, h⟩ := bind_eq_ok.mp h
  obtain rfl := Except.ok.inj h
  obtain ⟨hgold, hcondition⟩ := of_toSpec hspec
  refine ⟨⟨rfl, rfl, ?_, ?_⟩, by rw [hcondition]; rfl⟩
  · have hfailed := metric_scoreItem log2 spec observation defaultKValues
      (show MetricName.failed.Asked defaultKValues from trivial)
    show itemCompleted (scoreItem log2 spec observation) = observation.errorCode.isNone
    rw [itemCompleted, hfailed, metricValue]
    cases observation.errorCode <;> simp
  · intro name hname
    have hasked : name.Asked defaultKValues := by
      cases name <;> first | exact hname | trivial
    have hvalue := metric_scoreItem log2 spec observation defaultKValues hasked
    rw [← hgold]
    refine hvalue.trans ?_
    cases name <;> first | rfl | exact absurd hname id

/-- The rows that the loop makes are those of the items. -/
theorem measures_scoreRows {items : List EvaluationItem}
    {rows : List (EvaluationResult K × Str × ItemScore K)}
    (h : scoreRows log2 a config run generator i items = .ok rows) :
    List.Forall₂ (Measures log2) items (rows.map Prod.fst) ∧
      rows.map Prod.snd = (items.zip (rows.map Prod.fst)).map fun pair =>
        (pair.1.evidenceCondition, pair.2.score) := by
  induction items generalizing i rows with
  | nil =>
      obtain rfl := Except.ok.inj h
      exact ⟨List.Forall₂.nil, rfl⟩
  | cons item items ih =>
      obtain ⟨row, hrow, h⟩ := bind_eq_ok.mp h
      obtain ⟨rest, hrest, h⟩ := bind_eq_ok.mp h
      obtain rfl := Except.ok.inj h
      obtain ⟨hmeasures, hscore⟩ := measures_scoreRow hrow
      obtain ⟨hall, hscores⟩ := ih hrest
      refine ⟨List.Forall₂.cons hmeasures hall, ?_⟩
      rw [List.map_cons, List.map_cons, List.zip_cons_cons, List.map_cons, ← hscores, hscore]

end Rows

/-! ### Reports -/

/-- The report of a run is made of these results: they are its last ones, one for each item, and
their scores are what was aggregated and counted. -/
structure ReportOf (items : List EvaluationItem) (run : EvaluationRun K)
    (rows : List (EvaluationResult K)) : Prop where
  last : rows <:+ run.results
  measured : List.Forall₂ (Measures log2) items rows
  aggregates : run.aggregateMetrics = some ⟨aggregate (rows.map (·.score)),
    aggregateBy ((items.zip rows).map fun pair => (pair.1.evidenceCondition, pair.2.score))⟩
  completed : run.completedCount = rows.countP (·.ok)
  failed : run.failedCount = rows.countP (!·.ok)

/-- A run counts its items, and while it is completed, its report is made of its results, in some
order of the items. -/
structure Audited (items : List EvaluationItem) (run : EvaluationRun K) : Prop where
  itemCount : run.itemCount = items.length
  report : run.status = .completed →
    ∃ order, order.Perm items ∧ ∃ rows, ReportOf log2 order run rows

section Attempts

variable {log2} {a : ExecuteAttempt} {config : RunConfig} {run : EvaluationRun K}
  {items : List EvaluationItem} {generator : Option (ℕ → AnswerGenerator)} {i : ℕ}

theorem audited_of_status (hcount : run.itemCount = items.length) (h : run.status ≠ .completed) :
    Audited log2 items run := ⟨hcount, fun hcompleted => absurd hcompleted h⟩

/-- The rows of a report are as many as the run counts. -/
theorem ReportOf.length_eq {order : List EvaluationItem} {rows : List (EvaluationResult K)}
    (h : ReportOf log2 order run rows) (horder : order.Perm items)
    (haudited : Audited log2 items run) : rows.length = run.itemCount := by
  rw [haudited.itemCount, ← horder.length_eq, h.measured.length_eq]

/-- Publishing the rows of the items makes their report. -/
theorem reportOf_publish {rows : List (EvaluationResult K × Str × ItemScore K)}
    (h : scoreRows log2 a config run generator i items = .ok rows) (run' : EvaluationRun K) :
    ReportOf log2 items (EvaluationRun.publish (rows.map Prod.snd)
      { run' with results := run'.results ++ rows.map Prod.fst }) (rows.map Prod.fst) := by
  obtain ⟨hmeasured, hscores⟩ := measures_scoreRows h
  have hzip : (items.zip (rows.map Prod.fst)).map Prod.snd = rows.map Prod.fst :=
    List.map_snd_zip hmeasured.length_eq.ge
  have hscore : (rows.map Prod.snd).map Prod.snd = (rows.map Prod.fst).map (·.score) := by
    conv_rhs => rw [← hzip, List.map_map]
    rw [hscores, List.map_map]
    rfl
  have hcompleted : ∀ row ∈ rows.map Prod.fst, itemCompleted row.score = row.ok := by
    intro row hrow
    rw [← hzip] at hrow
    obtain ⟨pair, hpair, rfl⟩ := List.mem_map.mp hrow
    exact (List.forall₂_zip hmeasured hpair).completed
  have hcount : (rows.map Prod.snd).countP (fun entry => itemCompleted entry.2) =
      (rows.map Prod.fst).countP (·.ok) := by
    have hcomp : (rows.map Prod.snd).countP (fun entry => itemCompleted entry.2) =
        ((rows.map Prod.snd).map Prod.snd).countP itemCompleted := by
      conv_rhs => rw [List.countP_map]
      rfl
    rw [hcomp, hscore, List.countP_map]
    refine List.countP_congr fun row hrow => ?_
    rw [Function.comp_apply, hcompleted row hrow]
  refine ⟨List.suffix_append _ _, hmeasured, ?_, hcount, ?_⟩
  · rw [← hscore, ← hscores]
    rfl
  · show (rows.map Prod.snd).length - (rows.map Prod.snd).countP _ = _
    rw [hcount, List.length_map, ← List.length_map (f := Prod.fst),
      List.length_eq_countP_add_countP (fun row : EvaluationResult K => row.ok),
      Nat.add_sub_cancel_left]
    exact List.countP_congr fun row _ => by simp

/-- What is committed is a run that is audited. -/
def AuditedRow (log2 : ℕ → K) (items : List EvaluationItem) (row : Option (EvaluationRun K)) :
    Prop :=
  ∀ run, row = some run → Audited log2 items run

/-- To amend a run as failed is no way to complete it. -/
theorem wp_executeHandler_audited {e : Exc} {t : Txn (Option (EvaluationRun K))}
    (h : AuditedRow log2 items t.committed) :
    wp (executeHandler a e) (fun _ t => AuditedRow log2 items t.committed)
      (fun _ t => AuditedRow log2 items t.committed) t := by
  unfold executeHandler
  cases e.domain? with
  | none => exact h
  | some d =>
      have hfailed : AuditedRow log2 items
          (t.committed.map (EvaluationRun.fail d.code d.message)) := by
        intro run hrun
        obtain ⟨run', hrun', rfl⟩ := Option.map_eq_some_iff.mp hrun
        exact audited_of_status (h run' hrun').itemCount (by simp [EvaluationRun.fail])
      rw [wp_bind]
      refine wp_mono (wp_amend_committed (D := Option (EvaluationRun K)) h hfailed) ?_ ?_
      · exact fun _ _ h' => h'
      · exact fun _ _ h' => h'

/-- **An attempt leaves a run whose report can be audited**, in whatever order it takes the
items. -/
theorem audited_execute {order : List EvaluationItem} (horder : order.Perm items)
    (h : Audited log2 items run) :
    wp (execute log2 a order) (fun _ t => AuditedRow log2 items t.committed)
      (fun _ t => AuditedRow log2 items t.committed) ⟨some run, some run⟩ := by
  have hrow : AuditedRow log2 items (some run) := fun _ hrun => Option.some.inj hrun ▸ h
  have hrunning : AuditedRow log2 items (some { run with status := .running }) := by
    intro run' hrun
    obtain rfl := Option.some.inj hrun
    exact audited_of_status h.itemCount (by simp)
  simp only [execute, wp_bind, wp_await, wp_current, wp_ask, wp_change, wp_commit, Option.map_some]
  refine ⟨fun _ => ⟨fun _ => ⟨fun config _ => ⟨fun _ _ => ?_, fun e _ => ?_⟩, fun _ _ => hrow⟩,
    fun _ _ => hrow⟩, fun _ _ => hrow⟩
  · simp only [wp_ensuring, wp_handling]
    have hclose : ∀ {t : Txn (Option (EvaluationRun K))}, AuditedRow log2 items t.committed →
        wp (closeProviders a config) (fun _ t => AuditedRow log2 items t.committed)
          (fun _ t => AuditedRow log2 items t.committed) t :=
      fun ht => wp_closeProviders ht fun _ => ht
    have hhandle : ∀ {e : Exc} {t : Txn (Option (EvaluationRun K))},
        AuditedRow log2 items t.committed → wp (executeHandler a e)
          (fun _ t => wp (closeProviders a config)
            (fun _ t => AuditedRow log2 items t.committed)
            (fun _ t => AuditedRow log2 items t.committed) t)
          (fun _ t => wp (closeProviders a config)
            (fun _ t => AuditedRow log2 items t.committed)
            (fun _ t => AuditedRow log2 items t.committed) t) t :=
      fun ht => wp_mono (wp_executeHandler_audited ht) (fun _ _ h' => hclose h')
        fun _ _ h' => hclose h'
    simp only [score, wp_bind, wp_ask]
    refine ⟨fun _ _ => ⟨fun generator _ => ?_, fun _ _ => hhandle hrunning⟩,
      fun _ _ => hhandle hrunning⟩
    refine wp_executeItems ?_ fun e t' _ ht' => hhandle (ht' ▸ hrunning)
    intro rows hrows
    have hpublished : AuditedRow log2 items (some (EvaluationRun.publish (rows.map Prod.snd)
        { run with status := .running, results := run.results ++ rows.map Prod.fst })) := by
      intro run' hrun
      obtain rfl := Option.some.inj hrun
      exact ⟨h.itemCount, fun _ =>
        ⟨order, horder, _, reportOf_publish hrows { run with status := .running }⟩⟩
    simp only [wp_bind, wp_change, wp_commit, Option.map_some]
    refine ⟨fun _ _ => hclose hpublished, fun e _ => ?_⟩
    by_cases hlands : a.finalCommit.Lands
    · rw [if_pos hlands]
      exact hhandle hpublished
    · rw [if_neg hlands]
      exact hhandle hrunning
  · by_cases hlands : a.startCommit.Lands
    · rw [if_pos hlands]
      exact hrunning
    · rw [if_neg hlands]
      exact hrow

end Attempts

end Evaluation
end EvidenceLab
