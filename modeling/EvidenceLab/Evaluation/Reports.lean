/-
# Reports, overall and by condition

`aggregate` and `aggregate_by` of `evaluation/scoring.py` once more, on scores whose metrics
and failures have any names, as `ItemScore` declares them, and with the dictionary that is
stored.  It holds the metrics next to the counts of the failures and the number of items, so
a metric of one of their names is not reported (`reservedKeys`).

A report is made of one list of scores and another one of each condition.  What is counted
of a list adds up over its parts, so the reports of the conditions add up to the overall one
(`aggregate_decomposes`): an undefined value is counted in neither.
-/

import EvidenceLab.Evaluation.Scoring
import Mathlib.Data.PNat.Basic
import Mathlib.Data.Rat.Cast.Defs

namespace EvidenceLab
namespace Evaluation

/-! ### The texts of the names -/

namespace MetricName

/-- The text of a metric before its depth. -/
def stem : MetricName → String
  | recallAt _ => "recall@"
  | precisionAt _ => "precision@"
  | hitRateAt _ => "hit_rate@"
  | ndcgAt _ => "ndcg@"
  | name => name.str

/-- The depth of a metric; one that has none counts as one of depth 1. -/
def depth : MetricName → Option ℕ+
  | recallAt k => some k
  | precisionAt k => some k
  | hitRateAt k => some k
  | ndcgAt k => some k
  | _ => none

/-- The metrics of a depth, and those that have none. -/
def ofDepth (k : ℕ+) : List MetricName :=
  [recallAt k, precisionAt k, hitRateAt k, ndcgAt k, mrr, citationPrecision, citationRecall,
    citationValidity, evidenceCoverage, unsupportedClaimRate, abstentionCorrect, inputTokens,
    outputTokens, totalTokens, cost, latencyMs, retrievalLatencyMs, generationLatencyMs, failed]

/-- The metric of a text. -/
def read (s : String) : Option MetricName :=
  (ofDepth (Nat.ofDigitChars 10 (s.toList.dropWhile (!·.isDigit)) 0).toPNat').find?
    fun name => name.stem.toList = s.toList.takeWhile (!·.isDigit)

theorem toList_str (name : MetricName) :
    name.str.toList = name.stem.toList ++ (name.depth.elim [] fun k => Nat.toDigits 10 k) := by
  cases name <;> simp [str, stem, depth] <;> rfl

theorem mem_ofDepth (name : MetricName) : name ∈ ofDepth (name.depth.getD 1) := by
  cases name <;> simp [ofDepth, depth]

/-- The stems are the same at every depth. -/
theorem stems_eq (k : ℕ+) : (ofDepth k).map (fun name => name.stem.toList) =
    (ofDepth 1).map fun name => name.stem.toList := by
  simp only [ofDepth, List.map_cons, List.map_nil, stem]

theorem nodup_stems (k : ℕ+) : ((ofDepth k).map fun name => name.stem.toList).Nodup := by
  rw [stems_eq]
  decide +kernel

theorem not_isDigit_stem (name : MetricName) : ∀ c ∈ name.stem.toList, (!c.isDigit) = true := by
  have hstems : ((ofDepth 1).map fun other => other.stem.toList).all
      (fun stem => stem.all fun c => !c.isDigit) = true := by decide +kernel
  have hmem := List.mem_map_of_mem (f := fun other => other.stem.toList) (mem_ofDepth name)
  rw [stems_eq] at hmem
  exact List.all_eq_true.mp (List.all_eq_true.mp hstems _ hmem)

/-- **A metric is read back from its text.** -/
theorem read_str (name : MetricName) : read name.str = some name := by
  have hdigits : ∀ c ∈ name.depth.elim [] fun k => Nat.toDigits 10 k, (!c.isDigit) = false := by
    intro c hc
    cases hdepth : name.depth with
    | none =>
        rw [hdepth] at hc
        cases hc
    | some k =>
        rw [hdepth] at hc
        simpa using Nat.isDigit_of_mem_toDigits (by decide) (by decide) hc
  have htake : name.str.toList.takeWhile (!·.isDigit) = name.stem.toList := by
    rw [toList_str, List.takeWhile_append_of_pos (not_isDigit_stem name),
      List.takeWhile_eq_nil_iff.mpr, List.append_nil]
    intro hpos
    simpa using hdigits _ (List.getElem_mem hpos)
  have hdrop : name.str.toList.dropWhile (!·.isDigit) =
      name.depth.elim [] fun k => Nat.toDigits 10 k := by
    rw [toList_str, List.dropWhile_append_of_pos (not_isDigit_stem name)]
    refine List.dropWhile_eq_self_iff.mpr ?_
    intro hpos
    exact Bool.eq_false_iff.mp (hdigits _ (List.getElem_mem hpos))
  have hdepth : (Nat.ofDigitChars 10 (name.depth.elim [] fun k => Nat.toDigits 10 k) 0).toPNat' =
      name.depth.getD 1 := by
    cases name.depth with
    | none => rfl
    | some k => simp
  rw [read, hdrop, hdepth, htake]
  exact Data.find?_key (fun other => other.stem.toList) (nodup_stems _) (mem_ofDepth name)

theorem str_injective : Function.Injective str := by
  intro a b h
  have hread := congrArg read h
  rw [read_str, read_str] at hread
  exact Option.some.inj hread

end MetricName

theorem FailureCategory.str_injective : Function.Injective FailureCategory.str := by
  intro a b h
  cases a <;> cases b <;> first | rfl | exact absurd h (by decide)

namespace Reports

open Text Data EvidenceLab.Core

variable {K : Type} [Field K]

/-- `ItemScore`. -/
structure ItemScore (K : Type) where
  metrics : Dict String (Option K) := Dict.empty
  failureCategory : Option String := none

/-- `score.metrics.get(name)`. -/
def ItemScore.metric (score : ItemScore K) (name : String) : Option K :=
  (score.metrics.get? name).join

/-- A value of the dictionary that `aggregate` returns. -/
inductive Entry (K : Type)
  | metric (mean : Option K) (n : ℕ)
  | categories (counts : Dict String ℕ)
  | count (n : ℕ)

/-- What `aggregate` returns. -/
abbrev Report (K : Type) := Dict String (Entry K)

/-- `names`: those of the metrics, in the order in which they are first seen. -/
def metricNames (scores : List (ItemScore K)) : List String :=
  (scores.foldl (fun names score => score.metrics.keys.foldl
    (fun names name => names.setDefault name ()) names) (Dict.empty : Dict String Unit)).keys

/-- One turn of the loop over the failures; an empty name is none. -/
def countCategory (d : Dict String ℕ) (score : ItemScore K) : Dict String ℕ :=
  match score.failureCategory with
  | some category => if category = "" then d else d.alter category fun o => o.getD 0 + 1
  | none => d

/-- `categories`. -/
def countCategories (scores : List (ItemScore K)) : Dict String ℕ :=
  scores.foldl countCategory Dict.empty

/-- The keys that are set after the metrics. -/
def categoriesKey : String := "failure_categories"
def countKey : String := "item_count"

/-- `aggregate`. -/
def aggregate (scores : List (ItemScore K)) : Report K :=
  let aggregated := (metricNames scores).foldl (fun d name =>
    let values := scores.map fun score => score.metric name
    d.set name (.metric (mean values) (definedCount values))) Dict.empty
  (aggregated.set categoriesKey (.categories (countCategories scores))).set countKey
    (.count scores.length)

/-- `aggregate_by`: the groups sorted by key. -/
def aggregateBy (scores : List (Str × ItemScore K)) : List (Str × Report K) :=
  ((Dict.groups scores).entries.mergeSort fun a b => a.1 ≤ b.1).map fun entry =>
    (entry.1, aggregate entry.2)

/-! ### Reading a report -/

namespace Report

variable (r : Report K)

/-- The mean of a metric; it is null, or there is no metric of that name. -/
def mean (name : String) : Option K :=
  match r.get? name with
  | some (.metric mean _) => mean
  | _ => none

/-- The `n` of a metric, which is zero where there is none. -/
def n (name : String) : ℕ :=
  match r.get? name with
  | some (.metric _ n) => n
  | _ => 0

/-- `item_count`. -/
def itemCount : ℕ :=
  match r.get? countKey with
  | some (.count n) => n
  | _ => 0

/-- The count of a failure under `failure_categories`. -/
def failures (category : String) : ℕ :=
  match r.get? categoriesKey with
  | some (.categories counts) => (counts.get? category).getD 0
  | _ => 0

end Report

/-! ### What a report says of its scores -/

variable {scores : List (ItemScore K)} {name category : String}

/-- The values of a metric, `none` where a score has none. -/
def valuesOf (scores : List (ItemScore K)) (name : String) : List (Option K) :=
  scores.map fun score => score.metric name

/-- The names that no metric is reported under. -/
def reservedKeys : List String := [categoriesKey, countKey]

omit [Field K] in
theorem mem_metricNames :
    name ∈ metricNames scores ↔ ∃ score ∈ scores, name ∈ score.metrics.keys := by
  have h := Dict.mem_keys_collect (scores.map fun score => score.metrics.keys) name
  rw [List.foldl_map] at h
  rw [metricNames]
  simpa only [List.mem_map, exists_exists_and_eq_and] using h

omit [Field K] in
/-- A metric that no score has a key for has no value. -/
theorem valuesOf_eq_replicate (h : name ∉ metricNames scores) :
    valuesOf scores name = List.replicate scores.length none := by
  refine List.eq_replicate_iff.mpr ⟨List.length_map _, ?_⟩
  intro v hv
  obtain ⟨score, hscore, rfl⟩ := List.mem_map.mp hv
  have hno : name ∉ score.metrics.keys := fun hkey => h (mem_metricNames.mpr ⟨score, hscore, hkey⟩)
  rw [ItemScore.metric, Dict.get?_of_not_mem_keys hno]
  rfl

/-- The entry of a name that is not reserved. -/
theorem get?_aggregate (hname : name ∉ reservedKeys) :
    (aggregate scores).get? name = if name ∈ metricNames scores then
      some (.metric (mean (valuesOf scores name)) (definedCount (valuesOf scores name)))
      else none := by
  simp only [reservedKeys, List.mem_cons, List.not_mem_nil, or_false, not_or] at hname
  rw [aggregate, Dict.get?_set, if_neg hname.2, Dict.get?_set, if_neg hname.1]
  exact Dict.get?_foldl_set_keys (fun name => Entry.metric (mean (valuesOf scores name))
    (definedCount (valuesOf scores name))) (metricNames scores) Dict.empty name

theorem categoriesKey_ne_countKey : categoriesKey ≠ countKey := by decide

/-- A reserved name has no metric. -/
theorem metric_reserved (hname : name ∈ reservedKeys) :
    (aggregate scores).mean name = none ∧ (aggregate scores).n name = 0 := by
  rcases List.mem_pair.mp hname with rfl | rfl
  · rw [Report.mean, Report.n, aggregate, Dict.get?_set, if_neg categoriesKey_ne_countKey,
      Dict.get?_set, if_pos rfl]
    exact ⟨rfl, rfl⟩
  · rw [Report.mean, Report.n, aggregate, Dict.get?_set, if_pos rfl]
    exact ⟨rfl, rfl⟩

/-- **The metric of a name** is the mean and the count of its values. -/
theorem metric_aggregate (hname : name ∉ reservedKeys) :
    (aggregate scores).mean name = mean (valuesOf scores name) ∧
      (aggregate scores).n name = definedCount (valuesOf scores name) := by
  rw [Report.mean, Report.n, get?_aggregate hname]
  by_cases hmem : name ∈ metricNames scores
  · rw [if_pos hmem]
    exact ⟨rfl, rfl⟩
  · rw [if_neg hmem, valuesOf_eq_replicate hmem]
    have hnone : (List.replicate scores.length (none : Option K)).filterMap id = [] := by
      rw [List.filterMap_replicate]
      rfl
    rw [mean, definedCount, hnone]
    exact ⟨rfl, rfl⟩

theorem itemCount_aggregate : (aggregate scores).itemCount = scores.length := by
  rw [Report.itemCount, aggregate, Dict.get?_set, if_pos rfl]

/-- The failure of a score, if it has one. -/
def ItemScore.failed (category : String) (score : ItemScore K) : Bool :=
  category ≠ "" ∧ score.failureCategory = some category

/-- **The count of a failure** is the number of the scores that have it. -/
theorem failures_aggregate :
    (aggregate scores).failures category = scores.countP (·.failed category) := by
  have hloop : ∀ (scores : List (ItemScore K)) (d : Dict String ℕ),
      ((scores.foldl countCategory d).get? category).getD 0 =
        (d.get? category).getD 0 + scores.countP (·.failed category) := by
    intro scores
    induction scores with
    | nil => exact fun d => rfl
    | cons score scores ih =>
        intro d
        rw [List.foldl_cons, ih, List.countP_cons, countCategory]
        cases hfailure : score.failureCategory with
        | none => simp [ItemScore.failed, hfailure]
        | some failure =>
            by_cases hempty : failure = ""
            · simp only [hempty, if_true]
              rw [if_neg (by simp [ItemScore.failed, hfailure, hempty, eq_comm])]
              rfl
            · simp only [hempty, if_false, Dict.get?_alter]
              by_cases hcategory : category = failure
              · subst hcategory
                rw [if_pos rfl, if_pos (by simp [ItemScore.failed, hfailure, hempty])]
                simp only [Option.getD_some]
                omega
              · rw [if_neg hcategory,
                  if_neg (by simp [ItemScore.failed, hfailure, Ne.symm hcategory])]
                rfl
  rw [Report.failures, aggregate, Dict.get?_set, if_neg categoriesKey_ne_countKey, Dict.get?_set,
    if_pos rfl]
  refine (hloop scores Dict.empty).trans ?_
  exact Nat.zero_add _

/-! ### The scores of an item -/

/-- A score of `scoreItem`, its names as texts. -/
def ofScore (score : Evaluation.ItemScore K) : ItemScore K where
  metrics := score.metrics.mapKeys MetricName.str MetricName.str_injective
  failureCategory := score.failureCategory.map FailureCategory.str

/-- No metric has a reserved name. -/
theorem str_not_mem_reservedKeys (name : MetricName) : name.str ∉ reservedKeys := by
  intro h
  have hread := MetricName.read_str name
  rcases List.mem_pair.mp h with hkey | hkey
  · rw [hkey] at hread
    exact absurd (hread.symm.trans (by decide : MetricName.read categoriesKey = none)) (by simp)
  · rw [hkey] at hread
    exact absurd (hread.symm.trans (by decide : MetricName.read countKey = none)) (by simp)

omit [Field K] in
theorem mem_metricNames_ofScore {scores : List (Evaluation.ItemScore K)} {name : MetricName} :
    name.str ∈ metricNames (scores.map ofScore) ↔ name ∈ Evaluation.metricNames scores := by
  have h := Dict.mem_keys_collect (scores.map fun score => score.metrics.keys) name
  rw [List.foldl_map] at h
  rw [Evaluation.metricNames, h, mem_metricNames]
  simp only [List.mem_map, exists_exists_and_eq_and, ofScore, Dict.keys_mapKeys,
    MetricName.str_injective.eq_iff, exists_eq_right]

omit [Field K] in
theorem metric_ofScore (score : Evaluation.ItemScore K) (name : MetricName) :
    (ofScore score).metric name.str = score.metric name :=
  congrArg Option.join (Dict.get?_mapKeys MetricName.str MetricName.str_injective ..)

theorem str_ne_empty (category : FailureCategory) : category.str ≠ "" := by
  cases category <;> decide

/-- The failures of the items are counted under their texts. -/
theorem get?_countCategories_ofScore (scores : List (Evaluation.ItemScore K))
    (category : FailureCategory) :
    (countCategories (scores.map ofScore)).get? category.str =
      (Evaluation.aggregate scores).failureCategories.get? category := by
  rw [countCategories, Evaluation.aggregate, List.foldl_map]
  refine List.foldl_rel (r := fun (d : Dict String ℕ) (d' : Dict FailureCategory ℕ) =>
    ∀ c, d.get? (FailureCategory.str c) = d'.get? c) (fun _ => rfl) ?_ category
  intro score _ d d' h c
  rw [ofScore]
  cases score.failureCategory with
  | none => exact h c
  | some failure =>
      simp only [Option.map_some, countCategory, if_neg (str_ne_empty failure), Dict.get?_alter,
        FailureCategory.str_injective.eq_iff, h]

/-- **The stored report of the items is their aggregate.** -/
theorem aggregate_ofScore (scores : List (Evaluation.ItemScore K)) :
    (∀ name : MetricName, (aggregate (scores.map ofScore)).get? name.str =
      ((Evaluation.aggregate scores).metrics.get? name).map fun m => Entry.metric m.mean m.n) ∧
    (∀ category : FailureCategory, (aggregate (scores.map ofScore)).failures category.str =
      ((Evaluation.aggregate scores).failureCategories.get? category).getD 0) ∧
    (aggregate (scores.map ofScore)).itemCount = (Evaluation.aggregate scores).itemCount := by
  refine ⟨?_, ?_, ?_⟩
  · intro name
    have hvalues : valuesOf (scores.map ofScore) name.str =
        scores.map fun score => score.metric name := by
      rw [valuesOf, List.map_map]
      exact List.map_congr_left fun score _ => metric_ofScore score name
    have htyped := Dict.get?_foldl_set_keys (fun name : MetricName =>
      (⟨mean (scores.map fun score => score.metric name),
        definedCount (scores.map fun score => score.metric name)⟩ : AggregatedMetric K))
      (Evaluation.metricNames scores) Dict.empty name
    rw [get?_aggregate (str_not_mem_reservedKeys name), hvalues]
    refine Eq.trans ?_ (congrArg (Option.map fun m => Entry.metric m.mean m.n) htyped).symm
    by_cases hmem : name ∈ Evaluation.metricNames scores
    · rw [if_pos hmem, if_pos (mem_metricNames_ofScore.mpr hmem)]
      rfl
    · rw [if_neg hmem, if_neg (mt mem_metricNames_ofScore.mp hmem)]
      rfl
  · intro category
    rw [← get?_countCategories_ofScore, Report.failures, aggregate, Dict.get?_set,
      if_neg categoriesKey_ne_countKey, Dict.get?_set, if_pos rfl]
  · rw [itemCount_aggregate, List.length_map]
    rfl

/-! ### Adding up -/

/-- A mean is null iff nothing is counted. -/
theorem mean_eq_none {values : List (Option K)} : mean values = none ↔ definedCount values = 0 := by
  rw [mean, definedCount, List.length_eq_zero_iff]
  split_ifs with h
  · exact iff_of_true rfl h
  · exact iff_of_false not_false h

/-- A mean times its count is the sum of the values. -/
theorem mean_mul_definedCount [CharZero K] (values : List (Option K)) :
    (mean values).getD 0 * definedCount values = (values.filterMap id).sum := by
  rw [mean, definedCount]
  split_ifs with h
  · rw [h]
    exact zero_mul _
  · have hlen : ((values.filterMap id).length : K) ≠ 0 := by
      rw [Nat.cast_ne_zero, Ne, List.length_eq_zero_iff]
      exact h
    exact div_mul_cancel₀ _ hlen

omit [Field K] in
theorem additive_definedCount (name : String) :
    Dict.Additive fun scores : List (ItemScore K) => definedCount (valuesOf scores name) where
  nil := rfl
  append xs ys := by
    simp only [definedCount, valuesOf, List.map_append, List.filterMap_append, List.length_append]

theorem additive_total (name : String) :
    Dict.Additive fun scores : List (ItemScore K) => ((valuesOf scores name).filterMap id).sum where
  nil := rfl
  append xs ys := by
    simp only [valuesOf, List.map_append, List.filterMap_append, List.sum_append]

/-- The mean times the count of a metric, whatever its name. -/
theorem total_aggregate [CharZero K] (scores : List (ItemScore K)) (name : String) :
    ((aggregate scores).mean name).getD 0 * (aggregate scores).n name =
      if name ∈ reservedKeys then 0 else ((valuesOf scores name).filterMap id).sum := by
  split_ifs with hname
  · rw [(metric_reserved hname).1, (metric_reserved hname).2]
    exact zero_mul _
  · rw [(metric_aggregate hname).1, (metric_aggregate hname).2, mean_mul_definedCount]

theorem mean_aggregate_eq_none (scores : List (ItemScore K)) (name : String) :
    (aggregate scores).mean name = none ↔ (aggregate scores).n name = 0 := by
  by_cases hname : name ∈ reservedKeys
  · exact iff_of_true (metric_reserved hname).1 (metric_reserved hname).2
  · rw [(metric_aggregate hname).1, (metric_aggregate hname).2, mean_eq_none]

/-- **What adds up over lists of scores adds up over the conditions.** -/
theorem sum_aggregateBy {M : Type} [AddCommMonoid M] {F : List (ItemScore K) → M}
    (hF : Dict.Additive F) {G : Report K → M} (hG : ∀ scores, G (aggregate scores) = F scores)
    (scores : List (Str × ItemScore K)) :
    G (aggregate (scores.map Prod.snd)) = ((aggregateBy scores).map fun c => G c.2).sum := by
  have hsorted := (List.mergeSort_perm (Dict.groups scores).entries fun a b => a.1 ≤ b.1).map
    fun group => F group.2
  rw [aggregateBy, List.map_map, hG, ← hF.sum_groups scores]
  refine Eq.trans hsorted.sum_eq.symm (congrArg List.sum (List.map_congr_left ?_))
  intro group _
  exact (hG group.2).symm

/-- **Reports decompose by condition.**  Counts, sums, numbers of items and failures of all
the scores are those of the conditions, added up; a mean is null exactly where nothing is
counted. -/
theorem aggregate_decomposes (scores : List (Str × ItemScore ℚ)) :
    let overall := aggregate (scores.map Prod.snd)
    let byCondition := aggregateBy scores
    (∀ name, overall.n name = (byCondition.map fun c => c.2.n name).sum ∧
      (overall.mean name).getD 0 * overall.n name =
        (byCondition.map fun c => (c.2.mean name).getD 0 * (c.2.n name : ℚ)).sum ∧
      (overall.mean name = none ↔ overall.n name = 0) ∧
      ∀ c ∈ byCondition, c.2.mean name = none ↔ c.2.n name = 0) ∧
    overall.itemCount = (byCondition.map fun c => c.2.itemCount).sum ∧
    ∀ category, overall.failures category =
      (byCondition.map fun c => c.2.failures category).sum := by
  refine ⟨?_, ?_, ?_⟩
  · intro name
    refine ⟨?_, ?_, mean_aggregate_eq_none _ name, ?_⟩
    · by_cases hname : name ∈ reservedKeys
      · exact sum_aggregateBy (F := fun _ => 0) ⟨rfl, fun _ _ => rfl⟩ (G := (·.n name))
          (fun _ => (metric_reserved hname).2) scores
      · exact sum_aggregateBy (additive_definedCount name) (G := (·.n name))
          (fun _ => (metric_aggregate hname).2) scores
    · by_cases hname : name ∈ reservedKeys
      · refine sum_aggregateBy (F := fun _ => (0 : ℚ)) ⟨rfl, fun _ _ => (add_zero 0).symm⟩
          (G := fun r : Report ℚ => (r.mean name).getD 0 * (r.n name : ℚ)) ?_ scores
        intro scores
        rw [total_aggregate, if_pos hname]
      · refine sum_aggregateBy (additive_total name)
          (G := fun r : Report ℚ => (r.mean name).getD 0 * (r.n name : ℚ)) ?_ scores
        intro scores
        rw [total_aggregate, if_neg hname]
    · intro c hc
      obtain ⟨group, -, rfl⟩ := List.mem_map.mp hc
      exact mean_aggregate_eq_none group.2 name
  · exact sum_aggregateBy (F := List.length) ⟨rfl, fun _ _ => List.length_append⟩
      (G := (·.itemCount)) (fun _ => itemCount_aggregate) scores
  · intro category
    exact sum_aggregateBy (F := List.countP (·.failed category))
      ⟨rfl, fun _ _ => List.countP_append⟩ (G := (·.failures category))
      (fun _ => failures_aggregate) scores

end Reports
end Evaluation
end EvidenceLab
