/-
# The retrieval metrics of one item

Recall, precision, hit rate and gain at one depth, the reciprocal rank and the failure
category are computed one by one from what was retrieved and what is gold.  All of them ask
whether the top of the ranking holds a gold chunk (`Found`), so they cannot contradict each
other (`retrieval_metrics_agree`), whatever is repeated among the retrieved chunks or the
gold ones.
-/

import EvidenceLab.Evaluation.Gain
import EvidenceLab.Evaluation.RunItem

namespace EvidenceLab
namespace Evaluation

open Text Data EvidenceLab.Core

/-! ### Hits in the top -/

section Found

variable {retrieved : List Uuid} {gold : Finset Uuid} {k k' : ℕ+}

/-- A gold chunk is in the top `k`. -/
def Found (retrieved : List Uuid) (gold : Finset Uuid) (k : ℕ+) : Prop :=
  ∃ x ∈ gold, x ∈ top retrieved k

theorem found_iff_inter :
    Found retrieved gold k ↔ ((top retrieved k).toFinset ∩ gold).Nonempty := by
  simp only [Found, Finset.Nonempty, Finset.mem_inter, List.mem_toFinset, and_comm]

theorem found_iff_card : Found retrieved gold k ↔ 0 < ((top retrieved k).toFinset ∩ gold).card := by
  rw [found_iff_inter, Finset.card_pos]

/-- So there is a hit at one of the first `k` positions. -/
theorem found_iff_position :
    Found retrieved gold k ↔ ∃ i < (k : ℕ), ∃ x ∈ gold, retrieved[i]? = some x := by
  constructor
  · rintro ⟨x, hx, hmem⟩
    obtain ⟨i, hi⟩ := List.mem_iff_getElem?.mp hmem
    rw [top, List.getElem?_take] at hi
    split_ifs at hi with hik
    exact ⟨i, hik, x, hx, hi⟩
  · rintro ⟨i, hik, x, hx, hi⟩
    refine ⟨x, hx, List.mem_iff_getElem?.mpr ⟨i, ?_⟩⟩
    rw [top, List.getElem?_take, if_pos hik]
    exact hi

theorem found_iff_hits : Found retrieved gold k ↔ (hits retrieved gold k).Nonempty := by
  rw [found_iff_position]
  exact exists_congr fun i => mem_hits.symm

theorem top_subset (h : k ≤ k') : top retrieved k ⊆ top retrieved k' :=
  fun _ hx => (List.take_sublist_take_left (show (k : ℕ) ≤ k' from h)).subset hx

theorem Found.mono (h : Found retrieved gold k) (hk : k ≤ k') : Found retrieved gold k' := by
  obtain ⟨x, hx, hmem⟩ := h
  exact ⟨x, hx, top_subset hk hmem⟩

/-- The chunks of a ranking are the top of a deep enough one. -/
theorem exists_top_eq (retrieved : List Uuid) : ∃ k : ℕ+, top retrieved k = retrieved :=
  ⟨⟨retrieved.length + 1, Nat.succ_pos _⟩, List.take_of_length_le (Nat.le_succ _)⟩

end Found

/-! ### One metric at a time -/

section Metrics

variable {K : Type} [Field K] [LinearOrder K] [IsStrictOrderedRing K] {log2 : ℕ → K}
  {retrieved : List Uuid} {gold : Finset Uuid} {k k' : ℕ+}

omit [LinearOrder K] [IsStrictOrderedRing K] in
theorem recallAtK_eq (hgold : gold.Nonempty) : recallAtK (K := K) retrieved gold k =
    some ((((top retrieved k).toFinset ∩ gold).card : K) / gold.card) :=
  if_neg hgold.ne_empty

theorem recall_pos_iff (hgold : gold.Nonempty) :
    (∃ v ∈ recallAtK (K := K) retrieved gold k, 0 < v) ↔ Found retrieved gold k := by
  have hcard : (0 : K) < gold.card := Nat.cast_pos.mpr hgold.card_pos
  simp only [recallAtK_eq hgold, Option.mem_some_iff, exists_eq_left']
  rw [div_pos_iff_of_pos_right hcard, Nat.cast_pos, found_iff_card]

theorem precision_pos_iff (hgold : gold.Nonempty) :
    (∃ v ∈ precisionAtK (K := K) retrieved gold k, 0 < v) ↔ Found retrieved gold k := by
  rw [precisionAtK, if_neg hgold.ne_empty]
  by_cases htop : top retrieved k = []
  · simp [Found, htop]
  · have hlen : (0 : K) < (top retrieved k).length :=
      Nat.cast_pos.mpr (List.length_pos_iff.mpr htop)
    simp only [if_neg htop, Option.mem_some_iff, exists_eq_left']
    rw [div_pos_iff_of_pos_right hlen, Nat.cast_pos, found_iff_card]

theorem hitRate_eq_one_iff (hgold : gold.Nonempty) :
    hitRateAtK (K := K) retrieved gold k = some 1 ↔ Found retrieved gold k := by
  rw [hitRateAtK, if_neg hgold.ne_empty, Option.some_inj, found_iff_inter,
    Finset.nonempty_iff_ne_empty]
  by_cases hempty : (top retrieved k).toFinset ∩ gold = ∅ <;> simp [hempty]

theorem ndcg_pos_iff (h : Logarithmic log2) (hgold : gold.Nonempty) :
    (∃ v ∈ ndcgAtK log2 retrieved gold k, 0 < v) ↔ Found retrieved gold k := by
  simp only [ndcgAtK_eq h hgold, Option.mem_some_iff, exists_eq_left']
  rw [div_pos_iff_of_pos_right (h.idealDcg_pos hgold), dcgAtK_eq_sum, found_iff_hits]
  constructor
  · intro hpos
    rw [Finset.nonempty_iff_ne_empty]
    intro hempty
    rw [hempty, Finset.sum_empty] at hpos
    exact lt_irrefl _ hpos
  · exact Finset.sum_pos fun i _ => h.discount_pos i

omit [LinearOrder K] [IsStrictOrderedRing K] in
/-- The reciprocal rank is that of the first hit, or zero. -/
theorem reciprocalRank_cases (retrieved : List Uuid) (hgold : gold.Nonempty) :
    (reciprocalRank (K := K) retrieved gold = some 0 ∧ ∀ x ∈ gold, x ∉ retrieved) ∨
      ∃ i : ℕ, reciprocalRank retrieved gold = some (1 / ((i + 1 : ℕ) : K)) ∧
        (∃ x ∈ gold, retrieved[i]? = some x) ∧
        ∀ j < i, ¬ ∃ x ∈ gold, retrieved[j]? = some x := by
  rw [reciprocalRank, if_neg hgold.ne_empty]
  cases hfind : retrieved.zipIdx.find? fun entry => decide (entry.1 ∈ gold) with
  | none =>
      refine Or.inl ⟨rfl, ?_⟩
      intro x hx hmem
      obtain ⟨i, hi⟩ := List.mem_iff_getElem?.mp hmem
      have hentry : (x, i) ∈ retrieved.zipIdx := List.mem_zipIdx_iff_getElem?.mpr hi
      exact absurd (decide_eq_true hx) (List.find?_eq_none.mp hfind _ hentry)
  | some entry =>
      obtain ⟨hgold', i, hi, heq, hbefore⟩ := List.find?_eq_some_iff_getElem.mp hfind
      rw [List.length_zipIdx] at hi
      rw [List.getElem_zipIdx, Nat.zero_add] at heq
      subst heq
      refine Or.inr ⟨i, rfl, ⟨_, of_decide_eq_true hgold', List.getElem?_eq_getElem hi⟩, ?_⟩
      rintro j hji ⟨x, hx, hget⟩
      obtain ⟨hj, hxj⟩ := List.getElem?_eq_some_iff.mp hget
      have hno := hbefore j hji
      rw [List.getElem_zipIdx, hxj] at hno
      simp [hx] at hno

theorem mrr_ge_iff (hgold : gold.Nonempty) :
    (∃ v ∈ reciprocalRank (K := K) retrieved gold, 1 / ((k : ℕ) : K) ≤ v) ↔
      Found retrieved gold k := by
  have hk : (0 : K) < (k : ℕ) := Nat.cast_pos.mpr k.pos
  rw [found_iff_position]
  rcases reciprocalRank_cases (K := K) retrieved hgold with
    ⟨hzero, hno⟩ | ⟨i, hrank, hhit, hbefore⟩
  · simp only [hzero, Option.mem_some_iff, exists_eq_left']
    refine iff_of_false (not_le.mpr (one_div_pos.mpr hk)) ?_
    rintro ⟨i, -, x, hx, hget⟩
    exact hno x hx (List.mem_of_getElem? hget)
  · simp only [hrank, Option.mem_some_iff, exists_eq_left']
    rw [one_div_le_one_div hk (Nat.cast_pos.mpr i.succ_pos), Nat.cast_le]
    constructor
    · exact fun hi => ⟨i, hi, hhit⟩
    · rintro ⟨j, hj, hhit'⟩
      by_contra hlt
      exact hbefore j (by omega) hhit'

theorem mrr_eq_zero_iff (hgold : gold.Nonempty) :
    reciprocalRank (K := K) retrieved gold = some 0 ↔ ∀ x ∈ gold, x ∉ retrieved := by
  rcases reciprocalRank_cases (K := K) retrieved hgold with
    ⟨hzero, hno⟩ | ⟨i, hrank, ⟨x, hx, hget⟩, -⟩
  · exact iff_of_true hzero hno
  · rw [hrank]
    refine iff_of_false ?_ fun hno => hno x hx (List.mem_of_getElem? hget)
    rw [Option.some_inj]
    exact (one_div_pos.mpr (Nat.cast_pos.mpr i.succ_pos)).ne'

theorem recall_mono (hgold : gold.Nonempty) (hk : k ≤ k') :
    ∀ v ∈ recallAtK (K := K) retrieved gold k, ∀ v' ∈ recallAtK (K := K) retrieved gold k',
      v ≤ v' := by
  simp only [recallAtK_eq hgold, Option.mem_some_iff, forall_eq']
  gcongr
  exact fun x hx => List.mem_toFinset.mpr (top_subset hk (List.mem_toFinset.mp hx))

theorem hitRate_mono (hgold : gold.Nonempty) (hk : k ≤ k') :
    ∀ v ∈ hitRateAtK (K := K) retrieved gold k, ∀ v' ∈ hitRateAtK (K := K) retrieved gold k',
      v ≤ v' := by
  have hvalue : ∀ k : ℕ+, hitRateAtK (K := K) retrieved gold k =
      some (if (top retrieved k).toFinset ∩ gold = ∅ then 0 else 1) := fun k =>
    if_neg hgold.ne_empty
  simp only [hvalue, Option.mem_some_iff, forall_eq']
  by_cases hfound : Found retrieved gold k
  · have hne := (found_iff_inter.mp hfound).ne_empty
    have hne' := (found_iff_inter.mp (hfound.mono hk)).ne_empty
    rw [if_neg hne, if_neg hne']
  · rw [found_iff_inter, Finset.not_nonempty_iff_eq_empty] at hfound
    rw [if_pos hfound]
    split_ifs
    · exact le_rfl
    · exact zero_le_one

theorem recall_eq_one_iff (hgold : gold.Nonempty) :
    (∃ k, recallAtK (K := K) retrieved gold k = some 1) ↔ ∀ x ∈ gold, x ∈ retrieved := by
  have hcard : (gold.card : K) ≠ 0 := Nat.cast_ne_zero.mpr hgold.card_pos.ne'
  have hone : ∀ k, recallAtK (K := K) retrieved gold k = some 1 ↔
      gold ⊆ (top retrieved k).toFinset := by
    intro k
    rw [recallAtK_eq hgold, Option.some_inj, div_eq_one_iff_eq hcard, Nat.cast_inj]
    constructor
    · intro heq
      exact Finset.inter_eq_right.mp
        (Finset.eq_of_subset_of_card_le Finset.inter_subset_right heq.ge)
    · intro hsub
      rw [Finset.inter_eq_right.mpr hsub]
  simp only [hone]
  constructor
  · rintro ⟨k, hsub⟩ x hx
    exact List.mem_of_mem_take (List.mem_toFinset.mp (hsub hx))
  · intro hall
    obtain ⟨k, hk⟩ := exists_top_eq retrieved
    refine ⟨k, fun x hx => ?_⟩
    rw [hk]
    exact List.mem_toFinset.mpr (hall x hx)

end Metrics

/-! ### Reading a score -/

/-- The metrics that are taken of the retrieved chunks alone. -/
def retrievalMetrics (k : ℕ+) : List MetricName :=
  [.recallAt k, .precisionAt k, .hitRateAt k, .ndcgAt k, .mrr]

/-- They are undefined together, where nothing is gold. -/
theorem retrievalMetric_eq_none {item : EvaluationItemSpec}
    {observation : ItemObservation ℝ} {k : ℕ+} :
    ∀ name ∈ retrievalMetrics k, metricValue realLog2 item observation name = none ↔
      item.goldChunks = [] := by
  have hgold : item.goldChunks.toFinset = ∅ ↔ item.goldChunks = [] := List.toFinset_eq_empty_iff _
  intro name hname
  rw [← hgold]
  by_cases hempty : item.goldChunks.toFinset = ∅
  · refine iff_of_true ?_ hempty
    simp only [retrievalMetrics, List.mem_cons, List.not_mem_nil, or_false] at hname
    rcases hname with rfl | rfl | rfl | rfl | rfl <;> exact if_pos hempty
  · have hne := Finset.nonempty_iff_ne_empty.mpr hempty
    refine iff_of_false ?_ hempty
    simp only [retrievalMetrics, List.mem_cons, List.not_mem_nil, or_false] at hname
    rcases hname with rfl | rfl | rfl | rfl | rfl
    · simp [metricValue, recallAtK, hempty]
    · simp only [metricValue, precisionAtK, if_neg hempty]
      split_ifs <;> simp
    · simp [metricValue, hitRateAtK, hempty]
    · simp [metricValue, ndcgAtK_eq logarithmic_realLog2 hne]
    · rcases reciprocalRank_cases (K := ℝ) observation.retrieved hne with ⟨h, -⟩ | ⟨i, h, -⟩ <;>
        simp [metricValue, h]

theorem asked_of_mem {kValues : List ℕ+} {k : ℕ+} (hk : k ∈ kValues) :
    ∀ name ∈ retrievalMetrics k, name.Asked kValues := by
  intro name hname
  simp only [retrievalMetrics, List.mem_cons, List.not_mem_nil, or_false] at hname
  rcases hname with rfl | rfl | rfl | rfl | rfl <;> first | exact hk | trivial

/-- A miss is a failure iff something is gold and nothing of it was retrieved. -/
theorem failureCategory_eq_miss_iff {item : EvaluationItemSpec} {observation : ItemObservation ℝ}
    (hok : observation.errorCode = none) (kValues : List ℕ+) :
    (scoreItem realLog2 item observation kValues).failureCategory = some .retrievalMiss ↔
      reciprocalRank (K := ℝ) observation.retrieved item.goldChunks.toFinset = some 0 := by
  have hinter : observation.retrieved.toFinset ∩ item.goldChunks.toFinset = ∅ ↔
      ∀ x ∈ item.goldChunks.toFinset, x ∉ observation.retrieved := by
    rw [Finset.inter_comm, ← Finset.disjoint_iff_inter_eq_empty, Finset.disjoint_left]
    simp only [List.mem_toFinset]
  rw [failureCategory_scoreItem, hok, Option.isSome_none, if_neg Bool.false_ne_true]
  by_cases hempty : item.goldChunks = []
  · rw [if_neg fun h => h.1 hempty, reciprocalRank,
      if_pos ((List.toFinset_eq_empty_iff _).mpr hempty)]
    refine iff_of_false ?_ (by simp)
    split_ifs <;> simp
  · have hgold : item.goldChunks.toFinset.Nonempty :=
      Finset.nonempty_iff_ne_empty.mpr fun h => hempty ((List.toFinset_eq_empty_iff _).mp h)
    rw [mrr_eq_zero_iff hgold, ← hinter]
    by_cases hmiss : observation.retrieved.toFinset ∩ item.goldChunks.toFinset = ∅
    · rw [if_pos ⟨hempty, hmiss⟩]
      exact iff_of_true rfl hmiss
    · rw [if_neg fun h => hmiss h.2]
      refine iff_of_false ?_ hmiss
      split_ifs <;> simp

/-- **The retrieval metrics of an item tell one story.**  They are all undefined, where
nothing is gold, or all defined; and then they agree, at every depth, on whether the top holds
a hit, recall and hit rate do not fall with the depth, and recall is full at some depth iff
all gold was retrieved.  The item is a retrieval miss iff its reciprocal rank is zero. -/
theorem retrieval_metrics_agree (item : EvaluationItemSpec) (observation : ItemObservation ℝ)
    (hok : observation.errorCode = none) (kValues : List ℕ+) :
    let score := scoreItem realLog2 item observation kValues
    (∀ k ∈ kValues, ∀ name ∈ retrievalMetrics k,
      score.metric name = none ↔ item.goldChunks = []) ∧
    (item.goldChunks ≠ [] →
      (∀ k ∈ kValues,
        (score.metric (.hitRateAt k) = some 1 ↔ ∃ v ∈ score.metric (.recallAt k), 0 < v) ∧
        ((∃ v ∈ score.metric (.recallAt k), 0 < v) ↔
          ∃ v ∈ score.metric (.precisionAt k), 0 < v) ∧
        ((∃ v ∈ score.metric (.precisionAt k), 0 < v) ↔ ∃ v ∈ score.metric (.ndcgAt k), 0 < v) ∧
        ((∃ v ∈ score.metric (.ndcgAt k), 0 < v) ↔
          ∃ v ∈ score.metric .mrr, 1 / ((k : ℕ) : ℝ) ≤ v)) ∧
      (∀ k ∈ kValues, ∀ k' ∈ kValues, k ≤ k' →
        (∀ v ∈ score.metric (.recallAt k), ∀ v' ∈ score.metric (.recallAt k'), v ≤ v') ∧
        ∀ v ∈ score.metric (.hitRateAt k), ∀ v' ∈ score.metric (.hitRateAt k'), v ≤ v') ∧
      ((∃ k, (scoreItem realLog2 item observation [k]).metric (.recallAt k) = some 1) ↔
        ∀ x ∈ item.goldChunks, x ∈ observation.retrieved)) ∧
    (score.failureCategory = some .retrievalMiss ↔ score.metric .mrr = some 0) := by
  intro score
  have hread : ∀ name : MetricName, name.Asked kValues →
      score.metric name = metricValue realLog2 item observation name :=
    fun _ h => metric_scoreItem realLog2 item observation kValues h
  refine ⟨?_, ?_, ?_⟩
  · intro k hk name hname
    rw [hread name (asked_of_mem hk name hname)]
    exact retrievalMetric_eq_none name hname
  · intro hne
    have hgold : item.goldChunks.toFinset.Nonempty :=
      Finset.nonempty_iff_ne_empty.mpr fun h => hne ((List.toFinset_eq_empty_iff _).mp h)
    refine ⟨?_, ?_, ?_⟩
    · intro k hk
      rw [hread (.hitRateAt k) hk, hread (.recallAt k) hk,
        hread (.precisionAt k) hk, hread (.ndcgAt k) hk,
        hread .mrr trivial]
      simp only [metricValue, hitRate_eq_one_iff hgold, recall_pos_iff hgold,
        precision_pos_iff hgold, ndcg_pos_iff logarithmic_realLog2 hgold, mrr_ge_iff hgold]
      exact ⟨trivial, trivial, trivial, trivial⟩
    · intro k hk k' hk' hle
      rw [hread (.recallAt k) hk, hread (.recallAt k') hk',
        hread (.hitRateAt k) hk, hread (.hitRateAt k') hk']
      exact ⟨recall_mono hgold hle, hitRate_mono hgold hle⟩
    · have hdepth : ∀ k, (scoreItem realLog2 item observation [k]).metric (.recallAt k) =
          recallAtK observation.retrieved item.goldChunks.toFinset k := fun k =>
        metric_scoreItem realLog2 item observation [k]
          (show (MetricName.recallAt k).Asked [k] from List.mem_singleton_self k)
      simp only [hdepth, recall_eq_one_iff hgold, List.mem_toFinset]
  · rw [failureCategory_eq_miss_iff hok kValues, hread .mrr trivial]
    rfl

/-- A gold chunk that is named twice, at the second of three positions. -/
theorem retrieval_metrics_agree_sample :
    let score := scoreItem (K := ℝ) realLog2 { question := [], goldChunks := [7, 7] }
      { retrieved := [5, 7, 5] } [1, 2]
    (score.failureCategory = some .retrievalMiss ↔ score.metric .mrr = some 0) ∧
      ∀ v ∈ score.metric (.recallAt 1), ∀ v' ∈ score.metric (.recallAt 2), v ≤ v' := by
  intro score
  have h := retrieval_metrics_agree { question := [], goldChunks := [7, 7] }
    { retrieved := [5, 7, 5] } rfl [1, 2]
  exact ⟨h.2.2, ((h.2.1 (by decide)).2.1 1 (by decide) 2 (by decide) (by decide)).1⟩

end Evaluation
end EvidenceLab
