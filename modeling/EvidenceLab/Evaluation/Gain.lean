/-
# Normalised gain

The gain of a ranking is the sum of a discount over the positions of its hits
(`dcgAtK_eq_sum`).  Of a list without duplicates no more than `min |gold| k` of the first `k`
are gold, and the discount strictly decreases, so the gain is at most that of the ideal
ranking, which is the only one to have it; and a hit that moves up gains (`ndcg_normalised`).
-/

import EvidenceLab.Data.Discounts
import EvidenceLab.Evaluation.Metrics
import Mathlib.Analysis.SpecialFunctions.Log.Base
import Mathlib.Data.List.NodupEquivFin

namespace EvidenceLab
namespace Evaluation

open Text Data

/-! ### Hits -/

section Hits

variable {retrieved : List Uuid} {gold : Finset Uuid} {k : ℕ+} {i j : ℕ} {x y : Uuid}

/-- The positions, from `0`, of the gold chunks in the top `k`. -/
def hits (retrieved : List Uuid) (gold : Finset Uuid) (k : ℕ+) : Finset ℕ :=
  (Finset.range k).filter fun i => ∃ x ∈ gold, retrieved[i]? = some x

theorem mem_hits : i ∈ hits retrieved gold k ↔ i < k ∧ ∃ x ∈ gold, retrieved[i]? = some x := by
  rw [hits, Finset.mem_filter, Finset.mem_range]

/-- A list without duplicates has no more hits than there are gold chunks. -/
theorem card_hits_le (hdup : retrieved.Nodup) : (hits retrieved gold k).card ≤ min gold.card k := by
  refine le_min ?_ ?_
  · refine Finset.card_le_card_of_injOn (fun i => retrieved.getD i 0) ?_ ?_
    · intro i hi
      obtain ⟨-, x, hx, hget⟩ := mem_hits.mp hi
      simpa only [List.getD_eq_getElem?_getD, hget, Option.getD_some, Finset.mem_coe] using hx
    · intro i hi j hj heq
      obtain ⟨-, x, -, hget⟩ := mem_hits.mp hi
      obtain ⟨-, y, -, hget'⟩ := mem_hits.mp hj
      simp only [List.getD_eq_getElem?_getD, hget, hget', Option.getD_some] at heq
      obtain ⟨hlt, hx⟩ := List.getElem?_eq_some_iff.mp hget
      obtain ⟨hlt', hy⟩ := List.getElem?_eq_some_iff.mp hget'
      exact (hdup.getElem_inj_iff).mp (hx.trans (heq.trans hy.symm))
  · exact (Finset.card_filter_le _ _).trans (Finset.card_range _).le

/-- `retrieved` with the chunks at two positions exchanged. -/
def exchanged (retrieved : List Uuid) (i j : ℕ) (x y : Uuid) : List Uuid :=
  (retrieved.set i y).set j x

theorem getElem?_exchanged (hi : retrieved[i]? = some x) (hj : retrieved[j]? = some y) (n : ℕ) :
    (exchanged retrieved i j x y)[n]? =
      if n = j then some x else if n = i then some y else retrieved[n]? := by
  obtain ⟨hilt, -⟩ := List.getElem?_eq_some_iff.mp hi
  obtain ⟨hjlt, -⟩ := List.getElem?_eq_some_iff.mp hj
  rw [exchanged, List.getElem?_set, List.getElem?_set, List.length_set]
  by_cases hnj : n = j
  · rw [if_pos hnj.symm, if_pos hjlt, if_pos hnj]
  · rw [if_neg (Ne.symm hnj), if_neg hnj]
    by_cases hni : n = i
    · rw [if_pos hni.symm, if_pos hilt, if_pos hni]
    · rw [if_neg (Ne.symm hni), if_neg hni]

/-- A gold chunk that is exchanged with another one above it takes its position. -/
theorem hits_exchanged (hij : i < j) (hi : retrieved[i]? = some x) (hj : retrieved[j]? = some y)
    (hx : x ∉ gold) (hy : y ∈ gold) : hits (exchanged retrieved i j x y) gold k =
      if i < k then insert i ((hits retrieved gold k).erase j) else hits retrieved gold k := by
  ext n
  rw [mem_hits, getElem?_exchanged hi hj]
  by_cases hik : i < k
  · rw [if_pos hik, Finset.mem_insert, Finset.mem_erase, mem_hits]
    by_cases hnj : n = j
    · subst hnj
      simp [hx, hij.ne']
    · by_cases hni : n = i
      · subst hni
        simp [hnj, hy, hik]
      · simp [hnj, hni]
  · -- Both positions are behind the top `k`.
    rw [if_neg hik, mem_hits]
    refine and_congr_right fun hnk => ?_
    rw [if_neg (by omega), if_neg (by omega)]

end Hits

/-! ### Gains -/

section Gains

variable {K : Type} [Field K] {log2 : ℕ → K} {retrieved : List Uuid} {gold : Finset Uuid} {k : ℕ+}

/-- The discount at a position, from `0`. -/
def discount (log2 : ℕ → K) (i : ℕ) : K := 1 / log2 (i + 1 + 1)

theorem sum_zipIdx (w : ℕ → K) (gold : Finset Uuid) (xs : List Uuid) :
    ((xs.zipIdx.filter fun entry => entry.1 ∈ gold).map fun entry => w entry.2).sum =
      ∑ i ∈ (Finset.range xs.length).filter (fun i => ∃ x ∈ gold, xs[i]? = some x), w i := by
  induction xs using List.reverseRecOn with
  | nil => rfl
  | append_singleton xs x ih =>
      -- The positions before the last one are what they were.
      have hbefore : (Finset.range xs.length).filter
            (fun i => ∃ y ∈ gold, (xs ++ [x])[i]? = some y) =
          (Finset.range xs.length).filter fun i => ∃ y ∈ gold, xs[i]? = some y := by
        refine Finset.filter_congr ?_
        intro i hi
        rw [List.getElem?_append_left (Finset.mem_range.mp hi)]
      rw [List.zipIdx_append, List.filter_append, List.map_append, List.sum_append, ih,
        List.length_append, List.length_singleton, Finset.range_add_one, Finset.filter_insert,
        hbefore]
      by_cases hx : x ∈ gold
      · rw [if_pos ⟨x, hx, by simp⟩, Finset.sum_insert (by simp)]
        simp [hx, add_comm]
      · rw [if_neg (by simpa using hx)]
        simp [hx]

/-- **The gain of a ranking** is the sum of the discounts at its hits. -/
theorem dcgAtK_eq_sum : dcgAtK log2 retrieved gold k =
    ∑ i ∈ hits retrieved gold k, discount log2 i := by
  have hhits : (Finset.range (top retrieved k).length).filter
      (fun i => ∃ x ∈ gold, (top retrieved k)[i]? = some x) = hits retrieved gold k := by
    ext i
    rw [mem_hits, Finset.mem_filter, Finset.mem_range, top, List.length_take, List.getElem?_take]
    constructor
    · rintro ⟨hi, x, hx, hget⟩
      rw [if_pos (by omega)] at hget
      exact ⟨by omega, x, hx, hget⟩
    · rintro ⟨hi, x, hx, hget⟩
      obtain ⟨hlt, -⟩ := List.getElem?_eq_some_iff.mp hget
      exact ⟨by omega, x, hx, by rw [if_pos hi]; exact hget⟩
  rw [dcgAtK, ← hhits]
  exact sum_zipIdx (discount log2) gold (top retrieved k)

theorem idealDcg_eq_sum (n : ℕ) : idealDcg log2 n = ∑ i ∈ Finset.range n, discount log2 i := rfl

variable [LinearOrder K] [IsStrictOrderedRing K]

/-- A logarithm that is positive from two on and strictly increases there. -/
structure Logarithmic (log2 : ℕ → K) : Prop where
  pos : ∀ n, 2 ≤ n → 0 < log2 n
  lt : ∀ m n, 2 ≤ m → m < n → log2 m < log2 n

theorem Logarithmic.discount_pos (h : Logarithmic log2) (i : ℕ) : 0 < discount log2 i :=
  one_div_pos.mpr (h.pos _ (by omega))

theorem Logarithmic.strictAnti_discount (h : Logarithmic log2) : StrictAnti (discount log2) :=
  fun i j hij => one_div_lt_one_div_of_lt (h.pos _ (by omega)) (h.lt _ _ (by omega) (by omega))

theorem Logarithmic.idealDcg_pos (h : Logarithmic log2) (hgold : gold.Nonempty) :
    0 < idealDcg log2 (min gold.card k) := by
  rw [idealDcg_eq_sum]
  refine Finset.sum_pos (fun i _ => h.discount_pos i) ?_
  rw [Finset.nonempty_range_iff]
  have hcard := hgold.card_pos
  have hk := k.pos
  omega

/-- Where something is gold the score is defined. -/
theorem ndcgAtK_eq (h : Logarithmic log2) (hgold : gold.Nonempty) :
    ndcgAtK log2 retrieved gold k =
      some (dcgAtK log2 retrieved gold k / idealDcg log2 (min gold.card k)) := by
  rw [ndcgAtK, if_neg hgold.ne_empty]
  exact if_neg (h.idealDcg_pos hgold).ne'

/-- No ranking gains more than the ideal one. -/
theorem dcgAtK_le_ideal (h : Logarithmic log2) (hdup : retrieved.Nodup) :
    dcgAtK log2 retrieved gold k ≤ idealDcg log2 (min gold.card k) := by
  rw [dcgAtK_eq_sum, idealDcg_eq_sum]
  refine (sum_le_sum_range h.strictAnti_discount _).trans ?_
  exact Finset.sum_le_sum_of_subset_of_nonneg (Finset.range_subset_range.mpr (card_hits_le hdup))
    fun i _ _ => (h.discount_pos i).le

/-- Only a ranking with gold in front gains as much. -/
theorem dcgAtK_eq_ideal_iff (h : Logarithmic log2) (hdup : retrieved.Nodup) :
    dcgAtK log2 retrieved gold k = idealDcg log2 (min gold.card k) ↔
      ∀ i < min gold.card k, ∃ x ∈ gold, retrieved[i]? = some x := by
  rw [dcgAtK_eq_sum, idealDcg_eq_sum,
    sum_eq_sum_range_iff h.strictAnti_discount h.discount_pos (card_hits_le hdup)]
  constructor
  · intro heq i hi
    exact (mem_hits.mp (heq ▸ Finset.mem_range.mpr hi)).2
  · intro hfront
    refine (Finset.eq_of_subset_of_card_le ?_ ?_).symm
    · intro i hi
      have hlt := Finset.mem_range.mp hi
      exact mem_hits.mpr ⟨hlt.trans_le (min_le_right _ _), hfront i hlt⟩
    · rw [Finset.card_range]
      exact card_hits_le hdup

/-- A gold chunk that moves up gains. -/
theorem dcgAtK_le_exchanged (h : Logarithmic log2) {i j : ℕ} {x y : Uuid} (hij : i < j)
    (hi : retrieved[i]? = some x) (hj : retrieved[j]? = some y) (hx : x ∉ gold) (hy : y ∈ gold) :
    dcgAtK log2 retrieved gold k ≤ dcgAtK log2 (exchanged retrieved i j x y) gold k := by
  rw [dcgAtK_eq_sum, dcgAtK_eq_sum, hits_exchanged hij hi hj hx hy]
  split_ifs with hik
  · have hmiss : i ∉ (hits retrieved gold k).erase j := by
      intro hmem
      obtain ⟨-, z, hz, hget⟩ := mem_hits.mp (Finset.mem_of_mem_erase hmem)
      rw [hi] at hget
      exact hx (Option.some.inj hget ▸ hz)
    rw [Finset.sum_insert hmiss]
    by_cases hmem : j ∈ hits retrieved gold k
    · rw [← Finset.add_sum_erase _ _ hmem]
      gcongr
      exact (h.strictAnti_discount hij).le
    · rw [Finset.erase_eq_of_notMem hmem]
      exact le_add_of_nonneg_left (h.discount_pos i).le
  · exact le_rfl

end Gains

/-! ### The score -/

/-- The base-two logarithm of the discount. -/
noncomputable def realLog2 (n : ℕ) : ℝ := Real.logb 2 n

theorem logarithmic_realLog2 : Logarithmic realLog2 where
  pos n hn := Real.logb_pos one_lt_two (by exact_mod_cast hn)
  lt m n hm hmn := Real.logb_lt_logb one_lt_two (by positivity) (by exact_mod_cast hmn)

/-- **nDCG is a normalised score.**  It lies between zero and one; it is one iff the first
`min |gold| k` positions are there and gold; and a gold chunk that is exchanged with another
one above it does not lower it. -/
theorem ndcg_normalised {retrieved : List Uuid} (hdup : retrieved.Nodup) {gold : Finset Uuid}
    (hgold : gold.Nonempty) (k : ℕ+) :
    ∃ v, ndcgAtK realLog2 retrieved gold k = some v ∧ 0 ≤ v ∧ v ≤ 1 ∧
      (v = 1 ↔ ∀ i < min gold.card k, ∃ x ∈ gold, retrieved[i]? = some x) ∧
      ∀ i j x y, i < j → retrieved[i]? = some x → retrieved[j]? = some y → x ∉ gold → y ∈ gold →
        ∃ v', ndcgAtK realLog2 (exchanged retrieved i j x y) gold k = some v' ∧ v ≤ v' := by
  have hlog := logarithmic_realLog2
  have hideal := hlog.idealDcg_pos (k := k) hgold
  refine ⟨_, ndcgAtK_eq hlog hgold, ?_, ?_, ?_, ?_⟩
  · refine div_nonneg ?_ hideal.le
    rw [dcgAtK_eq_sum]
    exact Finset.sum_nonneg fun i _ => (hlog.discount_pos i).le
  · rw [div_le_one hideal]
    exact dcgAtK_le_ideal hlog hdup
  · rw [div_eq_one_iff_eq hideal.ne']
    exact dcgAtK_eq_ideal_iff hlog hdup
  · intro i j x y hij hi hj hx hy
    refine ⟨_, ndcgAtK_eq hlog hgold, ?_⟩
    gcongr
    exact dcgAtK_le_exchanged hlog hij hi hj hx hy

/-- A gold chunk below another one, and the two exchanged. -/
theorem ndcg_normalised_sample : ∃ v, ndcgAtK realLog2 [1, 2] {2} 2 = some v ∧ v ≠ 1 ∧
    ∃ v', ndcgAtK realLog2 (exchanged [1, 2] 0 1 1 2) {2} 2 = some v' ∧ v ≤ v' := by
  obtain ⟨v, hv, -, -, hone, hexchange⟩ :=
    ndcg_normalised (show ([1, 2] : List Uuid).Nodup by decide)
      (show ({2} : Finset Uuid).Nonempty by decide) 2
  refine ⟨v, hv, ?_, hexchange 0 1 1 2 (by decide) rfl rfl (by decide) (by decide)⟩
  rw [Ne, hone]
  intro h
  obtain ⟨x, hx, hget⟩ := h 0 (by decide)
  cases hget
  exact absurd hx (by decide)

end Evaluation
end EvidenceLab
