/-
# Sums of a decreasing sequence

A ranking is scored by the sum of a discount over the positions of its hits.  The discount
strictly decreases, so of all sets of so many positions the first ones have the greatest sum,
and no others have it (`sum_le_sum_range`, `sum_eq_sum_range_iff`).
-/

import Mathlib.Algebra.BigOperators.Ring.Finset
import Mathlib.Algebra.Order.BigOperators.Group.Finset
import Mathlib.Algebra.Order.Field.Basic

namespace EvidenceLab
namespace Data

open Finset

variable {K : Type*} [AddCommMonoid K] [LinearOrder K] [IsOrderedCancelAddMonoid K] {w : ℕ → K}

/-- Positions that are not the first ones have a lesser sum. -/
theorem sum_lt_sum_range (hw : StrictAnti w) {s : Finset ℕ} (hs : s ≠ range s.card) :
    ∑ i ∈ s, w i < ∑ i ∈ range s.card, w i := by
  have hcard : (s \ range s.card).card = (range s.card \ s).card := by
    have hleft := card_sdiff_add_card_inter s (range s.card)
    have hright := card_sdiff_add_card_inter (range s.card) s
    rw [inter_comm, card_range] at hright
    omega
  have hmissing : (range s.card \ s).Nonempty := by
    rw [sdiff_nonempty]
    intro hsub
    exact hs (eq_of_subset_of_card_le hsub (card_range _).ge).symm
  -- What is in `s` and not among the first positions comes behind what is missing of them.
  have hbehind : ∑ i ∈ s \ range s.card, w i ≤ (s \ range s.card).card • w s.card := by
    refine sum_le_card_nsmul _ _ _ ?_
    intro i hi
    exact hw.antitone (not_lt.mp fun hlt => (mem_sdiff.mp hi).2 (mem_range.mpr hlt))
  have hbefore : (range s.card \ s).card • w s.card < ∑ i ∈ range s.card \ s, w i := by
    rw [← sum_const]
    refine sum_lt_sum_of_nonempty hmissing ?_
    intro i hi
    exact hw (mem_range.mp (mem_sdiff.mp hi).1)
  rw [← sum_inter_add_sum_sdiff s (range s.card), ← sum_inter_add_sum_sdiff (range s.card) s,
    inter_comm]
  exact add_lt_add_right (hbehind.trans_lt (hcard ▸ hbefore)) _

/-- **The first positions have the greatest sum.** -/
theorem sum_le_sum_range (hw : StrictAnti w) (s : Finset ℕ) :
    ∑ i ∈ s, w i ≤ ∑ i ∈ range s.card, w i := by
  by_cases hs : s = range s.card
  · rw [← hs]
  · exact (sum_lt_sum_range hw hs).le

/-- **So many positions have the sum of the first ones** iff they are these. -/
theorem sum_eq_sum_range_iff (hw : StrictAnti w) (hpos : ∀ i, 0 < w i) {s : Finset ℕ} {n : ℕ}
    (hs : s.card ≤ n) : ∑ i ∈ s, w i = ∑ i ∈ range n, w i ↔ s = range n := by
  refine ⟨fun heq => ?_, fun heq => by rw [heq]⟩
  have hfirst : ∑ i ∈ range s.card, w i ≤ ∑ i ∈ range n, w i :=
    sum_le_sum_of_subset_of_nonneg (range_subset_range.mpr hs) fun i _ _ => (hpos i).le
  have hrange : s = range s.card := by
    by_contra hno
    exact absurd heq ((sum_lt_sum_range hw hno).trans_le hfirst).ne
  have hcard : s.card = n := by
    by_contra hno
    have hmem : s.card ∈ range n := mem_range.mpr (lt_of_le_of_ne hs hno)
    have hlt : ∑ i ∈ range s.card, w i < ∑ i ∈ range n, w i :=
      sum_lt_sum_of_subset (range_subset_range.mpr hs) hmem (by simp) (hpos _)
        fun i _ _ => (hpos i).le
    rw [← hrange] at hlt
    exact absurd heq hlt.ne
  rw [← hcard]
  exact hrange

end Data
end EvidenceLab
