/-
# Fusion is monotone in each arm

Over exact rationals the fused scores are sums of gains (`rrfScore_eq`), and what precedes what
in a fusion is read off them (`IsFusion.precedes_iff`).

If an arm ranks a chunk higher, or ranks it at all, and keeps the order of the others, the
others come no closer to the front of that arm.  So the chunk gains no less from it, and each
of the others no more, while the gains from the other arms stay.  What precedes the chunk in
the fusion afterwards had preceded it before (`fusion_monotone`).
-/

import EvidenceLab.Retrieval.Agreement
import Mathlib.Tactic.NormNum

namespace EvidenceLab
namespace Retrieval

open Text Data EvidenceLab.Core

/-! ### Scores as sums of gains -/

/-- What a chunk gains from a ranking of ids with a weight. -/
def gain (k : ℤ) (weight : ℚ) (ids : List Uuid) (id : Uuid) : ℚ :=
  if id ∈ ids then weight / ((k : ℚ) + ids.idxOf id + 1) else 0

/-- **A fused score is a sum of gains.** -/
theorem rrfScore_eq (k : ℤ) (arms : List (List RetrievedChunk × ℚ)) (id : Uuid) :
    rrfScore k arms id = (arms.map fun arm => gain k arm.2 (idsOf arm.1) id).sum := by
  induction arms with
  | nil => rfl
  | cons arm arms ih =>
      rw [List.map_cons, List.sum_cons, ← ih, rrfScore, rrfScore, List.filterMap_cons, gain]
      have hposition := found_position id arm.1
      by_cases hmem : id ∈ idsOf arm.1
      · rw [if_pos hmem] at hposition
        obtain ⟨entry, hfound, hentry⟩ := Option.map_eq_some_iff.mp hposition
        rw [hfound, if_pos hmem, ← hentry]
        exact List.sum_cons
      · rw [if_neg hmem] at hposition
        rw [Option.map_eq_none_iff.mp hposition, if_neg hmem]
        exact (zero_add _).symm

theorem gain_nonneg {k : ℤ} {weight : ℚ} (hk : 0 < k) (hw : 0 ≤ weight) (ids : List Uuid)
    (id : Uuid) : 0 ≤ gain k weight ids id := by
  have hk' : (0 : ℚ) < k := by exact_mod_cast hk
  rw [gain]
  split_ifs
  · positivity
  · exact le_rfl

/-- An earlier position gains no less. -/
theorem div_position_le {k : ℤ} {w : ℚ} (hk : 0 < k) (hw : 0 ≤ w) {p q : ℕ} (hpq : p ≤ q) :
    w / ((k : ℚ) + q + 1) ≤ w / ((k : ℚ) + p + 1) := by
  have hk' : (0 : ℚ) < k := by exact_mod_cast hk
  have hpq' : (p : ℚ) ≤ q := by exact_mod_cast hpq
  exact div_le_div_of_nonneg_left hw (by positivity) (by linarith)

/-- **What precedes what in a fusion.** -/
theorem IsFusion.precedes_iff {k : ℤ} {rankings : List (List RetrievedChunk)} {weights : List ℚ}
    {fused : List RetrievedChunk} (h : IsFusion k rankings weights fused) {x y : Uuid} :
    Precedes (idsOf fused) y x ↔ y ∈ idsOf fused ∧ (x ∈ idsOf fused →
      Before (y, rrfScore k (rankings.zip weights) y)
        (x, rrfScore k (rankings.zip weights) x)) := by
  refine Data.precedes_iff (R := fun a b => Before (a, rrfScore k (rankings.zip weights) a)
    (b, rrfScore k (rankings.zip weights) b)) ?_ ?_
  · intro a b hab hba
    have heq := congrArg Prod.fst (Before.asymm hab hba)
    subst heq
    rcases hab with hlt | ⟨-, hlt⟩
    · exact lt_irrefl _ hlt
    · exact lt_irrefl _ hlt
  · refine List.pairwise_map.mpr (h.sorted.imp_of_mem ?_)
    intro a b ha hb hab
    rwa [(h.score a ha).1, (h.score b hb).1] at hab

/-! ### Gains under a promotion -/

section Gain

variable {k : ℤ} {w : ℚ} {ids ids' : List Uuid} {x y : Uuid}

/-- What is promoted gains no less than before. -/
theorem gain_le_of_promotes (hk : 0 < k) (hw : 0 ≤ w) (h : Promotes x ids ids')
    (hnodup : ids.Nodup) (hnodup' : ids'.Nodup) : gain k w ids x ≤ gain k w ids' x := by
  by_cases hx : x ∈ ids
  · rw [gain, gain, if_pos hx, if_pos h.mem_self]
    exact div_position_le hk hw (h.idxOf_self_le hnodup hx hnodup')
  · rw [gain, if_neg hx]
    exact gain_nonneg hk hw _ _

/-- Everything else gains no more. -/
theorem gain_le_of_ne (hk : 0 < k) (hw : 0 ≤ w) (h : Promotes x ids ids') (hy : y ≠ x) :
    gain k w ids' y ≤ gain k w ids y := by
  by_cases hmem : y ∈ ids
  · rw [gain, gain, if_pos hmem, if_pos ((h.mem_iff hy).mpr hmem)]
    exact div_position_le hk hw (h.idxOf_le hy)
  · rw [gain, gain, if_neg hmem, if_neg (mt (h.mem_iff hy).mp hmem)]

end Gain

/-! ### Ranks -/

/-- The rank of a fused hit is the position of its id. -/
theorem IsFusion.rank_eq {k : ℤ} {rankings : List (List RetrievedChunk)} {weights : List ℚ}
    {fused : List RetrievedChunk} (h : IsFusion k rankings weights fused) {hit : RetrievedChunk}
    (hhit : hit ∈ fused) : hit.rank = (idsOf fused).idxOf hit.chunkId := by
  obtain ⟨i, hi, rfl⟩ := List.mem_iff_getElem.mp hhit
  have hrank := congrArg (fun ranks : List ℕ => ranks[i]?) h.ranks
  have hid : i < (fused.map (·.chunkId)).length := by
    rw [List.length_map]
    exact hi
  have hindex := h.nodup.idxOf_getElem i hid
  simp only [List.getElem?_map, List.getElem?_eq_getElem hi, List.getElem?_range hi,
    Option.map_some, Option.some.injEq] at hrank
  rw [List.getElem_map] at hindex
  exact hrank.trans hindex.symm

/-! ### Two runs -/

variable {front back : List (List RetrievedChunk)} {r r' : List RetrievedChunk}
  {weights : List ℚ} {k : ℤ} {x : Uuid}

/-- The score is the gain from one arm and what the others give. -/
theorem exists_rrfScore_split (hlength : weights.length = (front ++ r :: back).length)
    (hw : ∀ weight ∈ weights, 0 ≤ weight) : ∃ (weight : ℚ) (others : Uuid → ℚ), 0 ≤ weight ∧
      ∀ (s : List RetrievedChunk) id, rrfScore k ((front ++ s :: back).zip weights) id =
        gain k weight (idsOf s) id + others id := by
  obtain ⟨ws, rest, rfl, hfront⟩ : ∃ ws rest, weights = ws ++ rest ∧ front.length = ws.length := by
    refine ⟨weights.take front.length, weights.drop front.length,
      (List.take_append_drop ..).symm, ?_⟩
    rw [List.length_take, hlength, List.length_append]
    omega
  cases rest with
  | nil =>
      simp only [List.append_nil, List.length_append, List.length_cons] at hlength
      omega
  | cons weight ws' =>
      refine ⟨weight, fun id => rrfScore k (front.zip ws) id + rrfScore k (back.zip ws') id,
        hw weight (by simp), ?_⟩
      intro s id
      dsimp only
      rw [List.zip_append hfront, List.zip_cons_cons, rrfScore_eq, rrfScore_eq, rrfScore_eq,
        List.map_append, List.sum_append, List.map_cons, List.sum_cons]
      exact add_left_comm ..

/-- What precedes the promoted chunk in the later fusion did so in the earlier one. -/
theorem IsFusion.precedes_of_promotes {fused fused' : List RetrievedChunk}
    (h : IsFusion k (front ++ r :: back) weights fused)
    (h' : IsFusion k (front ++ r' :: back) weights fused') (hdup : (idsOf r).Nodup)
    (hdup' : (idsOf r').Nodup) (hk : 0 < k)
    (hlength : weights.length = (front ++ r :: back).length)
    (hw : ∀ weight ∈ weights, 0 ≤ weight) (hpromotes : Promotes x (idsOf r) (idsOf r')) {y : Uuid}
    (hy : Precedes (idsOf fused') y x) : Precedes (idsOf fused) y x := by
  obtain ⟨weight, others, hweight, hscore⟩ := exists_rrfScore_split (k := k) hlength hw
  have hx' : x ∈ idsOf fused' := (h'.mem_iff x).mpr ⟨r', by simp, hpromotes.mem_self⟩
  obtain ⟨hmem', hbefore⟩ := h'.precedes_iff.mp hy
  refine h.precedes_iff.mpr ⟨?_, fun hx => ?_⟩
  · -- The promoted chunk apart, the fused chunks are the same.
    obtain ⟨s, hs, hys⟩ := (h'.mem_iff y).mp hmem'
    refine (h.mem_iff y).mpr ?_
    rcases List.mem_append.mp hs with hs | hs
    · exact ⟨s, List.mem_append_left _ hs, hys⟩
    · rcases List.mem_cons.mp hs with rfl | hs
      · exact ⟨r, by simp, (hpromotes.mem_iff hy.ne).mp hys⟩
      · exact ⟨s, List.mem_append_right _ (List.mem_cons_of_mem _ hs), hys⟩
  · have hstep := hbefore hx'
    rw [hscore, hscore] at hstep
    rw [hscore, hscore]
    exact hstep.mono (add_le_add_left (gain_le_of_ne hk hweight hpromotes hy.ne) _)
      (add_le_add_left (gain_le_of_promotes hk hweight hpromotes hdup hdup') _)

/-- **Fusion is monotone in each arm.** -/
theorem fusion_monotone (hdup : ∀ s ∈ front ++ r :: back, (idsOf s).Nodup)
    (hdup' : (idsOf r').Nodup) (hk : 0 < k)
    (hlength : weights.length = (front ++ r :: back).length)
    (hw : ∀ weight ∈ weights, 0 ≤ weight) (hpromotes : Promotes x (idsOf r) (idsOf r')) :
    ∃ fused fused',
      reciprocalRankFusion (front ++ r :: back) k (some weights) = .ok fused ∧
      reciprocalRankFusion (front ++ r' :: back) k (some weights) = .ok fused' ∧
      x ∈ idsOf fused' ∧ (∀ y, Precedes (idsOf fused') y x → Precedes (idsOf fused) y x) ∧
      ∀ hit ∈ fused, ∀ hit' ∈ fused', hit.chunkId = x → hit'.chunkId = x →
        hit'.rank ≤ hit.rank := by
  have hdupAfter : ∀ s ∈ front ++ r' :: back, (idsOf s).Nodup := by
    intro s hs
    rcases List.mem_append.mp hs with hs | hs
    · exact hdup s (List.mem_append_left _ hs)
    · rcases List.mem_cons.mp hs with rfl | hs
      · exact hdup'
      · exact hdup s (List.mem_append_right _ (List.mem_cons_of_mem _ hs))
  have hlength' : weights.length = (front ++ r' :: back).length := by
    rw [hlength, List.length_append, List.length_append, List.length_cons, List.length_cons]
  obtain ⟨fused, hok, h⟩ := isFusion_reciprocalRankFusion hdup hk hlength
  obtain ⟨fused', hok', h'⟩ := isFusion_reciprocalRankFusion hdupAfter hk hlength'
  have hprecedes : ∀ y, Precedes (idsOf fused') y x → Precedes (idsOf fused) y x := fun y hy =>
    h.precedes_of_promotes h' (hdup r (by simp)) hdup' hk hlength hw hpromotes hy
  have hx : x ∈ idsOf fused' := (h'.mem_iff x).mpr ⟨r', by simp, hpromotes.mem_self⟩
  refine ⟨fused, fused', hok, hok', hx, hprecedes, ?_⟩
  intro hit hhit hit' hhit' hid hid'
  rw [h.rank_eq hhit, h'.rank_eq hhit', hid, hid']
  exact idxOf_le_of_precedes h'.nodup hprecedes

/-- The second hit of an arm is moved to the front. -/
theorem fusion_monotone_sample :
    ∃ fused fused',
      reciprocalRankFusion [[sampleHit 1 .semantic, sampleHit 2 .semantic],
        [sampleHit 3 .keyword]] 60 (some [1 / 2, 0]) = .ok fused ∧
      reciprocalRankFusion [[sampleHit 2 .semantic, sampleHit 1 .semantic],
        [sampleHit 3 .keyword]] 60 (some [1 / 2, 0]) = .ok fused' ∧
      2 ∈ idsOf fused' ∧ (∀ y, Precedes (idsOf fused') y 2 → Precedes (idsOf fused) y 2) ∧
      ∀ hit ∈ fused, ∀ hit' ∈ fused', hit.chunkId = 2 → hit'.chunkId = 2 →
        hit'.rank ≤ hit.rank := by
  have hpromotes : Promotes 2 (idsOf [sampleHit 1 .semantic, sampleHit 2 .semantic])
      (idsOf [sampleHit 2 .semantic, sampleHit 1 .semantic]) :=
    ⟨[], [1], [], rfl, Or.inl rfl⟩
  exact @fusion_monotone [] _ _ _ _ _ _ (by decide) (by decide) (by decide) rfl
    (by intro weight hweight; rcases List.mem_pair.mp hweight with rfl | rfl <;> norm_num) hpromotes

end Retrieval
end EvidenceLab
