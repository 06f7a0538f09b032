/-
# Ties in one arm of a fusion

The dense arm orders chunks by their distance alone, so chunks at equal distance come at
positions of the database's choice, and where the pool ends between them one or the other is
in it.  What a chunk gains from that arm lies between its gains at its latest and its earliest
position, and both are possible, for two chunks at once (`leads_iff`); the doubles that are added
up round alike from either side, so this is so of the scores, too.

So what the fusion returns is the same for all choices iff each chunk is settled by its worst
and the others' best scores (`take_eq_iff_settled`).
-/

import EvidenceLab.Data.Ties
import EvidenceLab.Retrieval.Agreement

namespace EvidenceLab
namespace Retrieval

open Text Data EvidenceLab.Core

/-- What two arms bring to a fusion, the dense one in no order of its ties. -/
structure Contest where
  embedded : List Uuid
  distance : Uuid → ℚ
  keyword : List Uuid
  /-- How many hits of the dense arm are fused. -/
  fetch : ℕ
  k : ℤ
  denseWeight : Float64
  keywordWeight : Float64

namespace Contest

variable (c : Contest)

/-- With the position `p` in the dense order, the chunk is fused. -/
def RankedAt (p : ℕ) (x : Uuid) : Prop := (x ∈ c.embedded ∧ p < c.fetch) ∨ x ∈ c.keyword

/-- With that position, its share of the dense arm. -/
def denseShare (p : ℕ) (x : Uuid) : Option Float64 :=
  if x ∈ c.embedded ∧ p < c.fetch then some (Score.share c.k c.denseWeight p) else none

/-- With that position, its score. -/
def scoreAt (p : ℕ) (x : Uuid) : Extended :=
  Score.num (Score.total ((c.denseShare p x).toList ++
    (shareIn c.k c.keywordWeight c.keyword x).toList))

/-- The best and the worst position of a chunk. -/
def best (x : Uuid) : ℕ := earliest c.distance c.embedded x

def worst (x : Uuid) : ℕ := latest c.distance c.embedded x

/-- Every position that is fused can be divided by. -/
def Convertible : Prop :=
  ∀ position < max (min c.fetch c.embedded.length) c.keyword.length,
    Score.fits Float64 (c.k + position + 1) = true

/-- `x` at its worst is fused, and before `y` at its best. -/
def Leads (x y : Uuid) : Prop :=
  c.RankedAt (c.worst x) x ∧
    (c.RankedAt (c.best y) y → Before (x, c.scoreAt (c.worst x) x) (y, c.scoreAt (c.best y) y))

/-- Each chunk that may be fused is led by `n` others, or is always fused and, of it and any
other one, one leads the other. -/
def Settled (n : ℕ) : Prop :=
  ∀ x, c.RankedAt (c.best x) x →
    (∃ ys : List Uuid, ys.Nodup ∧ ys.length = n ∧ ∀ y ∈ ys, y ≠ x ∧ c.Leads y x) ∨
      c.RankedAt (c.worst x) x ∧ ∀ y, y ≠ x → c.Leads y x ∨ c.Leads x y

/-- The fused ids, when the dense arm has the embedded chunks in this order. -/
structure Outcome (order ids : List Uuid) : Prop where
  sorting : IsSorting c.distance c.embedded order
  nodup : ids.Nodup
  mem_iff : ∀ x, x ∈ ids ↔ c.RankedAt (order.idxOf x) x
  precedes_iff : ∀ x y, Precedes ids x y ↔ c.RankedAt (order.idxOf x) x ∧
    (c.RankedAt (order.idxOf y) y →
      Before (x, c.scoreAt (order.idxOf x) x) (y, c.scoreAt (order.idxOf y) y))

/-- The fused ids for some order. -/
def Possible (ids : List Uuid) : Prop := ∃ order, c.Outcome order ids

variable {c} {order ids : List Uuid} {x y : Uuid} {p q n : ℕ}

/-! ### Positions and scores -/

theorem RankedAt.of_le (h : c.RankedAt q x) (hpq : x ∈ c.embedded → p ≤ q) : c.RankedAt p x :=
  h.imp_left fun hin => ⟨hin.1, (hpq hin.1).trans_lt hin.2⟩

/-- Neither weight is negative. -/
def Weighted (c : Contest) : Prop := c.denseWeight.Nonneg ∧ c.keywordWeight.Nonneg

theorem nonneg_denseShare (hk : 0 < c.k) (hw : c.Weighted) :
    ∀ score ∈ (c.denseShare p x).toList, score.Nonneg := by
  intro score hscore
  rw [Option.mem_toList, denseShare] at hscore
  split at hscore
  · obtain rfl := Option.some.inj hscore
    exact Score.nonneg_share hk hw.1 _
  · cases hscore

theorem nonneg_keywordShare (hk : 0 < c.k) (hw : c.Weighted) :
    ∀ score ∈ (shareIn c.k c.keywordWeight c.keyword x).toList, score.Nonneg := by
  intro score hscore
  rw [Option.mem_toList, shareIn] at hscore
  split at hscore
  · obtain rfl := Option.some.inj hscore
    exact Score.nonneg_share hk hw.2 _
  · cases hscore

/-- A later position gives no more of the dense arm. -/
theorem num_denseShare_le (hk : 0 < c.k) (hw : c.Weighted) (hpq : x ∈ c.embedded → p ≤ q) :
    Score.num (Score.total (c.denseShare q x).toList) ≤
      Score.num (Score.total (c.denseShare p x).toList) := by
  by_cases hq : x ∈ c.embedded ∧ q < c.fetch
  · have hle := hpq hq.1
    have hp : x ∈ c.embedded ∧ p < c.fetch := ⟨hq.1, hle.trans_lt hq.2⟩
    rw [denseShare, denseShare, if_pos hq, if_pos hp, Option.toList_some, Option.toList_some,
      Score.num_total_singleton, Score.num_total_singleton]
    exact Score.num_share_anti hk hw.1 hle
  · have hnone : c.denseShare q x = none := if_neg hq
    rw [hnone]
    exact Score.num_zero.le.trans (Score.nonneg_total (nonneg_denseShare hk hw))

theorem scoreAt_le (hk : 0 < c.k) (hw : c.Weighted) (hpq : x ∈ c.embedded → p ≤ q) :
    c.scoreAt q x ≤ c.scoreAt p x := by
  rw [scoreAt, scoreAt, Score.total, Score.total, List.foldl_append, List.foldl_append]
  exact Score.num_foldl_mono (nonneg_keywordShare hk hw)
    (Score.nonneg_total (nonneg_denseShare hk hw)) (num_denseShare_le hk hw hpq)

/-- An order has one outcome. -/
theorem Outcome.unique {ids' : List Uuid} (h : c.Outcome order ids) (h' : c.Outcome order ids') :
    ids = ids' := by
  have hmem : ∀ x, x ∈ ids ↔ x ∈ ids' := fun x => (h.mem_iff x).trans (h'.mem_iff x).symm
  have hprecedes : ∀ x y, Precedes ids x y ↔ Precedes ids' x y := fun x y =>
    (h.precedes_iff x y).trans (h'.precedes_iff x y).symm
  refine eq_of_idxOf_eq h.nodup h'.nodup (fun x hx => ⟨(hmem x).mp hx, ?_⟩)
    fun x hx => (hmem x).mpr hx
  exact le_antisymm (idxOf_le_of_precedes h'.nodup fun y => (hprecedes y x).mpr)
    (idxOf_le_of_precedes h.nodup fun y => (hprecedes y x).mp)

/-! ### What may happen -/

/-- **One chunk leads another** iff it precedes it whatever order the ties have. -/
theorem leads_iff (hk : 0 < c.k) (hw : c.Weighted)
    (htotal : ∀ order, IsSorting c.distance c.embedded order → ∃ ids, c.Outcome order ids)
    (hne : x ≠ y) : AlwaysPrecedes c.Possible x y ↔ c.Leads x y := by
  constructor
  · intro h
    obtain ⟨order, horder⟩ := exists_isSorting (fun a => toLex (c.distance a, apart x y a))
      c.embedded
    obtain ⟨hworst, hbest⟩ := horder.apart hne
    obtain ⟨ids, hids⟩ := htotal order horder.of_tieBreak
    obtain ⟨hx, hbefore⟩ := (hids.precedes_iff x y).mp (h ids ⟨order, hids⟩)
    refine ⟨hx.of_le fun hmem => (hworst hmem).ge, fun hy => ?_⟩
    refine (hbefore (hy.of_le fun hmem => (hbest hmem).le)).mono ?_ ?_
    · exact scoreAt_le hk hw fun hmem => (hworst hmem).ge
    · exact scoreAt_le hk hw fun hmem => (hbest hmem).le
  · rintro ⟨hx, hbefore⟩ ids ⟨order, hids⟩
    refine (hids.precedes_iff x y).mpr ⟨hx.of_le hids.sorting.le_latest, fun hy => ?_⟩
    refine (hbefore (hy.of_le hids.sorting.earliest_le)).mono ?_ ?_
    · exact scoreAt_le hk hw hids.sorting.le_latest
    · exact scoreAt_le hk hw hids.sorting.earliest_le

/-- A chunk that may be fused is fused from its best position. -/
theorem exists_mem_iff
    (htotal : ∀ order, IsSorting c.distance c.embedded order → ∃ ids, c.Outcome order ids) :
    (∃ ids, c.Possible ids ∧ x ∈ ids) ↔ c.RankedAt (c.best x) x := by
  constructor
  · rintro ⟨ids, ⟨order, hids⟩, hx⟩
    exact ((hids.mem_iff x).mp hx).of_le hids.sorting.earliest_le
  · intro hx
    obtain ⟨order, horder⟩ := exists_isSorting
      (fun a => toLex (c.distance a, if a = x then 0 else 1)) c.embedded
    obtain ⟨ids, hids⟩ := htotal order horder.of_tieBreak
    refine ⟨ids, ⟨order, hids⟩, (hids.mem_iff x).mpr (hx.of_le fun hmem => ?_)⟩
    refine (horder.idxOf_eq_earliest hmem fun y _ hne => ?_).le
    rw [if_pos rfl, if_neg hne]
    exact zero_lt_one

/-- One that is always fused is fused from its worst. -/
theorem forall_mem_iff
    (htotal : ∀ order, IsSorting c.distance c.embedded order → ∃ ids, c.Outcome order ids) :
    (∀ ids, c.Possible ids → x ∈ ids) ↔ c.RankedAt (c.worst x) x := by
  constructor
  · intro h
    obtain ⟨order, horder⟩ := exists_isSorting
      (fun a => toLex (c.distance a, if a = x then 1 else 0)) c.embedded
    obtain ⟨ids, hids⟩ := htotal order horder.of_tieBreak
    refine ((hids.mem_iff x).mp (h ids ⟨order, hids⟩)).of_le fun hmem => ?_
    refine (horder.idxOf_eq_latest hmem fun y _ hne => ?_).ge
    rw [if_pos rfl, if_neg hne]
    exact zero_lt_one
  · rintro hx ids ⟨order, hids⟩
    exact (hids.mem_iff x).mpr (hx.of_le hids.sorting.le_latest)

/-- **When ties do not show** in the first `n` of the fusion. -/
theorem take_eq_iff_settled (hk : 0 < c.k) (hw : c.Weighted)
    (htotal : ∀ order, IsSorting c.distance c.embedded order → ∃ ids, c.Outcome order ids)
    (n : ℕ) : (∀ ids ids', c.Possible ids → c.Possible ids' → ids.take n = ids'.take n) ↔
      c.Settled n := by
  have hleads : ∀ {x y}, x ≠ y → (AlwaysPrecedes c.Possible x y ↔ c.Leads x y) :=
    leads_iff hk hw htotal
  have hnodup : ∀ ids, c.Possible ids → ids.Nodup := by
    rintro ids ⟨order, hids⟩
    exact hids.nodup
  rw [take_eq_iff hnodup]
  refine forall_congr' fun x => imp_congr (exists_mem_iff htotal) (or_congr ?_ ?_)
  · refine exists_congr fun ys => and_congr_right fun _ => and_congr_right fun _ => ?_
    exact forall₂_congr fun y _ => and_congr_right hleads
  · refine and_congr (forall_mem_iff htotal) (forall₂_congr fun y hne => ?_)
    exact or_congr (hleads hne) (hleads hne.symm)

/-- Where no two chunks are at equal distance, none do. -/
theorem settled_of_nodup (hnodup : (c.embedded.map c.distance).Nodup) (n : ℕ) : c.Settled n := by
  have hsame : ∀ x ∈ c.embedded, c.worst x = c.best x := fun x hx =>
    (earliest_eq_latest hnodup hx).symm
  have hranked : ∀ x, c.RankedAt (c.best x) x → c.RankedAt (c.worst x) x := fun x hx =>
    hx.of_le fun hmem => (hsame x hmem).le
  have hscore : ∀ x, c.scoreAt (c.worst x) x = c.scoreAt (c.best x) x := by
    intro x
    by_cases hx : x ∈ c.embedded
    · rw [hsame x hx]
    · rw [scoreAt, scoreAt, denseShare, denseShare, if_neg fun h => hx h.1, if_neg fun h => hx h.1]
  intro x hx
  refine Or.inr ⟨hranked x hx, fun y hne => ?_⟩
  by_cases hy : c.RankedAt (c.best y) y
  · rcases before_or_before (s := c.scoreAt (c.best y) y) (t := c.scoreAt (c.best x) x) hne
      with hyx | hxy
    · exact Or.inl ⟨hranked y hy, fun _ => (hscore y).symm ▸ hyx⟩
    · exact Or.inr ⟨hranked x hx, fun _ => (hscore x).symm ▸ hxy⟩
  · exact Or.inr ⟨hranked x hx, fun h => absurd h hy⟩

/-! ### The fusion -/

/-- What the dense arm gives in the order that it has. -/
theorem shareIn_take (hperm : order.Perm c.embedded) (x : Uuid) :
    shareIn c.k c.denseWeight (order.take c.fetch) x = c.denseShare (order.idxOf x) x := by
  rw [shareIn, denseShare]
  by_cases hx : x ∈ order.take c.fetch
  · have hmem := List.mem_of_mem_take hx
    have hlt := (List.mem_take_iff_idxOf_lt hmem).mp hx
    rw [if_pos hx, if_pos ⟨hperm.mem_iff.mp hmem, hlt⟩,
      (List.take_prefix c.fetch order).idxOf_eq_of_mem hx]
  · rw [if_neg hx, if_neg]
    exact fun h => hx ((List.mem_take_iff_idxOf_lt (hperm.mem_iff.mpr h.1)).mpr h.2)

/-- The two arms can be fused iff the positions can be divided by. -/
theorem fitting_iff_convertible {dense keyword : List (RetrievedChunk Float64)}
    (hperm : order.Perm c.embedded) (hdense : idsOf dense = order.take c.fetch)
    (hkeyword : idsOf keyword = c.keyword) :
    fitting c.k [dense, keyword] = true ↔ c.Convertible := by
  have hlength : dense.length = min c.fetch c.embedded.length := by
    rw [← hperm.length_eq, ← List.length_take, ← hdense, idsOf, List.length_map]
  have hlength' : keyword.length = c.keyword.length := by
    rw [← hkeyword, idsOf, List.length_map]
  rw [fitting_two, hlength, hlength', Convertible]

/-- **A fusion of the two arms is an outcome.** -/
theorem outcome_of_fuses {dense keyword fused : List (RetrievedChunk Float64)} (hk : 0 < c.k)
    (hw : c.Weighted)
    (hsorting : IsSorting c.distance c.embedded order) (hdense : idsOf dense = order.take c.fetch)
    (hkeyword : idsOf keyword = c.keyword)
    (h : Fuses c.k [dense, keyword] [c.denseWeight, c.keywordWeight] fused) :
    c.Outcome order (idsOf fused) := by
  have hmem : ∀ x, x ∈ order.take c.fetch ↔ x ∈ c.embedded ∧ order.idxOf x < c.fetch := by
    intro x
    constructor
    · intro hx
      have hx' := List.mem_of_mem_take hx
      exact ⟨hsorting.perm.mem_iff.mp hx', (List.mem_take_iff_idxOf_lt hx').mp hx⟩
    · rintro ⟨hx, hlt⟩
      exact (List.mem_take_iff_idxOf_lt (hsorting.perm.mem_iff.mpr hx)).mpr hlt
  have hranked : ∀ x, x ∈ idsOf fused ↔ c.RankedAt (order.idxOf x) x := by
    intro x
    have hpair : x ∈ idsOf fused ↔ x ∈ idsOf dense ∨ x ∈ idsOf keyword := by
      simpa [idsOf] using h.mem_iff x
    rw [hpair, hdense, hkeyword, hmem, RankedAt]
  have hscore : ∀ x, Score.num (totalScore c.k
      ([dense, keyword].zip [c.denseWeight, c.keywordWeight]) x) =
        c.scoreAt (order.idxOf x) x := by
    intro x
    rw [totalScore_two, hdense, hkeyword, shareIn_take hsorting.perm]
    rfl
  have hnumbers : ∀ x, (Score.value (totalScore c.k
      ([dense, keyword].zip [c.denseWeight, c.keywordWeight]) x)).isSome := by
    intro x
    refine (nonneg_totalScore hk ?_ x).isSome
    intro arm harm
    rcases List.mem_pair.mp harm with rfl | rfl
    · exact hw.1
    · exact hw.2
  refine ⟨hsorting, h.nodup, hranked, fun x y => ?_⟩
  rw [h.precedes_iff hnumbers, hscore, hscore, hranked, hranked]

end Contest
end Retrieval
end EvidenceLab
