/-
# What the size of the pools changes

The hybrid and the adaptive retriever fuse the first hits of the same rankings, but not
equally many.  A chunk that an arm ranks between the two sizes gains in score from the
larger pools, and so it can be returned instead of, or before, what the smaller pools put
first.  The two agree, up to the common weight in the scores, iff no such chunk does
(`adaptive_agrees_iff`).

The order of a fusion is read off its specification: the fused ids are the sorted
enumeration of what is in the pools, and a common weight does not change the order.
-/

import EvidenceLab.Data.Prefixes
import EvidenceLab.Retrieval.FusionSpec
import EvidenceLab.Retrieval.Hybrid
import Mathlib.Algebra.Order.BigOperators.Group.List
import Mathlib.Algebra.Order.Field.Basic
import Mathlib.Data.List.Dedup
import Mathlib.Tactic.Ring

namespace EvidenceLab
namespace Retrieval

open Text Data EvidenceLab.Core

/-! ### Pools of the first hits -/

variable (k : ℤ) (arms : List (List RetrievedChunk)) (n : ℕ)

/-- What an arm gives a chunk that is among its first `n` hits. -/
def armScore (id : Uuid) (ranking : List RetrievedChunk) : ℚ :=
  match found id ranking with
  | some entry => if entry.2 < n then 1 / ((k : ℚ) + entry.2 + 1) else 0
  | none => 0

/-- The score of a chunk in the pools of the first `n` hits of each arm. -/
def poolScore (id : Uuid) : ℚ := (arms.map (armScore k n id)).sum

/-- The chunk is in one of these pools. -/
def Pooled (id : Uuid) : Prop := ∃ r ∈ arms, ∃ entry, found id r = some entry ∧ entry.2 < n

/-- One chunk is ahead of another in these pools. -/
def Ahead (a b : Uuid) : Prop := Before (a, poolScore k arms n a) (b, poolScore k arms n b)

instance : DecidableRel (Ahead k arms n) := fun _ _ => decidableBefore _ _

/-- The chunk is among the first `t` of these pools: fewer are ahead of it. -/
def Leading (t : ℕ) (id : Uuid) : Prop :=
  Pooled arms n id ∧
    (arms.flatMap fun r => (r.take n).map (·.chunkId)).dedup.countP
      (fun other => Ahead k arms n other id) < t

/-- An arm ranks the chunk between two sizes of the pools. -/
def Late (p q : ℕ) (id : Uuid) : Prop :=
  ∃ r ∈ arms, ∃ entry, found id r = some entry ∧ p ≤ entry.2 ∧ entry.2 < q

/-- No such chunk, with its score in the larger pools, is ahead of one of the first `t` of
the smaller ones, or is one of them. -/
def Undisturbed (p q t : ℕ) : Prop :=
  ∀ x, Late arms p q x → ∀ y, Leading k arms p t y →
    Before (y, poolScore k arms p y) (x, poolScore k arms q x)

variable {k : ℤ} {arms : List (List RetrievedChunk)} {n p q t : ℕ} {w : ℚ}
  {fused fused' : List RetrievedChunk}

/-! ### Scores -/

/-- A chunk that is found is found at the first of its places. -/
theorem found_take {S : Type} (id : Uuid) (ranking : List (RetrievedChunk S)) (n : ℕ) :
    found id (ranking.take n) = (found id ranking).filter (·.2 < n) := by
  have hshift : ∀ m, ((ranking.take n).zipIdx m).find? (fun e => e.1.chunkId = id) =
      ((ranking.zipIdx m).find? fun e => e.1.chunkId = id).filter (·.2 < m + n) := by
    induction ranking generalizing n with
    | nil => simp
    | cons hit ranking ih =>
        intro m
        cases n with
        | zero =>
            simp only [List.take_zero, List.zipIdx_nil, List.find?_nil]
            symm
            rw [Option.filter_eq_none_iff]
            intro e he
            obtain ⟨hle, -, -⟩ := List.mem_zipIdx (List.mem_of_find?_eq_some he)
            simpa using hle
        | succ n =>
            rw [List.take_succ_cons, List.zipIdx_cons, List.zipIdx_cons, List.find?_cons,
              List.find?_cons]
            by_cases hid : hit.chunkId = id
            · simp [hid, Option.filter]
            · have hstart : m + 1 + n = m + (n + 1) := by omega
              simp only [hid, decide_false]
              rw [ih n (m + 1), hstart]
  have h := hshift 0
  rwa [Nat.zero_add] at h

theorem found_isSome {S : Type} {id : Uuid} {ranking : List (RetrievedChunk S)} :
    (found id ranking).isSome ↔ id ∈ ranking.map (·.chunkId) := by
  rw [found, List.find?_isSome]
  constructor
  · rintro ⟨entry, hentry, hid⟩
    rw [← of_decide_eq_true hid]
    exact List.mem_map_of_mem (List.fst_mem_of_mem_zipIdx hentry)
  · intro hmem
    obtain ⟨hit, hhit, rfl⟩ := List.mem_map.mp hmem
    obtain ⟨i, hi⟩ := List.mem_iff_getElem?.mp hhit
    exact ⟨(hit, i), List.mk_mem_zipIdx_iff_getElem?.mpr hi, decide_eq_true rfl⟩

/-- A chunk is in the pools iff it is in one of the cut rankings. -/
theorem pooled_iff {id : Uuid} :
    (∃ r ∈ arms.map (·.take n), id ∈ r.map (·.chunkId)) ↔ Pooled arms n id := by
  simp only [List.mem_map, exists_exists_and_eq_and]
  refine exists_congr fun r => and_congr_right fun _ => ?_
  rw [← List.mem_map, ← found_isSome, found_take, Option.isSome_filter]
  cases found id r <;> simp

/-- **The score of a fusion** of pools with one weight. -/
theorem rrfScore_pools (id : Uuid) :
    rrfScore k ((arms.map (·.take n)).zip (List.replicate arms.length w)) id =
      w * poolScore k arms n id := by
  induction arms with
  | nil => simp [rrfScore, poolScore]
  | cons r arms ih =>
      have hsum : poolScore k (r :: arms) n id = armScore k n id r + poolScore k arms n id :=
        List.sum_cons
      rw [hsum, mul_add, ← ih]
      simp only [rrfScore, List.map_cons, List.length_cons, List.replicate_succ, List.zip_cons_cons,
        List.filterMap_cons, found_take, armScore]
      cases hfound : found id r with
      | none => simp
      | some entry =>
          by_cases hlt : entry.2 < n
          · simp [Option.filter, hlt, div_eq_mul_inv]
          · simp [Option.filter, hlt]

/-- A chunk that no arm ranks between the sizes has the same score. -/
theorem poolScore_eq {id : Uuid} (hpq : p ≤ q) (h : ¬ Late arms p q id) :
    poolScore k arms q id = poolScore k arms p id := by
  refine congrArg List.sum (List.map_congr_left ?_)
  intro r hr
  unfold armScore
  cases hfound : found id r with
  | none => rfl
  | some entry =>
      have hplace : ¬ (p ≤ entry.2 ∧ entry.2 < q) := fun hlate => h ⟨r, hr, entry, hfound, hlate⟩
      by_cases hlt : entry.2 < p
      · simp [hlt, hlt.trans_le hpq]
      · have hge : ¬ entry.2 < q := by omega
        simp [hlt, hge]

/-- One that an arm does has a greater one in the larger pools. -/
theorem poolScore_lt {id : Uuid} (hk : 0 < k) (hpq : p ≤ q) (h : Late arms p q id) :
    poolScore k arms p id < poolScore k arms q id := by
  have hpos : ∀ place : ℕ, (0 : ℚ) < 1 / ((k : ℚ) + place + 1) := by
    intro place
    have hk' : (0 : ℚ) < k := by exact_mod_cast hk
    positivity
  obtain ⟨r, hr, entry, hfound, hp, hq⟩ := h
  refine List.sum_lt_sum _ _ ?_ ⟨r, hr, ?_⟩
  · intro r' _
    unfold armScore
    cases found id r' with
    | none => exact le_rfl
    | some entry' =>
        by_cases hlt : entry'.2 < p
        · simp [hlt, hlt.trans_le hpq]
        · simp only [hlt, if_false]
          split
          · exact (hpos _).le
          · exact le_rfl
  · have hge : ¬ entry.2 < p := by omega
    simp only [armScore, hfound, hge, hq, if_false, if_true]
    exact hpos _

theorem ahead_asymm (a b : Uuid) (h : Ahead k arms n a b) : ¬ Ahead k arms n b a := by
  intro h'
  have heq := Before.asymm h h'
  rw [Ahead, heq] at h
  exact Before.irrefl _ h

/-- A common weight does not change the order. -/
theorem before_mul (hw : 0 < w) {a b : Uuid} {x y : ℚ} :
    Before (a, w * x) (b, w * y) ↔ Before (a, x) (b, y) := by
  simp only [Before, mul_lt_mul_iff_right₀ hw, mul_right_inj' hw.ne']

/-! ### The order of a fusion -/

section Order

variable (hw : 0 < w)
  (h : IsFusion k (arms.map (·.take n)) (List.replicate arms.length w) fused)

include h

theorem score_pools {hit : RetrievedChunk} (hhit : hit ∈ fused) :
    hit.score = w * poolScore k arms n hit.chunkId := by
  rw [(h.score hit hhit).1, rrfScore_pools]

include hw in
/-- The fused ids are sorted. -/
theorem pairwise_ids : (fused.map (·.chunkId)).Pairwise (Ahead k arms n) := by
  refine List.pairwise_map.mpr (h.sorted.imp_of_mem ?_)
  intro a b ha hb hab
  rw [score_pools h ha, score_pools h hb] at hab
  exact (before_mul hw).mp hab

theorem mem_ids {id : Uuid} : id ∈ fused.map (·.chunkId) ↔ Pooled arms n id :=
  (h.mem_iff id).trans pooled_iff

include hw in
/-- The leading chunks are the first of the fusion. -/
theorem leading_iff {id : Uuid} : Leading k arms n t id ↔ id ∈ (fused.map (·.chunkId)).take t := by
  have hperm : (arms.flatMap fun r => (r.take n).map (·.chunkId)).dedup.Perm
      (fused.map (·.chunkId)) := by
    refine (List.perm_ext_iff_of_nodup (List.nodup_dedup _) h.nodup).mpr ?_
    intro id
    rw [List.mem_dedup, List.mem_flatMap, mem_ids h, ← pooled_iff]
    simp only [List.mem_map, exists_exists_and_eq_and]
  rw [mem_take_iff_countP ahead_asymm (pairwise_ids hw h), mem_ids h, Leading, hperm.countP_eq]

theorem scores_take : (fused.take t).map (·.score) =
    ((fused.take t).map (·.chunkId)).map fun id => w * poolScore k arms n id := by
  rw [List.map_map]
  exact List.map_congr_left fun hit hhit => score_pools h (List.mem_of_mem_take hhit)

end Order

/-- Where an arm has a late hit, the smaller pools have as many chunks as they are large. -/
theorem le_length_of_late {x : Uuid} (hdup : ∀ r ∈ arms, (r.map (·.chunkId)).Nodup)
    (h : IsFusion k (arms.map (·.take p)) (List.replicate arms.length w) fused)
    (hlate : Late arms p q x) : p ≤ fused.length := by
  obtain ⟨r, hr, entry, hfound, hle, -⟩ := hlate
  have hlt : entry.2 < r.length := by
    obtain ⟨-, hlt, -⟩ := List.mem_zipIdx (List.mem_of_find?_eq_some hfound)
    omega
  have hsub : (r.take p).map (·.chunkId) ⊆ fused.map (·.chunkId) := by
    intro id hid
    exact (h.mem_iff id).mpr ⟨r.take p, List.mem_map_of_mem hr, hid⟩
  have hnodup : ((r.take p).map (·.chunkId)).Nodup :=
    (hdup r hr).sublist ((List.take_sublist p r).map _)
  have hlength := (List.subperm_of_subset hnodup hsub).length_le
  rw [List.length_map, List.length_map, List.length_take] at hlength
  omega

/-! ### Undisturbed fusions -/

section Undisturbed

variable (hk : 0 < k) (hw : 0 < w) (hpq : p ≤ q)
  (h : IsFusion k (arms.map (·.take p)) (List.replicate arms.length w) fused)
  (h' : IsFusion k (arms.map (·.take q)) (List.replicate arms.length 1) fused')
  (hundisturbed : Undisturbed k arms p q t)

include hk hw hpq h hundisturbed

/-- A chunk that is late and leading would be ahead of itself. -/
theorem score_eq_of_undisturbed : ∀ y ∈ (fused.map (·.chunkId)).take t,
    poolScore k arms q y = poolScore k arms p y := by
  intro y hy
  refine poolScore_eq hpq ?_
  intro hlate
  rcases hundisturbed y hlate y ((leading_iff hw h).mpr hy) with hlt | ⟨-, hlt⟩
  · exact absurd hlt (poolScore_lt hk hpq hlate).asymm
  · exact lt_irrefl _ hlt

omit hk hpq hundisturbed hw in
include h' in
/-- What the larger pools add is late. -/
theorem mem_smaller {x : Uuid} (hx : x ∈ fused'.map (·.chunkId)) (hno : ¬ Late arms p q x) :
    x ∈ fused.map (·.chunkId) := by
  obtain ⟨r, hr, entry, hfound, hlt⟩ := (mem_ids h').mp hx
  refine (mem_ids h).mpr ⟨r, hr, entry, hfound, ?_⟩
  by_contra hge
  exact hno ⟨r, hr, entry, hfound, not_lt.mp hge, hlt⟩

include h' in
/-- The fusion of the larger pools begins with the first of the other. -/
theorem eq_append_of_undisturbed : fused'.map (·.chunkId) =
    (fused.map (·.chunkId)).take t ++
      (fused'.map (·.chunkId)).filter (· ∉ (fused.map (·.chunkId)).take t) := by
  have hsorted := pairwise_ids hw h
  have hsame := score_eq_of_undisturbed hk hw hpq h hundisturbed
  have hfront : ((fused.map (·.chunkId)).take t).Pairwise (Ahead k arms q) := by
    refine (hsorted.sublist (List.take_sublist _ _)).imp_of_mem ?_
    intro a b ha hb hab
    rwa [Ahead, hsame a ha, hsame b hb]
  refine eq_append_of_before ahead_asymm (pairwise_ids one_pos h') hfront ?_ ?_
  · intro y hy
    obtain ⟨r, hr, entry, hfound, hlt⟩ := (mem_ids h).mp (List.mem_of_mem_take hy)
    exact (mem_ids h').mpr ⟨r, hr, entry, hfound, hlt.trans_le hpq⟩
  · intro y hy x hx hno
    rw [Ahead, hsame y hy]
    by_cases hlate : Late arms p q x
    · exact hundisturbed x hlate y ((leading_iff hw h).mpr hy)
    · have hahead : Ahead k arms p y x :=
        before_of_mem_take hsorted hy (mem_smaller h h' hx hlate) hno
      rw [poolScore_eq hpq hlate]
      exact hahead

include h' in
/-- So the first of the two are the same chunks. -/
theorem take_eq_of_undisturbed (htp : t ≤ p) (hdup : ∀ r ∈ arms, (r.map (·.chunkId)).Nodup) :
    (fused'.map (·.chunkId)).take t = (fused.map (·.chunkId)).take t := by
  have happend := eq_append_of_undisturbed hk hw hpq h h' hundisturbed
  by_cases hlen : t ≤ fused.length
  · have htake : ((fused.map (·.chunkId)).take t).length = t := by
      rw [List.length_take, List.length_map]
      omega
    rw [happend, List.take_left' htake]
  · -- The smaller pools have fewer than `t` chunks, so there is nothing late.
    have hall : (fused.map (·.chunkId)).take t = fused.map (·.chunkId) := by
      refine List.take_of_length_le ?_
      rw [List.length_map]
      omega
    have hnone : (fused'.map (·.chunkId)).filter (· ∉ (fused.map (·.chunkId)).take t) = [] := by
      refine List.filter_eq_nil_iff.mpr ?_
      intro x hx hno
      rw [hall, decide_eq_true_eq] at hno
      refine hno (mem_smaller h h' hx ?_)
      intro hlate
      have hle := le_length_of_late hdup h hlate
      omega
    rw [hnone, List.append_nil] at happend
    rw [happend, hall, List.take_of_length_le]
    rw [List.length_map]
    omega

end Undisturbed

/-- **The first of the two fusions agree iff no late chunk disturbs them.** -/
theorem agree_iff_undisturbed (hk : 0 < k) (hw : 0 < w) (htp : t ≤ p) (hpq : p ≤ q)
    (hdup : ∀ r ∈ arms, (r.map (·.chunkId)).Nodup)
    (h : IsFusion k (arms.map (·.take p)) (List.replicate arms.length w) fused)
    (h' : IsFusion k (arms.map (·.take q)) (List.replicate arms.length 1) fused') :
    ((fused.take t).map (·.chunkId) = (fused'.take t).map (·.chunkId) ∧
      (fused.take t).map (·.score) = (fused'.take t).map fun hit => w * hit.score) ↔
      Undisturbed k arms p q t := by
  have hscores : (fused'.take t).map (fun hit => w * hit.score) =
      ((fused'.take t).map (·.chunkId)).map fun id => w * poolScore k arms q id := by
    have hone := congrArg (List.map (w * ·)) (scores_take (t := t) h')
    simpa only [List.map_map, Function.comp_def, one_mul] using hone
  rw [scores_take h, hscores, List.map_take, List.map_take]
  constructor
  · rintro ⟨hids, hsame⟩ x hlate y hlead
    rw [hids, List.map_inj_left] at hsame
    have hy := (leading_iff hw h).mp hlead
    rw [hids] at hy
    have hx : x ∉ (fused'.map (·.chunkId)).take t := by
      intro hmem
      have heq := mul_left_cancel₀ hw.ne' (hsame x hmem)
      exact (poolScore_lt hk hpq hlate).ne heq
    have hpooled : x ∈ fused'.map (·.chunkId) := by
      obtain ⟨r, hr, entry, hfound, -, hlt⟩ := hlate
      exact (mem_ids h').mpr ⟨r, hr, entry, hfound, hlt⟩
    have hahead := before_of_mem_take (pairwise_ids one_pos h') hy hpooled hx
    rwa [Ahead, ← mul_left_cancel₀ hw.ne' (hsame y hy)] at hahead
  · intro hundisturbed
    have hids := take_eq_of_undisturbed hk hw hpq h h' hundisturbed htp hdup
    refine ⟨hids.symm, ?_⟩
    rw [hids, List.map_inj_left]
    intro y hy
    rw [score_eq_of_undisturbed hk hw hpq h hundisturbed y hy]

/-! ### The two retrievers -/

section Arms

variable {S : Type} [Score S] {query : FilteredQuery} {dense keyword : List (RetrievedChunk S)}

/-- An arm that returns the first hits of one ranking, without duplicates. -/
structure Ranks (arm : Retriever S) (query : FilteredQuery) (ranking : List (RetrievedChunk S)) :
    Prop where
  prefixes : ∀ topK, arm { query with topK } = .ok (ranking.take topK)
  nodup : (ranking.map (·.chunkId)).Nodup

omit [Score S] in
theorem nodup_pools {denseArm keywordArm : Retriever S} (hdense : Ranks denseArm query dense)
    (hkeyword : Ranks keywordArm query keyword) (n : ℕ) :
    ∀ ranking ∈ [dense, keyword].map (·.take n), (ranking.map (·.chunkId)).Nodup := by
  intro ranking hranking
  rcases List.mem_pair.mp hranking with rfl | rfl
  · exact hdense.nodup.sublist ((List.take_sublist _ _).map _)
  · exact hkeyword.nodup.sublist ((List.take_sublist _ _).map _)

/-- The hybrid retriever returns the first of what is made of its pools. -/
theorem hybrid_eq {r : HybridRetriever S} (hdense : Ranks r.dense query dense)
    (hkeyword : Ranks r.keyword query keyword) : r.retrieve query =
      (reciprocalRankFusion ([dense, keyword].map (·.take (r.fetchK query.topK))) r.k
        r.weights).map (·.take query.topK) := by
  have hdeep := hdense.prefixes (r.fetchK query.topK)
  have hdeep' := hkeyword.prefixes (r.fetchK query.topK)
  unfold HybridRetriever.retrieve
  simp only [hdeep, hdeep']
  rfl

/-- So does the adaptive one. -/
theorem adaptive_eq {r : AdaptiveRetriever S} {profile : RetrievalProfile S}
    (hprofile : r.policy.profileFor (r.analyze query.text) = profile)
    (hdense : Ranks r.dense query dense) (hkeyword : Ranks r.keyword query keyword) :
    r.retrieve query =
      (reciprocalRankFusion ([dense, keyword].map (·.take (query.topK * profile.fetchMultiplier)))
        r.k (some profile.weights)).map (·.take query.topK) := by
  subst hprofile
  set deep := r.policy.plan (r.analyze query.text) query with hplan
  have hdeep : r.dense deep = .ok (dense.take deep.topK) := hdense.prefixes _
  have hdeep' : r.keyword deep = .ok (keyword.take deep.topK) := hkeyword.prefixes _
  unfold AdaptiveRetriever.retrieve
  simp only [← hplan, hdeep, hdeep']
  rfl

end Arms

/-- Both return, the same chunks in the same order, with scores up to the weight. -/
def Agree (w : ℚ) (adaptive hybrid : Except Exc (List RetrievedChunk)) : Prop :=
  ∃ hits hits', adaptive = .ok hits ∧ hybrid = .ok hits' ∧
    hits.map (·.chunkId) = hits'.map (·.chunkId) ∧
    hits.map (·.score) = hits'.map fun hit => w * hit.score

/-- Where no hit lies between the sizes, nothing is disturbed. -/
theorem undisturbed_of_le (h : q ≤ p) : Undisturbed k arms p q t := by
  rintro x ⟨_, _, entry, _, hp, hq⟩
  omega

section Retrievers

variable {query : FilteredQuery} {dense keyword : List RetrievedChunk}

/-- What the hybrid retriever returns. -/
theorem hybrid_retrieve {r : HybridRetriever} (hk : 0 < r.k) (hweights : r.weights = none)
    (hdense : Ranks r.dense query dense) (hkeyword : Ranks r.keyword query keyword) :
    ∃ fused, r.retrieve query = .ok (fused.take query.topK) ∧
      IsFusion r.k ([dense, keyword].map (·.take (r.fetchK query.topK)))
        (List.replicate [dense, keyword].length 1) fused := by
  have hdup := nodup_pools hdense hkeyword (r.fetchK query.topK)
  have hlength : (List.replicate [dense, keyword].length (1 : ℚ)).length =
      ([dense, keyword].map (·.take (r.fetchK query.topK))).length := rfl
  obtain ⟨fused, hok, hfusion⟩ := isFusion_reciprocalRankFusion hdup hk hlength
  refine ⟨fused, ?_, hfusion⟩
  rw [hybrid_eq hdense hkeyword, hweights]
  exact congrArg (Except.map _) hok

/-- What the adaptive retriever returns. -/
theorem adaptive_fuses {r : AdaptiveRetriever} {profile : RetrievalProfile} (hk : 0 < r.k)
    (hprofile : r.policy.profileFor (r.analyze query.text) = profile)
    (hdense : Ranks r.dense query dense) (hkeyword : Ranks r.keyword query keyword) :
    ∃ fused, r.retrieve query = .ok (fused.take query.topK) ∧
      IsFusion r.k ([dense, keyword].map (·.take (query.topK * profile.fetchMultiplier)))
        profile.weights fused := by
  have hdup := nodup_pools hdense hkeyword (query.topK * profile.fetchMultiplier)
  have hlength : profile.weights.length =
      ([dense, keyword].map (·.take (query.topK * profile.fetchMultiplier))).length := rfl
  obtain ⟨fused, hok, hfusion⟩ := isFusion_reciprocalRankFusion hdup hk hlength
  refine ⟨fused, ?_, hfusion⟩
  rw [adaptive_eq hprofile hdense hkeyword, hok]
  rfl

/-- What it returns under a profile with one weight. -/
theorem adaptive_retrieve {r : AdaptiveRetriever} {profile : RetrievalProfile} (hk : 0 < r.k)
    (hprofile : r.policy.profileFor (r.analyze query.text) = profile)
    (hbalanced : profile.keywordWeight = profile.semanticWeight)
    (hdense : Ranks r.dense query dense) (hkeyword : Ranks r.keyword query keyword) :
    ∃ fused, r.retrieve query = .ok (fused.take query.topK) ∧
      IsFusion r.k ([dense, keyword].map (·.take (query.topK * profile.fetchMultiplier)))
        (List.replicate [dense, keyword].length profile.semanticWeight) fused := by
  have hweights : profile.weights =
      List.replicate [dense, keyword].length profile.semanticWeight := by
    rw [RetrievalProfile.weights, hbalanced]
    rfl
  rw [← hweights]
  exact adaptive_fuses hk hprofile hdense hkeyword

/-- The profile of the query fuses both arms alike, from pools of the hybrid retriever's
multiplier. -/
structure Comparable (adaptive : AdaptiveRetriever) (hybrid : HybridRetriever)
    (profile : RetrievalProfile) (query : FilteredQuery) : Prop where
  chosen : adaptive.policy.profileFor (adaptive.analyze query.text) = profile
  alike : profile.keywordWeight = profile.semanticWeight
  unweighted : hybrid.weights = none
  multiplier : profile.fetchMultiplier = hybrid.fetchMultiplier
  constant : adaptive.k = hybrid.k

/-- The common weight is positive: one of the two is not zero. -/
theorem RetrievalProfile.weight_pos {profile : RetrievalProfile}
    (h : profile.keywordWeight = profile.semanticWeight) : 0 < profile.semanticWeight := by
  refine lt_of_le_of_ne profile.exact.1.1 ?_
  intro hzero
  exact profile.exact.2 ⟨hzero.symm, h.trans hzero.symm⟩

variable {adaptive : AdaptiveRetriever} {hybrid : HybridRetriever} {profile : RetrievalProfile}

theorem agree_iff (hk : 0 < hybrid.k) (h : Comparable adaptive hybrid profile query)
    (hdense : Ranks adaptive.dense query dense) (hkeyword : Ranks adaptive.keyword query keyword)
    (hdense' : Ranks hybrid.dense query dense) (hkeyword' : Ranks hybrid.keyword query keyword) :
    Agree profile.semanticWeight (adaptive.retrieve query) (hybrid.retrieve query) ↔
      Undisturbed hybrid.k [dense, keyword] (query.topK * profile.fetchMultiplier)
        (hybrid.fetchK query.topK) query.topK := by
  have hk' : 0 < adaptive.k := by
    rw [h.constant]
    exact hk
  obtain ⟨fused, hok, hfused⟩ := adaptive_retrieve hk' h.chosen h.alike hdense hkeyword
  obtain ⟨fused', hok', hfused'⟩ := hybrid_retrieve hk h.unweighted hdense' hkeyword'
  rw [h.constant] at hfused
  have htop : query.topK ≤ query.topK * profile.fetchMultiplier :=
    Nat.le_mul_of_pos_right _ profile.one_le
  have hsize : query.topK * profile.fetchMultiplier ≤ hybrid.fetchK query.topK := by
    rw [h.multiplier]
    exact le_max_left _ _
  have hdup : ∀ ranking ∈ [dense, keyword], (ranking.map (·.chunkId)).Nodup := by
    intro ranking hranking
    rcases List.mem_pair.mp hranking with rfl | rfl
    · exact hdense.nodup
    · exact hkeyword.nodup
  rw [← agree_iff_undisturbed hk (RetrievalProfile.weight_pos h.alike) htop hsize hdup hfused
    hfused']
  constructor
  · rintro ⟨hits, hits', hhits, hhits', hsame⟩
    rw [hok] at hhits
    rw [hok'] at hhits'
    cases hhits
    cases hhits'
    exact hsame
  · intro hsame
    exact ⟨_, _, hok, hok', hsame⟩

/-- **Adaptive and hybrid agree** under a profile with one weight and the same multiplier
iff no chunk between the two pools disturbs the first; where the multiplier alone reaches
`minFetchK` there is none between them. -/
theorem adaptive_agrees_iff (hk : 0 < hybrid.k) (h : Comparable adaptive hybrid profile query)
    (hdense : Ranks adaptive.dense query dense) (hkeyword : Ranks adaptive.keyword query keyword)
    (hdense' : Ranks hybrid.dense query dense) (hkeyword' : Ranks hybrid.keyword query keyword) :
    (Agree profile.semanticWeight (adaptive.retrieve query) (hybrid.retrieve query) ↔
      Undisturbed hybrid.k [dense, keyword] (query.topK * profile.fetchMultiplier)
        (hybrid.fetchK query.topK) query.topK) ∧
      (minFetchK ≤ query.topK * profile.fetchMultiplier →
        Agree profile.semanticWeight (adaptive.retrieve query) (hybrid.retrieve query)) := by
  have hiff := agree_iff hk h hdense hkeyword hdense' hkeyword'
  refine ⟨hiff, ?_⟩
  intro hreached
  refine hiff.mpr (undisturbed_of_le ?_)
  rw [h.multiplier] at hreached ⊢
  exact max_le le_rfl hreached

end Retrievers

/-! ### Two arms that share their fourth hit -/

def sampleDense : List RetrievedChunk := [1, 2, 3, 9].map (sampleHit · .semantic)

def sampleKeyword : List RetrievedChunk := [4, 5, 6, 9].map (sampleHit · .keyword)

/-- The arm of a ranking. -/
def rankedArm {S : Type} (ranking : List (RetrievedChunk S)) : Retriever S :=
  fun query => .ok (ranking.take query.topK)

def sampleHybrid : HybridRetriever :=
  { dense := rankedArm sampleDense, keyword := rankedArm sampleKeyword }

/-- Every query is a technical one. -/
def sampleAdaptive : AdaptiveRetriever :=
  { dense := rankedArm sampleDense, keyword := rankedArm sampleKeyword,
    analyze := fun _ => .technical, policy := defaultPolicy }

def sampleQuery (topK : ℕ) : FilteredQuery := { text := [], projectId := 0, topK }

theorem ranks_rankedArm {S : Type} (ranking : List (RetrievedChunk S)) (query : FilteredQuery)
    (h : (ranking.map (·.chunkId)).Nodup) : Ranks (rankedArm ranking) query ranking :=
  ⟨fun _ => rfl, h⟩

theorem comparable_sample (topK : ℕ) :
    Comparable sampleAdaptive sampleHybrid (balanced 3 "technical: balanced" (by decide))
      (sampleQuery topK) :=
  ⟨rfl, rfl, rfl, rfl, rfl⟩

/-- For one result the hybrid retriever returns the shared chunk, which the adaptive one
never sees. -/
theorem adaptive_agrees_fails :
    Comparable sampleAdaptive sampleHybrid (balanced 3 "technical: balanced" (by decide))
        (sampleQuery 1) ∧
      Ranks (rankedArm sampleDense) (sampleQuery 1) sampleDense ∧
      Ranks (rankedArm sampleKeyword) (sampleQuery 1) sampleKeyword ∧
      ¬ Agree (1 / 2) (sampleAdaptive.retrieve (sampleQuery 1))
        (sampleHybrid.retrieve (sampleQuery 1)) := by
  have hdense := ranks_rankedArm sampleDense (sampleQuery 1) (by decide)
  have hkeyword := ranks_rankedArm sampleKeyword (sampleQuery 1) (by decide)
  refine ⟨comparable_sample 1, hdense, hkeyword, ?_⟩
  intro hagree
  have hno := (agree_iff (by decide) (comparable_sample 1) hdense hkeyword hdense hkeyword).mp
    hagree
  have hlate : Late [sampleDense, sampleKeyword] 3 20 9 := by
    refine ⟨sampleDense, List.mem_cons_self, (sampleHit 9 .semantic, 3), rfl, ?_, ?_⟩ <;> decide
  have hlead : Leading 60 [sampleDense, sampleKeyword] 3 1 1 := by
    refine ⟨⟨sampleDense, List.mem_cons_self, (sampleHit 1 .semantic, 0), rfl, by decide⟩, ?_⟩
    decide +kernel
  have hbehind : ¬ Before (1, poolScore 60 [sampleDense, sampleKeyword] 3 1)
      (9, poolScore 60 [sampleDense, sampleKeyword] 20 9) := by
    decide +kernel
  exact hbehind (hno 9 hlate 1 hlead)

/-- Seven results need pools of twenty-one. -/
theorem adaptive_agrees_iff_sample :
    Agree (1 / 2) (sampleAdaptive.retrieve (sampleQuery 7))
      (sampleHybrid.retrieve (sampleQuery 7)) := by
  have hdense := ranks_rankedArm sampleDense (sampleQuery 7) (by decide)
  have hkeyword := ranks_rankedArm sampleKeyword (sampleQuery 7) (by decide)
  exact (adaptive_agrees_iff (by decide) (comparable_sample 7) hdense hkeyword hdense
    hkeyword).2 (by decide)

end Retrieval
end EvidenceLab
