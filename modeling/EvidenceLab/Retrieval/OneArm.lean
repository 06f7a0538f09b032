/-
# Degrading to one arm

Where one arm returns nothing, the fusion is that of the other arm alone: its chunks in the
order of their shares, which is the order of the ranking as long as a later position is worth
less.  A profile may give one arm the weight zero, though, and if that arm is the one that
answers, all scores are zero and the chunks come out in the order of their id texts.  So it is
with an infinite weight, and with one so small that the shares round to the same; NaN is not
compared, and moves nothing.

The hybrid and the adaptive retriever reproduce the arm that is left exactly where the doubles
of its positions keep their order (`one_arm_iff`), which they do for every weight of ordinary
size (`reproducible_of_ordinary`).
-/

import EvidenceLab.Retrieval.Agreement
import EvidenceLab.Retrieval.Pools

namespace EvidenceLab
namespace Retrieval

open Text Data EvidenceLab.Core

/-! ### The fusion of one arm -/

/-- All positions can be divided by, and each of the first `n` ids is worth more in its place than
all that it precedes, or the same with a lesser text, unless there is nothing to compare. -/
structure Reproducible (k : ℤ) (w : Float64) (n : ℕ) (pool : List Uuid) : Prop where
  fits : ∀ position < pool.length, Score.fits Float64 (k + position + 1) = true
  ordered : w = .nan ∨ ∀ x ∈ pool.take n, ∀ y ∈ pool, Precedes pool x y →
    Before (x, Score.num (Score.share k w (pool.idxOf x)))
      (y, Score.num (Score.share k w (pool.idxOf y)))

/-- Of two rankings with weights one is empty. -/
def OneArm (w : Float64) (pool : List (RetrievedChunk Float64))
    (rankings : List (List (RetrievedChunk Float64))) (weights : List Float64) : Prop :=
  ∃ w', (rankings = [pool, []] ∧ weights = [w, w']) ∨ (rankings = [[], pool] ∧ weights = [w', w])

section Single

variable {k : ℤ} {w : Float64} {rankings : List (List (RetrievedChunk Float64))}
  {weights : List Float64} {fused pool : List (RetrievedChunk Float64)}

theorem OneArm.flatten (h : OneArm w pool rankings weights) : rankings.flatten = pool := by
  obtain ⟨w', ⟨rfl, -⟩ | ⟨rfl, -⟩⟩ := h <;> simp

theorem OneArm.length (h : OneArm w pool rankings weights) : weights.length = rankings.length := by
  obtain ⟨w', ⟨rfl, rfl⟩ | ⟨rfl, rfl⟩⟩ := h <;> rfl

theorem OneArm.nodup (h : OneArm w pool rankings weights) (hnodup : (idsOf pool).Nodup) :
    ∀ r ∈ rankings, (idsOf r).Nodup := by
  obtain ⟨w', ⟨rfl, -⟩ | ⟨rfl, -⟩⟩ := h
  · exact nodup_two hnodup List.nodup_nil
  · exact nodup_two List.nodup_nil hnodup

theorem OneArm.fitting_iff (h : OneArm w pool rankings weights) : fitting k rankings = true ↔
    ∀ position < (idsOf pool).length, Score.fits Float64 (k + position + 1) = true := by
  rw [idsOf, List.length_map]
  obtain ⟨w', ⟨rfl, -⟩ | ⟨rfl, -⟩⟩ := h <;> simp [fitting_two]

theorem OneArm.totalScore (h : OneArm w pool rankings weights) {id : Uuid} (hid : id ∈ idsOf pool) :
    totalScore k (rankings.zip weights) id =
      Score.total [Score.share k w ((idsOf pool).idxOf id)] := by
  have hnot : id ∉ idsOf ([] : List (RetrievedChunk Float64)) := List.not_mem_nil
  obtain ⟨w', ⟨rfl, rfl⟩ | ⟨rfl, rfl⟩⟩ := h
  · rw [totalScore_two, shareIn, shareIn, if_pos hid, if_neg hnot]
    rfl
  · rw [totalScore_two, shareIn, shareIn, if_pos hid, if_neg hnot]
    rfl

/-- The chunks of the pool are fused. -/
theorem OneArm.mem_fused (hone : OneArm w pool rankings weights)
    (h : Fuses k rankings weights fused) (id : Uuid) : id ∈ idsOf fused ↔ id ∈ idsOf pool := by
  rw [h.mem_iff, ← hone.flatten]
  simp [idsOf, List.mem_flatten]

/-- **The fusion of one arm begins as its ranking** iff its shares keep their order. -/
theorem take_fused_iff (h : Fuses k rankings weights fused) (hone : OneArm w pool rankings weights)
    (hk : 0 < k) (hw : w = .nan ∨ w.Nonneg) (hnodup : (idsOf pool).Nodup) (n : ℕ) :
    (idsOf fused).take n = (idsOf pool).take n ↔
      w = .nan ∨ ∀ x ∈ (idsOf pool).take n, ∀ y ∈ idsOf pool, Precedes (idsOf pool) x y →
        Before (x, Score.num (Score.share k w ((idsOf pool).idxOf x)))
          (y, Score.num (Score.share k w ((idsOf pool).idxOf y))) := by
  have hmem := hone.mem_fused h
  have hscore : ∀ hit ∈ fused,
      hit.score = Score.total [Score.share k w ((idsOf pool).idxOf hit.chunkId)] := by
    intro hit hhit
    rw [(h.score hit hhit).1]
    exact hone.totalScore ((hmem _).mp (List.mem_map_of_mem hhit))
  rcases hw with rfl | hnonneg
  · have hkept : idsOf fused = idsOf pool := by
      rw [h.kept ?_ (hone.flatten.symm ▸ hnodup), hone.flatten]
      intro hit hhit
      rw [hscore hit hhit]
      exact Score.value_total_singleton _
    rw [hkept]
    exact iff_of_true rfl (Or.inl rfl)
  · have hnan : w ≠ .nan := by
      rintro rfl
      exact absurd hnonneg (WithBot.not_coe_le_bot _)
    have hsorted : (idsOf fused).Pairwise fun a b =>
        Before (a, Score.num (Score.share k w ((idsOf pool).idxOf a)))
          (b, Score.num (Score.share k w ((idsOf pool).idxOf b))) := by
      have hnumbers := h.sorted fun hit hhit => by
        rw [hscore hit hhit, Score.value_total_singleton]
        exact (Score.nonneg_share hk hnonneg _).isSome
      refine List.pairwise_map.mpr (hnumbers.imp_of_mem ?_)
      intro a b ha hb hab
      rwa [hscore a ha, hscore b hb, Score.num_total_singleton, Score.num_total_singleton] at hab
    rw [or_iff_right hnan]
    refine take_eq_take_iff ?_ hsorted hnodup hmem n
    intro a b hab hba
    have heq := Before.asymm hab hba
    rw [heq] at hab
    exact Before.irrefl _ hab

/-- **A weight of ordinary size** keeps the order of every pool of ordinary size. -/
theorem reproducible_of_ordinary {r : ℚ} (hw : w.toRat? = some r) (hk : 0 < k) {ids : List Uuid}
    (hsize : k + ids.length ≤ 2 ^ 51) (hr : (k + ids.length) * 2 ^ (-1022 : ℤ) ≤ r) (n : ℕ) :
    Reproducible k w n ids := by
  have hpow : (0 : ℚ) < 2 ^ (-1022 : ℤ) := zpow_pos (by norm_num) _
  refine ⟨fun position hposition => ?_, Or.inr fun x hx y hy hprecedes => Or.inl ?_⟩
  · exact Float64.fits_of_le (by omega) (by omega)
  · have hlast := List.idxOf_lt_length_of_mem hy
    rw [Precedes] at hprecedes
    refine Float64.num_dividedBy_lt hw (by omega) (by omega) (by omega) (le_trans ?_ hr)
    refine mul_le_mul_of_nonneg_right ?_ hpow.le
    have hle : k + (ids.idxOf y : ℤ) + 1 ≤ k + ids.length := by omega
    exact_mod_cast hle

end Single

/-! ### What the retrievers return -/

/-- Both return, and the same chunks in the same order. -/
def Reproduces {S : Type} (result own : Except Exc (List (RetrievedChunk S))) : Prop :=
  ∃ hits hits', result = .ok hits ∧ own = .ok hits' ∧ idsOf hits = idsOf hits'

/-- Two lists that are returned. -/
theorem reproduces_iff_of_ok {S : Type} {result own : Except Exc (List (RetrievedChunk S))}
    {hits hits' : List (RetrievedChunk S)} (hresult : result = .ok hits) (hown : own = .ok hits') :
    Reproduces result own ↔ idsOf hits = idsOf hits' := by
  constructor
  · rintro ⟨found, found', hfound, hfound', heq⟩
    obtain rfl := Except.ok.inj (hresult.symm.trans hfound)
    obtain rfl := Except.ok.inj (hown.symm.trans hfound')
    exact heq
  · exact fun heq => ⟨hits, hits', hresult, hown, heq⟩

/-- An arm that returns nothing. -/
def Silent {S : Type} (arm : Retriever S) (query : FilteredQuery) : Prop := Ranks arm query []

section Retrievers

variable {query : FilteredQuery} {ranking : List (RetrievedChunk Float64)} {k : ℤ} {w : Float64}
  {rankings : List (List (RetrievedChunk Float64))} {weights : List Float64} {n : ℕ}

/-- A result that is the beginning of a fusion of one arm reproduces it iff the pool reaches as far
as the request or the ranking, and its order is kept. -/
theorem reproduces_iff {arm : Retriever Float64} (harm : Ranks arm query ranking)
    (hone : OneArm w (ranking.take n) rankings weights) (hk : 0 < k) (hw : w = .nan ∨ w.Nonneg)
    {result : Except Exc (List (RetrievedChunk Float64))}
    (hresult : result =
      (reciprocalRankFusion rankings k (some weights)).map (·.take query.topK)) :
    Reproduces result (arm query) ↔ (query.topK ≤ n ∨ ranking.length ≤ n) ∧
      Reproducible k w query.topK (idsOf (ranking.take n)) := by
  have hown : arm query = .ok (ranking.take query.topK) := harm.prefixes query.topK
  have hnodup : (idsOf (ranking.take n)).Nodup :=
    harm.nodup.sublist ((List.take_sublist _ _).map _)
  by_cases hfits : fitting k rankings = true
  · obtain ⟨fused, hok, h⟩ :=
      fuses_reciprocalRankFusion (hone.nodup hnodup) hk hone.length hfits
    rw [hok] at hresult
    have hlength : (idsOf fused).length = (idsOf (ranking.take n)).length :=
      ((List.perm_ext_iff_of_nodup h.nodup hnodup).mpr (hone.mem_fused h)).length_eq
    have hcut : (idsOf (ranking.take n)).take query.topK =
        (idsOf ranking).take (min query.topK n) := by
      rw [idsOf, List.map_take, List.take_take]
      rfl
    have hreaches : (idsOf ranking).take (min query.topK n) = (idsOf ranking).take query.topK ↔
        query.topK ≤ n ∨ ranking.length ≤ n := by
      rw [List.take_eq_take_iff, idsOf, List.length_map]
      omega
    have hfused := take_fused_iff h hone hk hw hnodup query.topK
    have hsame : Reproduces result (arm query) ↔
        (idsOf fused).take query.topK = (idsOf ranking).take query.topK := by
      rw [reproduces_iff_of_ok hresult hown, idsOf, idsOf, List.map_take, List.map_take]
      rfl
    rw [hsame]
    constructor
    · intro heq
      have hreach : query.topK ≤ n ∨ ranking.length ≤ n := by
        have hcount := congrArg List.length heq
        rw [List.length_take, List.length_take, hlength, idsOf, idsOf, List.length_map,
          List.length_map, List.length_take] at hcount
        omega
      refine ⟨hreach, hone.fitting_iff.mp hfits, hfused.mp ?_⟩
      rw [heq, hcut, hreaches.mpr hreach]
    · rintro ⟨hreach, hreproducible⟩
      rw [hfused.mpr hreproducible.ordered, hcut, hreaches.mpr hreach]
  · rw [reciprocalRankFusion_eq_overflow hk hone.length hfits] at hresult
    refine iff_of_false ?_ fun h => hfits (hone.fitting_iff.mpr h.2.fits)
    rintro ⟨hits, -, hhits, -⟩
    rw [hresult] at hhits
    cases hhits

/-- What a profile accepts is NaN or not negative. -/
theorem nan_or_nonneg {w : Float64} (h : ¬ Score.lt w (Score.ofRat 0) = true) :
    w = .nan ∨ w.Nonneg := by
  have hzero : Score.value (Score.ofRat 0 : Float64) = some (0 : Extended) := by decide +kernel
  cases hvalue : Score.value w with
  | none => cases w <;> first | exact Or.inl rfl | cases hvalue
  | some a =>
      rw [Score.lt, hvalue, hzero] at h
      refine Or.inr ?_
      show 0 ≤ Score.num w
      rw [Score.num, hvalue]
      exact not_lt.mp fun hlt => h (decide_eq_true hlt)

theorem nonneg_one : (Float64.ofRat 1).Nonneg := by
  show 0 ≤ (Float64.ofRat 1).num
  decide +kernel

/-- The hybrid retriever with a silent keyword arm. -/
theorem hybrid_reproduces_iff {r : HybridRetriever Float64} (hk : 0 < r.k)
    (hweights : r.weights = none) (hdense : Ranks r.dense query ranking)
    (hkeyword : Silent r.keyword query) :
    Reproduces (r.retrieve query) (r.dense query) ↔
      (query.topK ≤ r.fetchK query.topK ∨ ranking.length ≤ r.fetchK query.topK) ∧
        Reproducible r.k (.ofRat 1) query.topK (idsOf (ranking.take (r.fetchK query.topK))) := by
  refine reproduces_iff hdense ⟨.ofRat 1, Or.inl ⟨rfl, rfl⟩⟩ hk (Or.inr nonneg_one) ?_
  rw [hybrid_eq hdense hkeyword, hweights, List.map_cons, List.map_cons, List.take_nil]
  rfl

/-- **When the arm that is left is reproduced.** -/
theorem one_arm_iff (hybrid : HybridRetriever Float64) (adaptive : AdaptiveRetriever Float64)
    (profile : RetrievalProfile Float64) (hk : 0 < hybrid.k) (hk' : 0 < adaptive.k)
    (hweights : hybrid.weights = none)
    (hprofile : adaptive.policy.profileFor (adaptive.analyze query.text) = profile) :
    (Ranks hybrid.dense query ranking → Silent hybrid.keyword query →
      (Reproduces (hybrid.retrieve query) (hybrid.dense query) ↔
        (query.topK ≤ hybrid.fetchK query.topK ∨ ranking.length ≤ hybrid.fetchK query.topK) ∧
        Reproducible hybrid.k (.ofRat 1) query.topK
          (idsOf (ranking.take (hybrid.fetchK query.topK))))) ∧
    (Silent hybrid.dense query → Ranks hybrid.keyword query ranking →
      (Reproduces (hybrid.retrieve query) (hybrid.keyword query) ↔
        (query.topK ≤ hybrid.fetchK query.topK ∨ ranking.length ≤ hybrid.fetchK query.topK) ∧
        Reproducible hybrid.k (.ofRat 1) query.topK
          (idsOf (ranking.take (hybrid.fetchK query.topK))))) ∧
    (Ranks adaptive.dense query ranking → Silent adaptive.keyword query →
      (Reproduces (adaptive.retrieve query) (adaptive.dense query) ↔
        Reproducible adaptive.k profile.semanticWeight query.topK
          (idsOf (ranking.take (query.topK * profile.fetchMultiplier))))) ∧
    (Silent adaptive.dense query → Ranks adaptive.keyword query ranking →
      (Reproduces (adaptive.retrieve query) (adaptive.keyword query) ↔
        Reproducible adaptive.k profile.keywordWeight query.topK
          (idsOf (ranking.take (query.topK * profile.fetchMultiplier))))) := by
  have hnot := not_or.mp profile.not_negative
  have hreach : query.topK ≤ query.topK * profile.fetchMultiplier :=
    Nat.le_mul_of_pos_right _ profile.one_le
  have hadaptive : ∀ {dense keyword : List (RetrievedChunk Float64)},
      Ranks adaptive.dense query dense → Ranks adaptive.keyword query keyword →
      adaptive.retrieve query = (reciprocalRankFusion
        [dense.take (query.topK * profile.fetchMultiplier),
          keyword.take (query.topK * profile.fetchMultiplier)] adaptive.k
        (some profile.weights)).map (·.take query.topK) := adaptive_eq hprofile
  refine ⟨hybrid_reproduces_iff hk hweights, ?_, ?_, ?_⟩
  · intro hdense hkeyword
    refine reproduces_iff hkeyword ⟨.ofRat 1, Or.inr ⟨rfl, rfl⟩⟩ hk (Or.inr nonneg_one) ?_
    rw [hybrid_eq hdense hkeyword, hweights, List.map_cons, List.map_cons, List.take_nil]
    rfl
  · intro hdense hkeyword
    have hresult := hadaptive hdense hkeyword
    rw [List.take_nil] at hresult
    rw [reproduces_iff hdense ⟨profile.keywordWeight, Or.inl ⟨rfl, rfl⟩⟩ hk' (nan_or_nonneg hnot.1)
      hresult, and_iff_right (Or.inl hreach)]
  · intro hdense hkeyword
    have hresult := hadaptive hdense hkeyword
    rw [List.take_nil] at hresult
    rw [reproduces_iff hkeyword ⟨profile.semanticWeight, Or.inr ⟨rfl, rfl⟩⟩ hk'
      (nan_or_nonneg hnot.2) hresult, and_iff_right (Or.inl hreach)]

end Retrievers

/-! ### A silent keyword arm -/

/-- Chunk 2 ahead of chunk 1, whose id text is the lesser. -/
def fallingRanking : List (RetrievedChunk Float64) := [floatHit 2 .semantic, floatHit 1 .semantic]

theorem silent_rankedArm {S : Type} (query : FilteredQuery) :
    Silent (rankedArm ([] : List (RetrievedChunk S))) query :=
  ranks_rankedArm [] query List.nodup_nil

/-- A hybrid retriever whose keyword arm is silent. -/
def denseHybrid : HybridRetriever Float64 :=
  { dense := rankedArm fallingRanking, keyword := rankedArm [] }

/-- An adaptive one that chooses the profile for every query. -/
def denseAdaptive (profile : RetrievalProfile Float64) : AdaptiveRetriever Float64 :=
  { dense := rankedArm fallingRanking, keyword := rankedArm [], analyze := fun _ => .technical
    policy := { profiles := [], fallback := profile } }

/-- A profile that fuses both arms alike. -/
def evenProfile : RetrievalProfile Float64 :=
  ⟨.ofRat (1 / 2), .ofRat (1 / 2), defaultFetchMultiplier, "even", by decide +kernel,
    by decide +kernel, by decide⟩

theorem one_arm_iff_sample :
    Reproduces (denseHybrid.retrieve (sampleQuery 1)) (denseHybrid.dense (sampleQuery 1)) ∧
      Reproduces ((denseAdaptive evenProfile).retrieve (sampleQuery 1))
        ((denseAdaptive evenProfile).dense (sampleQuery 1)) := by
  have hdense := ranks_rankedArm fallingRanking (sampleQuery 1) (by decide)
  have hsilent := silent_rankedArm (S := Float64) (sampleQuery 1)
  have hone : (Float64.ofRat 1).toRat? = some 1 := by decide +kernel
  have hhalf : (Float64.ofRat (1 / 2)).toRat? = some (1 / 2) := by decide +kernel
  obtain ⟨hhybrid, -, hadaptive, -⟩ := one_arm_iff denseHybrid (denseAdaptive evenProfile)
    evenProfile (by decide) (by decide) rfl rfl
  exact ⟨(hhybrid hdense hsilent).mpr
      ⟨Or.inl (by decide),
        reproducible_of_ordinary hone (by decide) (by decide) (by decide +kernel) _⟩,
    (hadaptive hdense hsilent).mpr
      (reproducible_of_ordinary hhalf (by decide) (by decide) (by decide +kernel) _)⟩

/-- All weight on the keyword arm. -/
def keywordOnly : RetrievalProfile Float64 :=
  ⟨.ofRat 0, .ofRat 1, defaultFetchMultiplier, "keyword only", by decide +kernel,
    by decide +kernel, by decide⟩

/-- Under that profile a silent keyword arm leaves the dense hits in the order of their ids. -/
theorem one_arm_fails :
    Ranks (denseAdaptive keywordOnly).dense (sampleQuery 1) fallingRanking ∧
      Silent (denseAdaptive keywordOnly).keyword (sampleQuery 1) ∧
      ¬ Reproduces ((denseAdaptive keywordOnly).retrieve (sampleQuery 1))
        ((denseAdaptive keywordOnly).dense (sampleQuery 1)) := by
  have hdense := ranks_rankedArm fallingRanking (sampleQuery 1) (by decide)
  have hsilent := silent_rankedArm (S := Float64) (sampleQuery 1)
  refine ⟨hdense, hsilent, ?_⟩
  have hresult : (denseAdaptive keywordOnly).retrieve (sampleQuery 1) =
      (reciprocalRankFusion [fallingRanking.take 3, []] rrfK
        (some [.ofRat 0, .ofRat 1])).map (·.take 1) :=
    adaptive_eq (r := denseAdaptive keywordOnly) rfl hdense hsilent
  intro hreproduces
  obtain ⟨-, -, hnan | hordered⟩ := (reproduces_iff hdense ⟨.ofRat 1, Or.inl ⟨rfl, rfl⟩⟩
    (by decide) (Or.inr Score.nonneg_zero) hresult).mp hreproduces
  · exact absurd hnan (by decide +kernel)
  · exact absurd (hordered 2 (by decide) 1 (by decide) (by decide)) (by decide +kernel)

end Retrieval
end EvidenceLab
