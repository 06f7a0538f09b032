/-
# Hybrid and adaptive retrieval

`app/retrieval/hybrid.py` and `app/retrieval/adaptive.py`, with the profiles and the
policy of `core/retrieval/adaptive.py`.  Both retrievers ask a dense and a keyword
retriever for more than they are to return, fuse the two rankings and return the best of
the fusion.  The hybrid one has a multiplier and weights of its own, and never asks for
fewer than `minFetchK`; the adaptive one takes both from the profile of the query.

What the analyzer makes of a query is a parameter: the policy reads its type only.  Scores and
weights are of any arithmetic, by default exact; a profile accepts every number its checks let
pass, over doubles an infinity and NaN among them.
-/

import EvidenceLab.Data.Json
import EvidenceLab.Retrieval.Fusion
import Mathlib.Tactic.NormNum

namespace EvidenceLab
namespace Retrieval

open Text Data EvidenceLab.Core

/-- `RetrievalQuery`, with its `filters`. -/
structure FilteredQuery extends RetrievalQuery where
  filters : List (Str × Json) := []

/-- `Retriever`. -/
abbrev Retriever (S : Type := ℚ) := FilteredQuery → Except Exc (List (RetrievedChunk S))

/-! ### Hybrid -/

/-- `DEFAULT_FETCH_MULTIPLIER`. -/
def defaultFetchMultiplier : ℕ := 3

/-- `MIN_FETCH_K`. -/
def minFetchK : ℕ := 20

/-- `HybridRetriever`. -/
structure HybridRetriever (S : Type := ℚ) where
  dense : Retriever S
  keyword : Retriever S
  k : ℤ := rrfK
  fetchMultiplier : ℕ := defaultFetchMultiplier
  weights : Option (List S) := none

variable {S : Type} [Score S]

namespace HybridRetriever

variable (r : HybridRetriever S)

/-- `_fetch_k`. -/
def fetchK (topK : ℕ) : ℕ := max (topK * r.fetchMultiplier) minFetchK

/-- `retrieve`. -/
def retrieve (query : FilteredQuery) : Except Exc (List (RetrievedChunk S)) := do
  let deep : FilteredQuery :=
    { text := query.text, projectId := query.projectId, topK := r.fetchK query.topK,
      filters := query.filters }
  let denseHits ← r.dense deep
  let keywordHits ← r.keyword deep
  let fused ← reciprocalRankFusion [denseHits, keywordHits] r.k r.weights
  return fused.take query.topK

end HybridRetriever

/-! ### Profiles -/

/-- `QueryType`. -/
inductive QueryType
  | conceptual | exactEntity | technical | numeric | multiHop | comparative | temporal | ambiguous
  deriving DecidableEq, Repr

/-- `RetrievalProfile`, with what its `__post_init__` checks. -/
structure RetrievalProfile (S : Type := ℚ) [Score S] where
  semanticWeight : S
  keywordWeight : S
  fetchMultiplier : ℕ
  reason : String
  not_negative :
    ¬ (Score.lt semanticWeight (Score.ofRat 0) ∨ Score.lt keywordWeight (Score.ofRat 0))
  carries : ¬ (Score.eq semanticWeight (Score.ofRat 0) ∧ Score.eq keywordWeight (Score.ofRat 0))
  one_le : 1 ≤ fetchMultiplier

/-- `weights`: semantic first. -/
def RetrievalProfile.weights (profile : RetrievalProfile S) : List S :=
  [profile.semanticWeight, profile.keywordWeight]

/-- What the checks say of exact weights. -/
theorem RetrievalProfile.exact (profile : RetrievalProfile) :
    (0 ≤ profile.semanticWeight ∧ 0 ≤ profile.keywordWeight) ∧
      ¬ (profile.semanticWeight = 0 ∧ profile.keywordWeight = 0) := by
  have hnot := profile.not_negative
  have hcarries := profile.carries
  rw [Score.lt_exact, Score.lt_exact, not_or, not_lt, not_lt] at hnot
  rw [Score.eq_exact, Score.eq_exact] at hcarries
  exact ⟨hnot, hcarries⟩

/-- A profile that fuses both arms alike. -/
def balanced (fetchMultiplier : ℕ) (reason : String) (h : 1 ≤ fetchMultiplier) : RetrievalProfile :=
  ⟨1 / 2, 1 / 2, fetchMultiplier, reason, by decide +kernel, by decide +kernel, h⟩

/-- `DEFAULT_PROFILES`. -/
def defaultProfiles : List (QueryType × RetrievalProfile) :=
  [(.conceptual,
      ⟨3 / 4, 1 / 4, 3, "conceptual: semantic-heavy", by decide +kernel, by decide +kernel,
        by decide⟩),
    (.exactEntity,
      ⟨1 / 4, 3 / 4, 3, "exact entity: keyword-heavy", by decide +kernel, by decide +kernel,
        by decide⟩),
    (.technical, balanced 3 "technical: balanced" (by decide)),
    (.numeric, balanced 3 "numeric: balanced" (by decide)),
    (.multiHop, balanced 5 "multi-hop: balanced, wider pool" (by decide)),
    (.comparative,
      ⟨3 / 5, 2 / 5, 5, "comparative: wider pool", by decide +kernel, by decide +kernel,
        by decide⟩),
    (.temporal, balanced 3 "temporal: balanced" (by decide)),
    (.ambiguous, balanced 5 "ambiguous: balanced, wider pool" (by decide))]

/-- `FALLBACK_PROFILE`. -/
def fallbackProfile : RetrievalProfile := balanced 3 "default: balanced" (by decide)

/-- `RuleBasedRetrievalPolicy`. -/
structure RuleBasedRetrievalPolicy (S : Type := ℚ) [Score S] where
  profiles : List (QueryType × RetrievalProfile S)
  fallback : RetrievalProfile S

/-- `RuleBasedRetrievalPolicy()`. -/
def defaultPolicy : RuleBasedRetrievalPolicy := ⟨defaultProfiles, fallbackProfile⟩

namespace RuleBasedRetrievalPolicy

variable (policy : RuleBasedRetrievalPolicy S)

/-- `profile_for`. -/
def profileFor (queryType : QueryType) : RetrievalProfile S :=
  (policy.profiles.lookup queryType).getD policy.fallback

/-- `plan`. -/
def plan (queryType : QueryType) (query : FilteredQuery) : FilteredQuery :=
  { text := query.text, projectId := query.projectId,
    topK := query.topK * (policy.profileFor queryType).fetchMultiplier, filters := query.filters }

end RuleBasedRetrievalPolicy

/-! ### Adaptive -/

/-- `AdaptiveRetriever`, with the last decision. -/
structure AdaptiveRetriever (S : Type := ℚ) [Score S] where
  dense : Retriever S
  keyword : Retriever S
  analyze : Str → QueryType
  policy : RuleBasedRetrievalPolicy S
  k : ℤ := rrfK
  lastAnalysis : Option QueryType := none
  lastProfile : Option (RetrievalProfile S) := none

namespace AdaptiveRetriever

variable (r : AdaptiveRetriever S)

/-- The decision of `retrieve`, which stays when an arm raises. -/
def decided (query : FilteredQuery) : AdaptiveRetriever S :=
  let analysis := r.analyze query.text
  { r with lastAnalysis := some analysis, lastProfile := some (r.policy.profileFor analysis) }

/-- `retrieve`. -/
def retrieve (query : FilteredQuery) : Except Exc (List (RetrievedChunk S)) := do
  let analysis := r.analyze query.text
  let profile := r.policy.profileFor analysis
  let deep := r.policy.plan analysis query
  let denseHits ← r.dense deep
  let keywordHits ← r.keyword deep
  let fused ← reciprocalRankFusion [denseHits, keywordHits] r.k (some profile.weights)
  return fused.take query.topK

end AdaptiveRetriever

end Retrieval
end EvidenceLab
