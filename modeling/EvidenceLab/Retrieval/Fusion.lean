/-
# Reciprocal rank fusion

`core/retrieval/fusion.py`.  One pass over the rankings fills three dictionaries
keyed by chunk id: the score so far, what each retriever contributed, and the hit
that is reused as the exemplar.  The ids are then sorted by descending score, ties
by the text of the id, and the fused hits are read back out of the dictionaries,
the matched terms by a rescan.

The scores may be of any arithmetic.  The sort compares by `<` alone, so an order is
only promised where all scores are numbers, or none is and all stay in place.
-/

import EvidenceLab.Core.Errors
import EvidenceLab.Core.Types
import EvidenceLab.Retrieval.Score
import Mathlib.Data.List.Lex
import Mathlib.Order.Fin.Basic

namespace EvidenceLab
namespace Retrieval

open Text Data EvidenceLab.Core

/-- `RRF_K`. -/
def rrfK : ℤ := 60

variable {S : Type} [Score S]

/-- The three dictionaries of the pass over the rankings. -/
structure FusionState (S : Type) where
  scores : Dict Uuid S := Dict.empty
  contributions : Dict Uuid (List (RetrieverContribution S)) := Dict.empty
  exemplar : Dict Uuid (RetrievedChunk S) := Dict.empty

/-- The body of the inner loop: one hit at its position in a ranking of the given
weight. -/
def FusionState.addHit (k : ℤ) (weight : S) (st : FusionState S) (hit : RetrievedChunk S)
    (position : ℕ) : FusionState S where
  scores := st.scores.alter hit.chunkId fun o =>
    Score.add (o.getD (Score.ofRat 0)) (Score.dividedBy weight (k + position + 1))
  contributions := st.contributions.alter hit.chunkId fun o =>
    o.getD [] ++ [⟨hit.retriever, position, hit.score⟩]
  exemplar := st.exemplar.setDefault hit.chunkId hit

/-- The body of the outer loop: one ranking with its weight. -/
def FusionState.addRanking (k : ℤ) (st : FusionState S) (arm : List (RetrievedChunk S) × S) :
    FusionState S :=
  arm.1.zipIdx.foldl (fun st entry => st.addHit k arm.2 entry.1 entry.2) st

/-- The sort keys `(-scores[chunk_id], str(chunk_id))` of two ids, compared. -/
def FusionState.keyLt (st : FusionState S) (a b : Uuid) : Bool :=
  let sa := (st.scores.get? a).getD (Score.ofRat 0)
  let sb := (st.scores.get? b).getD (Score.ofRat 0)
  if Score.eq sa sb then decide (a.str < b.str) else Score.lt sb sa

/-- `_first_matched_terms`. -/
def firstMatchedTerms (rankings : List (List (RetrievedChunk S))) (chunkId : Uuid) : List Str :=
  (rankings.findSome? fun ranking => ranking.findSome? fun hit =>
    if hit.chunkId = chunkId ∧ hit.matchedTerms ≠ [] then some hit.matchedTerms else none).getD []

/-- The body of the loop over the sorted ids: the fused hit of a chunk id at its
rank.  `exemplar[chunk_id]` raises for an id that was never seen. -/
def FusionState.fuse (st : FusionState S) (rankings : List (List (RetrievedChunk S))) (rank : ℕ)
    (chunkId : Uuid) : Except Exc (RetrievedChunk S) :=
  match st.exemplar.get? chunkId with
  | none => .error .crash
  | some hit =>
      let score := (st.scores.get? chunkId).getD (Score.ofRat 0)
      .ok { text := hit.text
            score
            retriever := .hybrid
            provenance := hit.provenance
            rank
            matchedTerms := firstMatchedTerms rankings chunkId
            fusionScore := some score
            contributions := (st.contributions.get? chunkId).getD []
            metadata := hit.metadata }

/-- The dictionaries after the pass. -/
def fusionState (k : ℤ) (arms : List (List (RetrievedChunk S) × S)) : FusionState S :=
  arms.foldl (FusionState.addRanking k) {}

/-- Every divisor of the pass can be converted; it raises at the first that cannot. -/
def fitting (k : ℤ) (rankings : List (List (RetrievedChunk S))) : Bool :=
  rankings.all fun ranking => ranking.zipIdx.all fun entry => Score.fits S (k + entry.2 + 1)

/-- `reciprocal_rank_fusion`. -/
def reciprocalRankFusion (rankings : List (List (RetrievedChunk S))) (k : ℤ := rrfK)
    (weights : Option (List S) := none) : Except Exc (List (RetrievedChunk S)) :=
  let weights := weights.getD (List.replicate rankings.length (Score.ofRat 1))
  if weights.length ≠ rankings.length then .error .valueError
  else if k ≤ 0 then .error .valueError
  else if ¬ fitting k rankings then .error .overflowError
  else
    let st := fusionState k (rankings.zip weights)
    let ordered := st.exemplar.keys.mergeSort fun a b => !st.keyLt b a
    ordered.zipIdx.mapM fun entry => st.fuse rankings entry.2 entry.1

end Retrieval
end EvidenceLab
