/-
# Pipeline value objects

`core/types.py`: what a retriever returns and what fusion adds to it.  Scores are
exact rationals, unless another type is given for them.
-/

import EvidenceLab.Data.Dict
import EvidenceLab.Data.Uuid
import Mathlib.Algebra.Order.Field.Rat

namespace EvidenceLab
namespace Core

open Text Data

/-- `RetrieverKind`. -/
inductive RetrieverKind
  | semantic | keyword | hybrid
  deriving DecidableEq, Repr

/-- `Provenance`: where a piece of text came from. -/
structure Provenance where
  documentId : Uuid
  chunkId : Uuid
  page : Option ℕ := none
  charStart : Option ℕ := none
  charEnd : Option ℕ := none
  «section» : Option Str := none
  deriving DecidableEq

/-- `RetrieverContribution`: what one retriever contributed to a fused result. -/
structure RetrieverContribution (S : Type := ℚ) where
  retriever : RetrieverKind
  rank : ℕ
  score : S
  deriving DecidableEq

/-- `RetrievedChunk`: a retrieval hit. -/
structure RetrievedChunk (S : Type := ℚ) where
  text : Str
  score : S
  retriever : RetrieverKind
  provenance : Provenance
  rank : ℕ
  rerankScore : Option S := none
  matchedTerms : List Str := []
  fusionScore : Option S := none
  contributions : List (RetrieverContribution S) := []
  metadata : Dict String (Option Str) := Dict.empty

section RetrievedChunk

variable {S : Type}

/-- `hit.provenance.chunk_id`. -/
def RetrievedChunk.chunkId (hit : RetrievedChunk S) : Uuid := hit.provenance.chunkId

/-- `RetrievedChunk.contribution`: the contribution of the named retriever. -/
def RetrievedChunk.contribution (hit : RetrievedChunk S) (retriever : RetrieverKind) :
    Option (RetrieverContribution S) :=
  hit.contributions.find? (·.retriever = retriever)

end RetrievedChunk

/-- `RetrievalQuery` of `core/retrieval/base.py`. -/
structure RetrievalQuery where
  text : Str
  projectId : Uuid
  topK : ℕ

/-- `Principal` of `app/core/security.py`: the authenticated caller. -/
structure Principal where
  userId : Uuid
  organizationId : Uuid
  deriving DecidableEq

end Core
end EvidenceLab
