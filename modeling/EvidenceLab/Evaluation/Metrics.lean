/-
# Retrieval and citation metrics

`evaluation/metrics/retrieval.py` and `citation.py`, over an ordered field.  A
metric that is undefined for an item is `none`, never zero.  The base-two
logarithm of the discount is a parameter: its values are real numbers, and
nothing else here is.

A depth is positive by its type; `_top` raises a `ValueError` on any other.
-/

import EvidenceLab.Data.Dict
import EvidenceLab.Data.Uuid
import Mathlib.Algebra.Order.Field.Basic
import Mathlib.Data.Finset.Card
import Mathlib.Data.PNat.Defs

namespace EvidenceLab
namespace Evaluation

open Text Data

variable {K : Type} [Field K]

/-! ### Retrieval -/

/-- `_top`. -/
def top (retrieved : List Uuid) (k : ℕ+) : List Uuid := retrieved.take k

/-- `recall_at_k`: the fraction of gold chunks that appear in the top `k`. -/
def recallAtK (retrieved : List Uuid) (gold : Finset Uuid) (k : ℕ+) : Option K :=
  if gold = ∅ then none else some ((((top retrieved k).toFinset ∩ gold).card : K) / gold.card)

/-- `precision_at_k`: the fraction of the top `k` that is gold. -/
def precisionAtK (retrieved : List Uuid) (gold : Finset Uuid) (k : ℕ+) : Option K :=
  if gold = ∅ then none
  else if top retrieved k = [] then some 0
  else some ((((top retrieved k).toFinset ∩ gold).card : K) / (top retrieved k).length)

/-- `hit_rate_at_k`. -/
def hitRateAtK (retrieved : List Uuid) (gold : Finset Uuid) (k : ℕ+) : Option K :=
  if gold = ∅ then none else some (if (top retrieved k).toFinset ∩ gold = ∅ then 0 else 1)

/-- `reciprocal_rank`: one over the rank of the first gold chunk. -/
def reciprocalRank (retrieved : List Uuid) (gold : Finset Uuid) : Option K :=
  if gold = ∅ then none
  else match retrieved.zipIdx.find? fun entry => entry.1 ∈ gold with
    | some entry => some (1 / (entry.2 + 1 : ℕ))
    | none => some 0

/-- `dcg_at_k`: discounted cumulative gain with binary relevance. -/
def dcgAtK (log2 : ℕ → K) (retrieved : List Uuid) (gold : Finset Uuid) (k : ℕ+) : K :=
  (((top retrieved k).zipIdx.filter fun entry => entry.1 ∈ gold).map fun entry =>
    1 / log2 (entry.2 + 1 + 1)).sum

/-- The gain of the best possible ranking with that many hits. -/
def idealDcg (log2 : ℕ → K) (hits : ℕ) : K :=
  ((List.range hits).map fun i => 1 / log2 (i + 1 + 1)).sum

/-- `ndcg_at_k`. -/
def ndcgAtK [DecidableEq K] (log2 : ℕ → K) (retrieved : List Uuid) (gold : Finset Uuid)
    (k : ℕ+) : Option K :=
  if gold = ∅ then none
  else
    let ideal := idealDcg log2 (min gold.card k)
    if ideal = 0 then none else some (dcgAtK log2 retrieved gold k / ideal)

/-- `mean`: the average of the entries that are defined. -/
def mean (values : List (Option K)) : Option K :=
  let defined := values.filterMap id
  if defined = [] then none else some (defined.sum / defined.length)

/-- `defined_count`. -/
def definedCount (values : List (Option K)) : ℕ := (values.filterMap id).length

/-! ### Citations -/

/-- `ClaimCitations`: one claim's citations, as produced by the generator. -/
structure ClaimCitations where
  text : Str
  cited : List Uuid

/-- `citation_precision`: the fraction of cited chunks that are gold. -/
def citationPrecision (cited gold : Finset Uuid) : Option K :=
  if gold = ∅ then none
  else if cited = ∅ then none
  else some (((cited ∩ gold).card : K) / cited.card)

/-- `citation_recall`: the fraction of gold chunks the answer cited. -/
def citationRecall (cited gold : Finset Uuid) : Option K :=
  if gold = ∅ then none else some (((cited ∩ gold).card : K) / gold.card)

/-- `evidence_coverage`: the fraction of the retrieved evidence the answer used. -/
def evidenceCoverage (cited : Finset Uuid) (retrieved : List Uuid) : Option K :=
  if retrieved = [] then none
  else some (((cited ∩ retrieved.toFinset).card : K) / retrieved.toFinset.card)

/-- `unsupported_claim_rate`: the fraction of claims that cite nothing at all. -/
def unsupportedClaimRate (claims : List ClaimCitations) : Option K :=
  if claims = [] then none
  else some (((claims.filter fun claim => claim.cited.isEmpty).length : K) / claims.length)

/-- `citation_validity`: the fraction of citations that point at something retrieved. -/
def citationValidity (claims : List ClaimCitations) (retrieved : List Uuid) : Option K :=
  let citations := claims.flatMap (·.cited)
  if citations.length = 0 then none
  else some (((citations.filter fun id => id ∈ retrieved).length : K) / citations.length)

end Evaluation
end EvidenceLab
