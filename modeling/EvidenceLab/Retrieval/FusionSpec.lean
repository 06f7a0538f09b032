/-
# Reciprocal rank fusion meets its specification

What fusion is for is said by `IsFusion`, with no dictionary in it: the ids of
the union of the rankings, each once, with the sum of `weight / (k + rank)` over
the rankings that hold it, sorted, numbered, and with what each ranking
contributed.

The pass over the rankings is a fold over the hits in the order they are seen
(`sightings`); each dictionary is one loop of `Dict.alter`, and what it holds at
an id is a fold over the sightings of that id.  In rankings free of duplicates
these are one for each ranking that holds the id (`turnsOf_eq`).

So far no law of arithmetic is used, and `Fuses` says what a fusion is in any one: its
scores are added up in the order of the rankings, and it is sorted if all scores are
numbers.  Over the rationals that is `IsFusion`.
-/

import EvidenceLab.Retrieval.Fusion

namespace EvidenceLab
namespace Retrieval

open Text Data EvidenceLab.Core

variable {S : Type} [Score S]

/-! ### What fusion is for -/

/-- The ids of a ranking. -/
def idsOf (ranking : List (RetrievedChunk S)) : List Uuid := ranking.map (·.chunkId)

/-- The hit of a chunk in a ranking, with its position. -/
def found (id : Uuid) (ranking : List (RetrievedChunk S)) : Option (RetrievedChunk S × ℕ) :=
  ranking.zipIdx.find? fun entry => entry.1.chunkId = id

/-- The sum over the rankings that hold a chunk of `weight / (k + position + 1)`. -/
def rrfScore (k : ℤ) (arms : List (List RetrievedChunk × ℚ)) (id : Uuid) : ℚ :=
  (arms.filterMap fun arm => (found id arm.1).map fun entry => arm.2 / ((k : ℚ) + entry.2 + 1)).sum

/-- What the fusion of rankings with weights is. -/
structure IsFusion (k : ℤ) (rankings : List (List RetrievedChunk)) (weights : List ℚ)
    (fused : List RetrievedChunk) : Prop where
  nodup : (fused.map (·.chunkId)).Nodup
  mem_iff : ∀ id, id ∈ fused.map (·.chunkId) ↔ ∃ r ∈ rankings, id ∈ r.map (·.chunkId)
  score : ∀ hit ∈ fused, hit.score = rrfScore k (rankings.zip weights) hit.chunkId ∧
    hit.fusionScore = some hit.score
  sorted : fused.Pairwise fun a b => Before (a.chunkId, a.score) (b.chunkId, b.score)
  ranks : fused.map (·.rank) = List.range fused.length
  contributions : ∀ hit ∈ fused, hit.contributions = rankings.filterMap fun r =>
    (found hit.chunkId r).map fun entry => ⟨entry.1.retriever, entry.2, entry.1.score⟩
  matchedTerms : ∀ hit ∈ fused, hit.matchedTerms =
    (((rankings.flatten.filter (·.chunkId = hit.chunkId)).map (·.matchedTerms)).find?
      (· ≠ [])).getD []

/-- What the rankings that hold a chunk give it, added up in their order. -/
def totalScore (k : ℤ) (arms : List (List (RetrievedChunk S) × S)) (id : Uuid) : S :=
  Score.total (arms.filterMap fun arm =>
    (found id arm.1).map fun entry => Score.share k arm.2 entry.2)

/-- What it is in any arithmetic. -/
structure Fuses (k : ℤ) (rankings : List (List (RetrievedChunk S))) (weights : List S)
    (fused : List (RetrievedChunk S)) : Prop where
  nodup : (idsOf fused).Nodup
  mem_iff : ∀ id, id ∈ idsOf fused ↔ ∃ r ∈ rankings, id ∈ idsOf r
  score : ∀ hit ∈ fused, hit.score = totalScore k (rankings.zip weights) hit.chunkId ∧
    hit.fusionScore = some hit.score
  /-- Numbers are sorted. -/
  sorted : (∀ hit ∈ fused, (Score.value hit.score).isSome) → fused.Pairwise fun a b =>
    Before (a.chunkId, Score.num a.score) (b.chunkId, Score.num b.score)
  /-- Where there is no number, nothing is moved. -/
  kept : (∀ hit ∈ fused, Score.value hit.score = none) → (idsOf rankings.flatten).Nodup →
    idsOf fused = idsOf rankings.flatten
  ranks : fused.map (·.rank) = List.range fused.length
  contributions : ∀ hit ∈ fused, hit.contributions = rankings.filterMap fun r =>
    (found hit.chunkId r).map fun entry => ⟨entry.1.retriever, entry.2, entry.1.score⟩
  matchedTerms : ∀ hit ∈ fused, hit.matchedTerms =
    (((rankings.flatten.filter (·.chunkId = hit.chunkId)).map (·.matchedTerms)).find?
      (· ≠ [])).getD []

/-! ### The pass over the rankings -/

/-- A hit at its position in a ranking, with the ranking's weight. -/
structure Sighting (S : Type) where
  hit : RetrievedChunk S
  position : ℕ
  weight : S

/-- The hits of one ranking. -/
def sightingsIn (arm : List (RetrievedChunk S) × S) : List (Sighting S) :=
  arm.1.zipIdx.map fun entry => ⟨entry.1, entry.2, arm.2⟩

/-- The hits in the order in which the pass sees them. -/
def sightings (arms : List (List (RetrievedChunk S) × S)) : List (Sighting S) :=
  arms.flatMap sightingsIn

/-- What a sighting adds to the score. -/
def Sighting.term (k : ℤ) (s : Sighting S) : S := Score.share k s.weight s.position

/-- What a sighting adds to the contributions. -/
def Sighting.contribution (s : Sighting S) : RetrieverContribution S :=
  ⟨s.hit.retriever, s.position, s.hit.score⟩

theorem fusionState_eq (k : ℤ) (arms : List (List (RetrievedChunk S) × S)) :
    fusionState k arms =
      (sightings arms).foldl (fun st s => st.addHit k s.weight s.hit s.position) {} := by
  rw [fusionState, sightings, List.foldl_flatMap]
  congr 1
  funext st arm
  rw [FusionState.addRanking, sightingsIn, List.foldl_map]

variable {k : ℤ} {arms : List (List (RetrievedChunk S) × S)}

theorem scores_fusionState : (fusionState k arms).scores = (sightings arms).foldl
    (fun d s => d.alter s.hit.chunkId fun o => Score.add (o.getD (Score.ofRat 0)) (s.term k))
    Dict.empty := by
  rw [fusionState_eq]
  exact (List.foldl_hom FusionState.scores fun _ _ => rfl).symm

theorem contributions_fusionState : (fusionState k arms).contributions = (sightings arms).foldl
    (fun d s => d.alter s.hit.chunkId fun o => o.getD [] ++ [s.contribution]) Dict.empty := by
  rw [fusionState_eq]
  exact (List.foldl_hom FusionState.contributions fun _ _ => rfl).symm

theorem exemplar_fusionState : (fusionState k arms).exemplar = (sightings arms).foldl
    (fun d s => d.alter s.hit.chunkId fun o => o.getD s.hit) Dict.empty := by
  rw [fusionState_eq]
  exact (List.foldl_hom FusionState.exemplar fun _ _ => rfl).symm

/-- The sightings of one chunk. -/
def turnsOf (arms : List (List (RetrievedChunk S) × S)) (id : Uuid) : List (Sighting S) :=
  Dict.turns (fun s : Sighting S => s.hit.chunkId) (sightings arms) id

/-- What the pass adds up for a chunk. -/
def passScore (k : ℤ) (arms : List (List (RetrievedChunk S) × S)) (id : Uuid) : S :=
  Score.total ((turnsOf arms id).map (·.term k))

/-- **The score of a chunk** is the sum over its sightings. -/
theorem score_fusionState (id : Uuid) :
    ((fusionState k arms).scores.get? id).getD (Score.ofRat 0) = passScore k arms id := by
  rw [scores_fusionState, Dict.get?_foldl_alter (fun s : Sighting S => s.hit.chunkId)
    (fun o s => Score.add (o.getD (Score.ofRat 0)) (s.term k)), Dict.get?_empty,
    Dict.getD_foldl (fun score s => Score.add score (Sighting.term k s)), passScore, Score.total,
    List.foldl_map]
  rfl

/-- The contributions to a chunk are those of its sightings. -/
theorem contribution_fusionState (id : Uuid) :
    ((fusionState k arms).contributions.get? id).getD [] =
      (turnsOf arms id).map Sighting.contribution := by
  rw [contributions_fusionState, Dict.get?_foldl_alter (fun s : Sighting S => s.hit.chunkId)
    (fun o s => o.getD [] ++ [s.contribution]), Dict.get?_empty]
  rcases eq_or_ne (turnsOf arms id) [] with h | h
  · rw [h, ← turnsOf, h]
    rfl
  · have := Dict.foldl_append ((turnsOf arms id).map Sighting.contribution) none (by simpa using h)
    rw [List.foldl_map] at this
    rw [← turnsOf, this, Option.getD_some, Option.getD_none, List.nil_append]

/-- The exemplar of a chunk is its first sighting. -/
theorem get?_exemplar (id : Uuid) :
    (fusionState k arms).exemplar.get? id = ((turnsOf arms id).map (·.hit)).head? := by
  have := Dict.foldl_setDefault ((turnsOf arms id).map (·.hit)) none
  rw [List.foldl_map, Option.none_or] at this
  rw [exemplar_fusionState, Dict.get?_foldl_alter (fun s : Sighting S => s.hit.chunkId)
    (fun o s => o.getD s.hit), Dict.get?_empty, ← this, turnsOf]

theorem mem_keys_exemplar {id : Uuid} :
    id ∈ (fusionState k arms).exemplar.keys ↔ ∃ arm ∈ arms, id ∈ idsOf arm.1 := by
  rw [exemplar_fusionState, Dict.mem_keys_foldl_alter (fun s : Sighting S => s.hit.chunkId)
    (fun o s => o.getD s.hit), Dict.keys_empty]
  simp only [sightings, sightingsIn, idsOf, List.not_mem_nil, false_or, List.mem_map,
    List.mem_flatMap]
  constructor
  · rintro ⟨s, ⟨arm, harm, entry, hentry, rfl⟩, rfl⟩
    exact ⟨arm, harm, entry.1, List.fst_mem_of_mem_zipIdx hentry, rfl⟩
  · rintro ⟨arm, harm, hit, hhit, rfl⟩
    obtain ⟨i, hi⟩ := List.mem_iff_getElem?.mp hhit
    exact ⟨⟨hit, i, arm.2⟩, ⟨arm, harm, (hit, i), List.mk_mem_zipIdx_iff_getElem?.mpr hi, rfl⟩, rfl⟩

omit [Score S] in
/-- The ids in the order in which the pass sees them. -/
theorem ids_sightings (arms : List (List (RetrievedChunk S) × S)) :
    (sightings arms).map (·.hit.chunkId) = idsOf (arms.map (·.1)).flatten := by
  induction arms with
  | nil => rfl
  | cons arm arms ih =>
      have hfirst : (sightingsIn arm).map (·.hit.chunkId) = idsOf arm.1 := by
        conv_rhs => rw [← List.zipIdx_map_fst 0 arm.1, idsOf, List.map_map]
        rw [sightingsIn, List.map_map]
        rfl
      rw [sightings, List.flatMap_cons, List.map_append, hfirst, ← sightings, ih, List.map_cons,
        List.flatten_cons, idsOf, idsOf, idsOf, List.map_append]

/-- Ids that are all distinct are remembered in that order. -/
theorem keys_exemplar (h : (idsOf (arms.map (·.1)).flatten).Nodup) :
    (fusionState k arms).exemplar.keys = idsOf (arms.map (·.1)).flatten := by
  rw [← ids_sightings] at h ⊢
  rw [exemplar_fusionState]
  exact Dict.keys_foldl_alter (d := Dict.empty) (fun s : Sighting S => s.hit.chunkId)
    (fun o s => o.getD s.hit) h

/-! ### Rankings free of duplicates -/

/-- Where keys are distinct, filtering by a key finds at most one element. -/
theorem filter_eq_toList_find? {α κ : Type*} [DecidableEq κ] (key : α → κ) {xs : List α}
    (h : (xs.map key).Nodup) (k₀ : κ) :
    xs.filter (fun x => key x = k₀) = (xs.find? fun x => key x = k₀).toList := by
  induction xs with
  | nil => rfl
  | cons x xs ih =>
      rw [List.map_cons, List.nodup_cons] at h
      rw [List.filter_cons, List.find?_cons]
      by_cases hx : key x = k₀
      · have : xs.filter (fun y => key y = k₀) = [] := by
          refine List.filter_eq_nil_iff.mpr fun y hy hk => h.1 ?_
          rw [hx, ← of_decide_eq_true hk]
          exact List.mem_map_of_mem hy
        simp [hx, this]
      · simp [hx, ih h.2]

omit [Score S] in
theorem filter_sightingsIn {arm : List (RetrievedChunk S) × S}
    (h : (arm.1.map (·.chunkId)).Nodup) (id : Uuid) :
    (sightingsIn arm).filter (fun s => s.hit.chunkId = id) =
      ((found id arm.1).map fun entry => (⟨entry.1, entry.2, arm.2⟩ : Sighting S)).toList := by
  have hnd : (arm.1.zipIdx.map fun e => e.1.chunkId).Nodup := by
    rwa [← List.zipIdx_map_fst 0 arm.1, List.map_map] at h
  have hfilter := filter_eq_toList_find? (fun e : RetrievedChunk S × ℕ => e.1.chunkId) hnd id
  rw [sightingsIn, List.filter_map]
  show (arm.1.zipIdx.filter fun e => decide (e.1.chunkId = id)).map _ = _
  rw [hfilter, found]
  cases arm.1.zipIdx.find? fun e => decide (e.1.chunkId = id) <;> rfl

omit [Score S] in
/-- **One sighting for each ranking that holds the chunk.** -/
theorem turnsOf_eq (h : ∀ arm ∈ arms, (arm.1.map (·.chunkId)).Nodup) (id : Uuid) :
    turnsOf arms id = arms.filterMap fun arm =>
      (found id arm.1).map fun entry => ⟨entry.1, entry.2, arm.2⟩ := by
  rw [turnsOf, Dict.turns, sightings, List.filter_flatMap, List.filterMap_eq_flatMap_toList]
  exact List.flatMap_congr fun arm harm => filter_sightingsIn (h arm harm) id

/-! ### The order of the output -/

/-- What the loop over the sorted ids makes of an id it knows. -/
def fusedHit (k : ℤ) (rankings : List (List (RetrievedChunk S)))
    (arms : List (List (RetrievedChunk S) × S)) (exemplar : RetrievedChunk S) (id : Uuid)
    (rank : ℕ) : RetrievedChunk S where
  text := exemplar.text
  score := passScore k arms id
  retriever := .hybrid
  provenance := exemplar.provenance
  rank := rank
  matchedTerms := firstMatchedTerms rankings id
  fusionScore := some (passScore k arms id)
  contributions := (turnsOf arms id).map Sighting.contribution
  metadata := exemplar.metadata

/-- **An id that was seen is fused**: its exemplar is a hit of that very chunk. -/
theorem fuse_eq {id : Uuid} (h : id ∈ (fusionState k arms).exemplar.keys)
    (rankings : List (List (RetrievedChunk S))) :
    ∃ exemplar : RetrievedChunk S, exemplar.chunkId = id ∧ ∀ rank,
      (fusionState k arms).fuse rankings rank id =
        .ok (fusedHit k rankings arms exemplar id rank) := by
  have hne : turnsOf arms id ≠ [] := by
    rw [exemplar_fusionState, Dict.mem_keys_foldl_alter (fun s : Sighting S => s.hit.chunkId)
      (fun o s => o.getD s.hit), Dict.keys_empty] at h
    obtain ⟨s, hs, hid⟩ := List.mem_map.mp (h.resolve_left List.not_mem_nil)
    exact List.ne_nil_of_mem (List.mem_filter.mpr ⟨hs, decide_eq_true hid⟩)
  obtain ⟨s, rest, hcons⟩ := List.exists_cons_of_ne_nil hne
  refine ⟨s.hit, ?_, ?_⟩
  · have hs : s ∈ turnsOf arms id := hcons ▸ List.mem_cons_self ..
    exact of_decide_eq_true (List.mem_filter.mp hs).2
  · intro rank
    have hexemplar : (fusionState k arms).exemplar.get? id =
        ((turnsOf arms id).map (·.hit)).head? := get?_exemplar id
    rw [hcons, List.map_cons, List.head?_cons] at hexemplar
    rw [FusionState.fuse, hexemplar]
    simp only [score_fusionState, contribution_fusionState, fusedHit]

/-- The ids of the pass in the order of the output. -/
def ordered (k : ℤ) (arms : List (List (RetrievedChunk S) × S)) : List Uuid :=
  (fusionState k arms).exemplar.keys.mergeSort fun a b => !(fusionState k arms).keyLt b a

/-- Numbers are compared by their values. -/
theorem keyLt_iff {a b : Uuid} (ha : (Score.value (passScore k arms a)).isSome)
    (hb : (Score.value (passScore k arms b)).isSome) :
    (fusionState k arms).keyLt a b = true ↔
      Before (a, Score.num (passScore k arms a)) (b, Score.num (passScore k arms b)) := by
  obtain ⟨va, hva⟩ := Option.isSome_iff_exists.mp ha
  obtain ⟨vb, hvb⟩ := Option.isSome_iff_exists.mp hb
  simp only [FusionState.keyLt, score_fusionState, Score.eq, Score.lt, Score.num, Before, hva, hvb,
    Option.getD_some, decide_eq_true_eq]
  by_cases heq : va = vb
  · simp [heq]
  · simp [heq]

/-- **The sorted ids are strictly sorted** where their scores are numbers: no two ids share a
text. -/
theorem pairwise_ordered
    (h : ∀ id ∈ ordered k arms, (Score.value (passScore k arms id)).isSome) :
    (ordered k arms).Pairwise fun a b =>
      Before (a, Score.num (passScore k arms a)) (b, Score.num (passScore k arms b)) := by
  -- Any two ids can be compared if the rest are given some number.
  let le : Uuid → Uuid → Bool := fun a b =>
    !decide (Before (b, Score.num (passScore k arms b)) (a, Score.num (passScore k arms a)))
  have hkey : ∀ id ∈ (fusionState k arms).exemplar.keys,
      (Score.value (passScore k arms id)).isSome := fun id hid =>
    h id ((List.mergeSort_perm _ _).mem_iff.mpr hid)
  have hsame : ordered k arms = (fusionState k arms).exemplar.keys.mergeSort le := by
    have hmap := @List.map_mergeSort _ _ (fun a b => !(fusionState k arms).keyLt b a) le id
      (fusionState k arms).exemplar.keys fun a ha b hb => by
        refine congrArg Bool.not (Bool.eq_iff_iff.mpr ?_)
        rw [keyLt_iff (hkey b hb) (hkey a ha), decide_eq_true_iff]
        rfl
    rwa [List.map_id, List.map_id] at hmap
  have hle : ∀ {a b}, le a b = true ↔
      ¬ Before (b, Score.num (passScore k arms b)) (a, Score.num (passScore k arms a)) := by
    intro a b
    rw [Bool.not_eq_true', decide_eq_false_iff_not]
  have hsorted := @List.pairwise_mergeSort _ le (fun a b c hab hbc => ?_) (fun a b => ?_)
    (fusionState k arms).exemplar.keys
  · rw [hsame]
    have hnodup : ((fusionState k arms).exemplar.keys.mergeSort le).Nodup :=
      (List.mergeSort_perm _ _).nodup_iff.mpr (Dict.nodup_keys _)
    exact (hsorted.and hnodup).imp fun ⟨hab, hne⟩ =>
      (before_or_before hne).resolve_right (hle.mp hab)
  · rw [hle] at *
    exact not_before_trans hab hbc
  · rw [Bool.or_eq_true, hle, hle]
    exact not_before_total _ _

omit [Score S] in
/-- The rescan finds the first matched terms of the chunk that are not empty. -/
theorem firstMatchedTerms_eq (rankings : List (List (RetrievedChunk S))) (id : Uuid) :
    firstMatchedTerms rankings id =
      (((rankings.flatten.filter (·.chunkId = id)).map (·.matchedTerms)).find?
        (· ≠ [])).getD [] := by
  have hinner : ∀ ranking : List (RetrievedChunk S),
      (ranking.findSome? fun hit =>
        if hit.chunkId = id ∧ hit.matchedTerms ≠ [] then some hit.matchedTerms else none) =
      ((ranking.filter (·.chunkId = id)).map (·.matchedTerms)).find? (· ≠ []) := by
    intro ranking
    induction ranking with
    | nil => rfl
    | cons hit ranking ih =>
        rw [List.findSome?_cons, List.filter_cons, ih]
        by_cases hid : hit.chunkId = id
        · by_cases hm : hit.matchedTerms = [] <;> simp [hid, hm]
        · simp [hid]
  rw [firstMatchedTerms]
  congr 1
  induction rankings with
  | nil => rfl
  | cons ranking rankings ih =>
      rw [List.findSome?_cons, hinner, ih, List.flatten_cons, List.filter_append, List.map_append,
        List.find?_append]
      cases ((ranking.filter (·.chunkId = id)).map (·.matchedTerms)).find? (· ≠ []) <;> rfl

/-! ### The specification -/

theorem mem_ordered {id : Uuid} : id ∈ ordered k arms ↔ ∃ arm ∈ arms, id ∈ idsOf arm.1 :=
  (List.mergeSort_perm _ _).mem_iff.trans mem_keys_exemplar

/-- Where there is no number to compare, the ids stay in the order of the pass. -/
theorem ordered_of_none (h : ∀ id ∈ ordered k arms, Score.value (passScore k arms id) = none) :
    ordered k arms = (fusionState k arms).exemplar.keys := by
  refine List.mergeSort_of_pairwise (List.pairwise_of_forall_mem_list ?_)
  intro a ha b hb
  have hnone : ∀ id ∈ (fusionState k arms).exemplar.keys,
      Score.value (passScore k arms id) = none := fun id hid =>
    h id ((List.mergeSort_perm _ _).mem_iff.mpr hid)
  simp only [FusionState.keyLt, score_fusionState, Score.eq, Score.lt, hnone a ha, hnone b hb]
  rfl

section Spec

variable {rankings : List (List (RetrievedChunk S))} {weights : List S}

/-- **The fusion is the sorted ids, each fused at its index.** -/
theorem reciprocalRankFusion_eq (hk : 0 < k) (hw : weights.length = rankings.length)
    (hfits : fitting k rankings = true) :
    ∃ g : Uuid → RetrievedChunk S,
      (∀ id ∈ ordered k (rankings.zip weights), (g id).chunkId = id) ∧
      reciprocalRankFusion rankings k (some weights) =
        .ok ((ordered k (rankings.zip weights)).zipIdx.map fun e =>
          fusedHit k rankings (rankings.zip weights) (g e.1) e.1 e.2) := by
  have hne : Nonempty (RetrievedChunk S) :=
    ⟨[], Score.ofRat 0, .hybrid, ⟨0, 0, none, none, none, none⟩, 0, none, [], none, [], Dict.empty⟩
  have hex : ∀ id ∈ ordered k (rankings.zip weights), ∃ exemplar : RetrievedChunk S,
      exemplar.chunkId = id ∧ ∀ rank, (fusionState k (rankings.zip weights)).fuse rankings rank id =
        .ok (fusedHit k rankings (rankings.zip weights) exemplar id rank) :=
    fun id hid => fuse_eq ((List.mergeSort_perm _ _).mem_iff.mp hid) rankings
  choose! g hg using hex
  refine ⟨g, fun id hid => (hg id hid).1, ?_⟩
  simp only [reciprocalRankFusion, Option.getD_some]
  rw [if_neg (not_not.mpr hw), if_neg (not_le.mpr hk), if_neg (not_not.mpr hfits)]
  exact mapM_eq_ok fun e he => (hg e.1 (List.fst_mem_of_mem_zipIdx he)).2 e.2

/-- A divisor that is too large is not survived. -/
theorem reciprocalRankFusion_eq_overflow (hk : 0 < k) (hw : weights.length = rankings.length)
    (hfits : ¬ fitting k rankings = true) :
    reciprocalRankFusion rankings k (some weights) = .error .overflowError := by
  simp only [reciprocalRankFusion, Option.getD_some]
  rw [if_neg (not_not.mpr hw), if_neg (not_le.mpr hk), if_pos hfits]

/-- What the pass adds up is what the rankings give. -/
theorem passScore_eq (h : ∀ arm ∈ arms, (idsOf arm.1).Nodup) (id : Uuid) :
    passScore k arms id = totalScore k arms id := by
  rw [passScore, turnsOf_eq h, List.map_filterMap, totalScore]
  congr 2
  funext arm
  rw [Option.map_map]
  rfl

theorem fitting_iff : fitting k rankings = true ↔
    ∀ r ∈ rankings, ∀ position < r.length, Score.fits S (k + position + 1) = true := by
  rw [fitting, List.all_eq_true]
  refine forall₂_congr fun r _ => ?_
  rw [List.all_eq_true]
  constructor
  · intro h position hlt
    exact h (r[position], position)
      (List.mk_mem_zipIdx_iff_getElem?.mpr (List.getElem?_eq_getElem hlt))
  · intro h entry hentry
    obtain ⟨-, hlt, -⟩ := List.mem_zipIdx hentry
    exact h entry.2 (by omega)

/-- **Fusion in any arithmetic.** -/
theorem fuses_reciprocalRankFusion (hdup : ∀ r ∈ rankings, (idsOf r).Nodup)
    (hk : 0 < k) (hw : weights.length = rankings.length) (hfits : fitting k rankings = true) :
    ∃ fused, reciprocalRankFusion rankings k (some weights) = .ok fused ∧
      Fuses k rankings weights fused := by
  obtain ⟨g, hg, hok⟩ := reciprocalRankFusion_eq (k := k) hk hw hfits
  refine ⟨_, hok, ?_⟩
  set arms := rankings.zip weights with harms
  set ids := ordered k arms with hids
  have hfst : arms.map Prod.fst = rankings := List.map_fst_zip hw.ge
  have harm : ∀ arm ∈ arms, (idsOf arm.1).Nodup := fun arm h =>
    hdup _ (hfst ▸ List.mem_map_of_mem h)
  -- The id of a fused hit is the id it was fused for.
  have hid : ∀ e ∈ ids.zipIdx, (fusedHit k rankings arms (g e.1) e.1 e.2).chunkId = e.1 :=
    fun e he => hg e.1 (List.fst_mem_of_mem_zipIdx he)
  have hmap : idsOf (ids.zipIdx.map fun e => fusedHit k rankings arms (g e.1) e.1 e.2) = ids := by
    rw [idsOf, List.map_map]
    exact (List.map_congr_left hid).trans (List.zipIdx_map_fst 0 ids)
  have hmem : ∀ hit ∈ ids.zipIdx.map fun e => fusedHit k rankings arms (g e.1) e.1 e.2,
      ∃ e ∈ ids.zipIdx, hit.chunkId = e.1 ∧ hit = fusedHit k rankings arms (g e.1) e.1 e.2 := by
    intro hit hhit
    obtain ⟨e, he, rfl⟩ := List.mem_map.mp hhit
    exact ⟨e, he, hid e he, rfl⟩
  have hall : ∀ {P : S → Prop},
      (∀ hit ∈ ids.zipIdx.map fun e => fusedHit k rankings arms (g e.1) e.1 e.2, P hit.score) →
        ∀ id ∈ ids, P (passScore k arms id) := by
    intro P h id hmemId
    obtain ⟨i, hi⟩ := List.mem_iff_getElem?.mp hmemId
    exact h _ (List.mem_map_of_mem (List.mk_mem_zipIdx_iff_getElem?.mpr hi))
  refine ⟨?_, fun id => ?_, fun hit hhit => ?_, fun hnumbers => ?_, fun hnone hdistinct => ?_, ?_,
    fun hit hhit => ?_, fun hit hhit => ?_⟩
  · rw [hmap]
    exact (List.mergeSort_perm _ _).nodup_iff.mpr (Dict.nodup_keys _)
  · rw [hmap, hids, mem_ordered, ← hfst]
    simp only [List.mem_map, exists_exists_and_eq_and]
  · obtain ⟨e, -, he, rfl⟩ := hmem hit hhit
    rw [he]
    exact ⟨passScore_eq harm e.1, rfl⟩
  · have hpair : ids.zipIdx.Pairwise fun a b =>
        Before (a.1, Score.num (passScore k arms a.1)) (b.1, Score.num (passScore k arms b.1)) := by
      have := pairwise_ordered (@hall (fun s => (Score.value s).isSome) hnumbers)
      rwa [← hids, ← List.zipIdx_map_fst 0 ids, List.pairwise_map] at this
    refine List.pairwise_map.mpr (hpair.imp_of_mem fun ha hb h => ?_)
    rw [hid _ ha, hid _ hb]
    exact h
  · rw [hmap, hids, ordered_of_none (@hall (fun s => Score.value s = none) hnone), keys_exemplar]
    · rw [hfst]
    · rwa [hfst]
  · rw [List.map_map, List.length_map, List.length_zipIdx]
    exact (List.zipIdx_map_snd 0 ids).trans List.range_eq_range'.symm
  · obtain ⟨e, -, he, rfl⟩ := hmem hit hhit
    rw [he, ← hfst, List.filterMap_map]
    show (turnsOf arms e.1).map Sighting.contribution = _
    rw [turnsOf_eq harm, List.map_filterMap]
    congr 1
    funext arm
    exact Option.map_map ..
  · obtain ⟨e, -, he, rfl⟩ := hmem hit hhit
    rw [he]
    exact firstMatchedTerms_eq rankings e.1

end Spec

/-! ### Exact scores -/

section Exact

variable {rankings : List (List RetrievedChunk)} {weights : List ℚ}
  {arms : List (List RetrievedChunk × ℚ)}

theorem fitting_exact (k : ℤ) (rankings : List (List RetrievedChunk)) :
    fitting k rankings = true :=
  List.all_eq_true.mpr fun _ _ => List.all_eq_true.mpr fun _ _ => rfl

theorem totalScore_exact (id : Uuid) : totalScore k arms id = rrfScore k arms id := by
  rw [totalScore, Score.total_exact, rrfScore]
  simp only [Score.share_exact]

/-- Over the rationals a fusion is what fusion is for. -/
theorem Fuses.isFusion {fused : List RetrievedChunk} (h : Fuses k rankings weights fused) :
    IsFusion k rankings weights fused := by
  refine ⟨h.nodup, h.mem_iff, fun hit hhit => ?_, (h.sorted fun _ _ => rfl).imp before_num.mp,
    h.ranks, h.contributions, h.matchedTerms⟩
  rw [← totalScore_exact]
  exact h.score hit hhit

/-- **Fusion meets its specification.** -/
theorem isFusion_reciprocalRankFusion (hdup : ∀ r ∈ rankings, (r.map (·.chunkId)).Nodup)
    (hk : 0 < k) (hw : weights.length = rankings.length) :
    ∃ fused, reciprocalRankFusion rankings k (some weights) = .ok fused ∧
      IsFusion k rankings weights fused := by
  obtain ⟨fused, hok, h⟩ := fuses_reciprocalRankFusion hdup hk hw (fitting_exact k rankings)
  exact ⟨fused, hok, h.isFusion⟩

/-! ### What the fusion does not depend on -/

/-- A hit whose own rank is forgotten. -/
def unranked (hit : RetrievedChunk) : RetrievedChunk := { hit with rank := 0 }

/-- The (ranking, weight) pairs, the hits' own ranks forgotten. -/
def unrankedArms (rankings : List (List RetrievedChunk)) (weights : List ℚ) :
    List (List RetrievedChunk × ℚ) := (rankings.map (·.map unranked)).zip weights

theorem found_unranked (id : Uuid) (ranking : List RetrievedChunk) :
    found id (ranking.map unranked) =
      (found id ranking).map (Prod.map unranked fun position => position) := by
  rw [found, List.zipIdx_map, List.find?_map]
  rfl

/-- A score does not depend on the hits' own ranks, nor on the order of the pairs. -/
theorem rrfScore_unranked (rankings : List (List RetrievedChunk)) (weights : List ℚ) (id : Uuid) :
    rrfScore k (rankings.zip weights) id = rrfScore k (unrankedArms rankings weights) id := by
  rw [unrankedArms, List.zip_map_left, rrfScore, rrfScore, List.filterMap_map]
  congr 2
  funext arm
  simp only [Function.comp_apply, Prod.map_fst, Prod.map_snd, found_unranked, Option.map_map]
  rfl

theorem rrfScore_perm {arms' : List (List RetrievedChunk × ℚ)} (h : arms.Perm arms') (id : Uuid) :
    rrfScore k arms id = rrfScore k arms' id := (h.filterMap _).sum_eq

theorem mem_unrankedArms (hw : weights.length = rankings.length) {id : Uuid} :
    (∃ r ∈ rankings, id ∈ r.map (·.chunkId)) ↔
      ∃ arm ∈ unrankedArms rankings weights, id ∈ arm.1.map (·.chunkId) := by
  have hfst : (rankings.zip weights).map Prod.fst = rankings := List.map_fst_zip hw.ge
  conv_lhs => rw [← hfst]
  rw [unrankedArms, List.zip_map_left]
  simp only [List.mem_map, exists_exists_and_eq_and, Prod.map_fst]
  rfl

/-- **Two fusions of the same pairs agree** on the order of the chunks, their scores
and their ranks: both are the strictly sorted enumeration of the same scored ids. -/
theorem IsFusion.order_eq {rankings' : List (List RetrievedChunk)} {weights' : List ℚ}
    {fused fused' : List RetrievedChunk} (h : IsFusion k rankings weights fused)
    (h' : IsFusion k rankings' weights' fused') (hw : weights.length = rankings.length)
    (hw' : weights'.length = rankings'.length)
    (hperm : (unrankedArms rankings weights).Perm (unrankedArms rankings' weights')) :
    fused.map (fun hit => (hit.chunkId, hit.score, hit.rank)) =
      fused'.map fun hit => (hit.chunkId, hit.score, hit.rank) := by
  have hscore : ∀ id,
      rrfScore k (rankings.zip weights) id = rrfScore k (rankings'.zip weights') id :=
    fun id => by rw [rrfScore_unranked, rrfScore_unranked, rrfScore_perm hperm]
  have hids : ∀ id, id ∈ fused.map (·.chunkId) ↔ id ∈ fused'.map (·.chunkId) := fun id => by
    rw [h.mem_iff, h'.mem_iff, mem_unrankedArms hw, mem_unrankedArms hw']
    simp only [hperm.mem_iff]
  have hscored : ∀ {r : List (List RetrievedChunk)} {w f}, IsFusion k r w f →
      f.map (fun hit => (hit.chunkId, hit.score)) =
        (f.map (·.chunkId)).map fun id => (id, rrfScore k (r.zip w) id) := by
    intro r w f hf
    rw [List.map_map]
    exact List.map_congr_left fun hit hhit => Prod.ext rfl (hf.score hit hhit).1
  have hpair : (fused.map fun hit => (hit.chunkId, hit.score)).Perm
      (fused'.map fun hit => (hit.chunkId, hit.score)) := by
    rw [hscored h, hscored h']
    simp only [hscore]
    exact ((List.perm_ext_iff_of_nodup h.nodup h'.nodup).mpr hids).map _
  have hpairs := hpair.eq_of_pairwise (fun a b _ _ => Before.asymm)
    (List.pairwise_map.mpr h.sorted) (List.pairwise_map.mpr h'.sorted)
  have hlen : fused.length = fused'.length := by simpa using congrArg List.length hpairs
  have hranks : fused.map (·.rank) = fused'.map (·.rank) := by rw [h.ranks, h'.ranks, hlen]
  have hzip := congrArg₂ List.zip hpairs hranks
  rw [List.zip_map', List.zip_map'] at hzip
  have := congrArg (List.map fun q : (Uuid × ℚ) × ℕ => (q.1.1, q.1.2, q.2)) hzip
  rwa [List.map_map, List.map_map] at this

/-- Permuted pairs have rankings free of duplicates when the pairs have. -/
theorem nodup_of_perm {rankings' : List (List RetrievedChunk)} {weights' : List ℚ}
    (hdup : ∀ r ∈ rankings, (r.map (·.chunkId)).Nodup)
    (hw' : weights'.length = rankings'.length)
    (hperm : (unrankedArms rankings weights).Perm (unrankedArms rankings' weights')) :
    ∀ r ∈ rankings', (r.map (·.chunkId)).Nodup := by
  intro r hr
  have hfst' : (unrankedArms rankings' weights').map Prod.fst = rankings'.map (·.map unranked) :=
    List.map_fst_zip (by rw [List.length_map, hw'])
  have hmem : r.map unranked ∈ (unrankedArms rankings' weights').map Prod.fst :=
    hfst' ▸ List.mem_map_of_mem hr
  obtain ⟨arm, harm, heq⟩ := List.mem_map.mp ((hperm.map Prod.fst).mem_iff.mpr hmem)
  obtain ⟨r₀, hr₀, heq₀⟩ := List.mem_map.mp (List.of_mem_zip harm).1
  have hsame : r₀.map unranked = r.map unranked := heq₀.trans heq
  have := congrArg (List.map (·.chunkId)) hsame
  rw [List.map_map, List.map_map] at this
  have hids : r₀.map (·.chunkId) = r.map (·.chunkId) := this
  exact hids ▸ hdup r₀ hr₀

/-- **Reciprocal rank fusion**: rankings free of duplicates are fused to what fusion
is for, and order, scores and ranks depend on nothing but the pairs of a ranking,
the hits' own ranks forgotten, and its weight. -/
theorem reciprocalRankFusion_spec (hdup : ∀ r ∈ rankings, (r.map (·.chunkId)).Nodup)
    (hk : 0 < k) (hw : weights.length = rankings.length) :
    ∃ fused, reciprocalRankFusion rankings k (some weights) = .ok fused ∧
      IsFusion k rankings weights fused ∧
      ∀ rankings' weights', weights'.length = rankings'.length →
        (unrankedArms rankings weights).Perm (unrankedArms rankings' weights') →
        ∃ fused', reciprocalRankFusion rankings' k (some weights') = .ok fused' ∧
          fused'.map (fun hit => (hit.chunkId, hit.score, hit.rank)) =
            fused.map fun hit => (hit.chunkId, hit.score, hit.rank) := by
  obtain ⟨fused, hok, h⟩ := isFusion_reciprocalRankFusion hdup hk hw
  refine ⟨fused, hok, h, fun rankings' weights' hw' hperm => ?_⟩
  obtain ⟨fused', hok', h'⟩ :=
    isFusion_reciprocalRankFusion (nodup_of_perm hdup hw' hperm) hk hw'
  exact ⟨fused', hok', (h.order_eq h' hw hw' hperm).symm⟩

end Exact

/-- A hit of chunk `n`. -/
def sampleHit (n : Uuid) (retriever : RetrieverKind) : RetrievedChunk :=
  { text := [], score := 1 / 2, retriever, provenance := { documentId := 0, chunkId := n },
    rank := 7 }

/-- Two arms that share a chunk. -/
theorem reciprocalRankFusion_spec_sample :
    ∃ fused, reciprocalRankFusion
        [[sampleHit 1 .semantic, sampleHit 2 .semantic], [sampleHit 2 .keyword]] 60
        (some [1, 1 / 2]) = .ok fused ∧
      IsFusion 60 [[sampleHit 1 .semantic, sampleHit 2 .semantic], [sampleHit 2 .keyword]]
        [1, 1 / 2] fused := by
  obtain ⟨fused, hok, h, -⟩ := @reciprocalRankFusion_spec 60
    [[sampleHit 1 .semantic, sampleHit 2 .semantic], [sampleHit 2 .keyword]] [1, 1 / 2]
    (by decide) (by decide) rfl
  exact ⟨fused, hok, h⟩

end Retrieval
end EvidenceLab
