/-
# The row order of a search

`ORDER BY` and `LIMIT` leave the database a choice: the rows come in any order that is sorted,
and the limit cuts that order (`Statement.Permits`).  The keyword statement breaks ties by the
id of the chunk, so it permits one answer (`keywordStatement_unique`).  The dense statement
orders by the distance alone, and chunks at equal distance, such as chunks of equal text, come
in any order.

The fusion breaks its own ties by the ids, but it counts positions, and these are the
database's choice.  `rowOrderFree_iff` says which searches return the same for every choice.
-/

import EvidenceLab.Retrieval.OneArm
import EvidenceLab.Retrieval.Ties
import EvidenceLab.Tenancy.Search

namespace EvidenceLab
namespace Tenancy

open Text Data EvidenceLab.Core Retrieval

variable {V σ : Type}

/-! ### Statements -/

/-- A query of the chunk table: a computed column, `none` where a chunk is not selected,
`ORDER BY`, `LIMIT`, and the hit of a row at its rank. -/
structure Statement (V σ : Type) where
  column : ChunkRecord V → Option σ
  le : ChunkRecord V × σ → ChunkRecord V × σ → Bool
  limit : ℕ
  hit : ChunkRecord V × σ → ℕ → RetrievedChunk Float64

namespace Statement

variable (s : Statement V σ) (chunks : List (ChunkRecord V))

/-- The rows that are selected. -/
def selected : List (ChunkRecord V × σ) :=
  chunks.filterMap fun chunk => (s.column chunk).map fun value => (chunk, value)

/-- The hits of rows in this order. -/
def hits (rows : List (ChunkRecord V × σ)) : List (RetrievedChunk Float64) :=
  (rows.take s.limit).zipIdx.map fun entry => s.hit entry.1 entry.2

/-- The database may answer with these hits. -/
def Permits (found : List (RetrievedChunk Float64)) : Prop :=
  ∃ rows, rows.Perm (s.selected chunks) ∧ (rows.Pairwise fun x y => s.le x y) ∧
    found = s.hits rows

variable {s chunks}

theorem idsOf_hits (hhit : ∀ row rank, (s.hit row rank).chunkId = row.1.id)
    (rows : List (ChunkRecord V × σ)) :
    idsOf (s.hits rows) = (rows.map (·.1.id)).take s.limit := by
  rw [idsOf, hits, List.map_map, ← List.map_take]
  conv_rhs => rw [← List.zipIdx_map_fst 0 (List.take s.limit rows), List.map_map]
  exact List.map_congr_left fun entry _ => hhit entry.1 entry.2

theorem nodup_selected (hkey : (chunks.map (·.id)).Nodup) :
    ((s.selected chunks).map (·.1.id)).Nodup :=
  nodup_candidates hkey

/-- **What an engine answers is permitted.** -/
theorem permits_ranked (engine : Engine Uuid) (htrans : ∀ x y z, s.le x y → s.le y z → s.le x z)
    (htotal : ∀ x y, s.le x y || s.le y x) :
    s.Permits chunks (ranked engine s.column s.le s.limit s.hit chunks) :=
  ⟨_, Engine.perm_orderBy, List.pairwise_mergeSort htrans htotal _, rfl⟩

end Statement

section Statements

variable (b : Backend V) (query : FilteredQuery) (vector : V)

/-- The statement of `retrieve_with_vector`. -/
def semanticStatement : Statement V ℚ where
  column chunk := if chunk.projectId = query.projectId then
    chunk.embedding.map fun embedding => b.cosineDistance embedding vector else none
  le x y := x.2 ≤ y.2
  limit := query.topK
  hit row rank :=
    { text := row.1.text
      score := .ofRat (1 - row.2)
      retriever := .semantic
      provenance := row.1.provenance
      rank
      metadata := Dict.empty.set "embedding_model"
        (row.1.embeddingModel.map fun model => lit model.toList) }

/-- The statement of `PostgresFtsRetriever.retrieve`. -/
def keywordStatement : Statement V ℚ where
  column chunk := if chunk.projectId = query.projectId ∧ b.isMatch query.text chunk.text then
    some (b.rankCd query.text chunk.text) else none
  le x y := y.2 < x.2 || (x.2 = y.2 && x.1.id ≤ y.1.id)
  limit := query.topK
  hit row rank :=
    { text := row.1.text
      score := .ofRat row.2
      retriever := .keyword
      provenance := row.1.provenance
      rank
      matchedTerms := (b.queryLexemes query.text).filter ((b.lexemes row.1.text).contains ·)
      metadata := Dict.empty.set "fts_config" (some (lit "english".toList)) }

variable {b query vector} {chunks : List (ChunkRecord V)}

/-- **The dense arm of the model is one of its statement's answers.** -/
theorem permits_retrieveWithVector :
    (semanticStatement b query vector).Permits chunks
      (retrieveWithVector b chunks query vector) := by
  refine Statement.permits_ranked b.engine ?_ ?_
  · intro x y z hxy hyz
    exact decide_eq_true ((of_decide_eq_true hxy).trans (of_decide_eq_true hyz))
  · intro x y
    rw [Bool.or_eq_true]
    exact (le_total x.2 y.2).imp decide_eq_true decide_eq_true

theorem keywordStatement_le {x y : ChunkRecord V × ℚ} :
    (keywordStatement b query).le x y = true ↔
      y.2 < x.2 ∨ (x.2 = y.2 ∧ x.1.id ≤ y.1.id) := by
  simp only [keywordStatement, Bool.or_eq_true, Bool.and_eq_true, decide_eq_true_eq]

/-- The keyword arm is one, too. -/
theorem permits_postgresFts {found : List (RetrievedChunk Float64)}
    (h : postgresFts b chunks query = .ok found) :
    (keywordStatement b query).Permits chunks found := by
  obtain rfl := Except.ok.inj h
  refine Statement.permits_ranked b.engine ?_ ?_
  · intro x y z hxy hyz
    rw [keywordStatement_le] at *
    rcases hxy with hxy | ⟨hxy, hid⟩ <;> rcases hyz with hyz | ⟨hyz, hid'⟩
    · exact Or.inl (hyz.trans hxy)
    · exact Or.inl (hyz ▸ hxy)
    · exact Or.inl (hxy ▸ hyz)
    · exact Or.inr ⟨hxy.trans hyz, hid.trans hid'⟩
  · intro x y
    rw [Bool.or_eq_true, keywordStatement_le, keywordStatement_le]
    rcases lt_trichotomy x.2 y.2 with hlt | heq | hlt
    · exact Or.inr (Or.inl hlt)
    · exact (le_total x.1.id y.1.id).imp (fun hid => Or.inr ⟨heq, hid⟩)
        fun hid => Or.inr ⟨heq.symm, hid⟩
    · exact Or.inl (Or.inl hlt)

/-- **The keyword statement permits one answer.** -/
theorem keywordStatement_unique (hkey : (chunks.map (·.id)).Nodup)
    {found found' : List (RetrievedChunk Float64)}
    (h : (keywordStatement b query).Permits chunks found)
    (h' : (keywordStatement b query).Permits chunks found') : found = found' := by
  obtain ⟨rows, hperm, hsorted, rfl⟩ := h
  obtain ⟨rows', hperm', hsorted', rfl⟩ := h'
  refine congrArg _ ((hperm.trans hperm'.symm).eq_of_pairwise ?_ hsorted hsorted')
  intro x y hx hy hxy hyx
  rw [keywordStatement_le] at hxy hyx
  have hid : x.1.id = y.1.id := by
    rcases hxy with hxy | ⟨heq, hid⟩ <;> rcases hyx with hyx | ⟨heq', hid'⟩
    · exact absurd hxy hyx.asymm
    · exact absurd hxy (heq' ▸ lt_irrefl _)
    · exact absurd hyx (heq ▸ lt_irrefl _)
    · exact le_antisymm hid hid'
  exact List.inj_on_of_nodup_map (Statement.nodup_selected hkey) (hperm.mem_iff.mp hx)
    (hperm'.mem_iff.mp hy) hid

end Statements

/-! ### The hybrid retriever -/

section Hybrid

variable (b : Backend V) (r : HybridRetriever Float64) (query : FilteredQuery) (vector : V)
  (dense keyword : List (ChunkRecord V))

/-- The query that `HybridRetriever.retrieve` asks its arms. -/
def deepQuery : FilteredQuery := { query with topK := r.fetchK query.topK }

/-- An arm answers a query with hits that its statement permits. -/
def Answers (s : Statement V σ) (chunks : List (ChunkRecord V)) (arm : Retriever Float64)
    (query : FilteredQuery) : Prop :=
  ∃ found, arm query = .ok found ∧ s.Permits chunks found

/-- An arm that returns permitted hits answers the query they are permitted for. -/
theorem answers_rankedArm {s : Statement V σ} {chunks : List (ChunkRecord V)}
    {found : List (RetrievedChunk Float64)} {query : FilteredQuery} (hlimit : s.limit = query.topK)
    (h : s.Permits chunks found) : Answers s chunks (rankedArm found) query := by
  refine ⟨found, ?_, h⟩
  obtain ⟨rows, -, -, rfl⟩ := h
  have hlength : (s.hits rows).length ≤ query.topK := by
    rw [Statement.hits, List.length_map, List.length_zipIdx, List.length_take, ← hlimit]
    exact min_le_left _ _
  exact congrArg Except.ok (List.take_of_length_le hlength)

/-- The ids that the retriever returns over two arms. -/
def retrievedIds (denseArm keywordArm : Retriever Float64) : Except Exc (List Uuid) :=
  (HybridRetriever.retrieve { r with dense := denseArm, keyword := keywordArm } query).map idsOf

/-- The retriever returns the same ids whatever rows the database gives its arms. -/
def RowOrderFree : Prop :=
  ∀ denseArm denseArm' keywordArm keywordArm' : Retriever Float64,
    Answers (semanticStatement b (deepQuery r query) vector) dense denseArm (deepQuery r query) →
    Answers (semanticStatement b (deepQuery r query) vector) dense denseArm' (deepQuery r query) →
    Answers (keywordStatement b (deepQuery r query)) keyword keywordArm (deepQuery r query) →
    Answers (keywordStatement b (deepQuery r query)) keyword keywordArm' (deepQuery r query) →
    retrievedIds r query denseArm keywordArm = retrievedIds r query denseArm' keywordArm'

/-- The distance of the chunk with this id. -/
def distanceOf (rows : List (ChunkRecord V × ℚ)) (id : Uuid) : ℚ :=
  ((rows.find? (·.1.id = id)).map (·.2)).getD 0

/-- The embedded chunks of the project with their distances, and the keyword ranking. -/
def contest (w w' : Float64) : Contest where
  embedded := ((semanticStatement b (deepQuery r query) vector).selected dense).map (·.1.id)
  distance := distanceOf ((semanticStatement b (deepQuery r query) vector).selected dense)
  keyword := ((postgresFts (S := Float64) b keyword (deepQuery r query)).map idsOf).toOption.getD []
  fetch := r.fetchK query.topK
  k := r.k
  denseWeight := w
  keywordWeight := w'

variable {b r query vector dense keyword} {w w' : Float64}

theorem distanceOf_of_mem {rows : List (ChunkRecord V × ℚ)} (hnodup : (rows.map (·.1.id)).Nodup)
    {row : ChunkRecord V × ℚ} (hrow : row ∈ rows) : distanceOf rows row.1.id = row.2 := by
  have hfound := find?_key (fun row : ChunkRecord V × ℚ => row.1.id) hnodup hrow
  rw [distanceOf, hfound]
  rfl

/-- The dense hits that are permitted are the sortings of the embedded chunks, cut. -/
theorem permits_iff (hdense : (dense.map (·.id)).Nodup) {ids : List Uuid} :
    (∃ found, (semanticStatement b (deepQuery r query) vector).Permits dense found ∧
      idsOf found = ids) ↔
    ∃ order, IsSorting (contest b r query vector dense keyword w w').distance
      (contest b r query vector dense keyword w w').embedded order ∧
      ids = order.take (r.fetchK query.topK) := by
  set s := semanticStatement b (deepQuery r query) vector with hs
  have hkey : ∀ row ∈ s.selected dense, distanceOf (s.selected dense) row.1.id = row.2 :=
    fun row hrow => distanceOf_of_mem (Statement.nodup_selected hdense) hrow
  have hids : ∀ rows, idsOf (s.hits rows) = (rows.map (·.1.id)).take (r.fetchK query.topK) :=
    Statement.idsOf_hits fun _ _ => rfl
  constructor
  · rintro ⟨found, ⟨rows, hperm, hsorted, rfl⟩, rfl⟩
    have hsorting : IsSorting (fun row => row.2) (s.selected dense) rows :=
      ⟨hperm, hsorted.imp of_decide_eq_true⟩
    exact ⟨_, hsorting.map hkey, hids rows⟩
  · rintro ⟨order, horder, rfl⟩
    obtain ⟨rows, ⟨hperm, hsorted⟩, rfl⟩ := horder.exists_rows hkey
    exact ⟨_, ⟨rows, hperm, hsorted.imp decide_eq_true, rfl⟩, hids rows⟩

/-- What the retriever makes of two answers. -/
theorem retrievedIds_eq (hweights : r.weights.getD [.ofRat 1, .ofRat 1] = [w, w'])
    {found found' : List (RetrievedChunk Float64)} {denseArm keywordArm : Retriever Float64}
    (hfound : denseArm (deepQuery r query) = .ok found)
    (hfound' : keywordArm (deepQuery r query) = .ok found') :
    retrievedIds r query denseArm keywordArm =
      (reciprocalRankFusion [found, found'] r.k (some [w, w'])).map
        fun fused => (idsOf fused).take query.topK := by
  have hfused : reciprocalRankFusion [found, found'] r.k (some [w, w']) =
      reciprocalRankFusion [found, found'] r.k r.weights := by
    rw [← hweights]
    cases r.weights <;> rfl
  have hretrieve : HybridRetriever.retrieve { r with dense := denseArm, keyword := keywordArm }
      query = (do
        let denseHits ← denseArm (deepQuery r query)
        let keywordHits ← keywordArm (deepQuery r query)
        let fused ← reciprocalRankFusion [denseHits, keywordHits] r.k r.weights
        return fused.take query.topK) := rfl
  rw [retrievedIds, hretrieve, hfound, hfound', hfused]
  show Except.map idsOf (reciprocalRankFusion [found, found'] r.k r.weights >>= fun fused =>
    pure (fused.take query.topK)) = _
  cases reciprocalRankFusion [found, found'] r.k r.weights with
  | error exc => rfl
  | ok fused => exact congrArg Except.ok List.map_take

/-- Chunks at distinct distances leave the database no choice. -/
theorem settled_of_distinct (hdense : (dense.map (·.id)).Nodup)
    (hdistinct : (((semanticStatement b (deepQuery r query) vector).selected dense).map
      (·.2)).Nodup) (n : ℕ) : (contest b r query vector dense keyword w w').Settled n := by
  refine Contest.settled_of_nodup ?_ n
  have hdistance : ∀ row ∈ (semanticStatement b (deepQuery r query) vector).selected dense,
      distanceOf ((semanticStatement b (deepQuery r query) vector).selected dense) row.1.id =
        row.2 :=
    fun row hrow => distanceOf_of_mem (Statement.nodup_selected hdense) hrow
  rw [contest, List.map_map]
  exact List.map_congr_left hdistance ▸ hdistinct

section Answered

variable (hdense : (dense.map (·.id)).Nodup) (hkeyword : (keyword.map (·.id)).Nodup)
  (hk : 0 < r.k) (hweights : r.weights.getD [.ofRat 1, .ofRat 1] = [w, w'])

include hkeyword

/-- The keyword hits that are permitted are those of the contest. -/
theorem idsOf_keyword {found : List (RetrievedChunk Float64)}
    (h : (keywordStatement b (deepQuery r query)).Permits keyword found) :
    idsOf found = (contest b r query vector dense keyword w w').keyword := by
  obtain ⟨own, hown⟩ : ∃ own, postgresFts (S := Float64) b keyword (deepQuery r query) = .ok own :=
    ⟨_, rfl⟩
  rw [contest, hown, keywordStatement_unique hkeyword h (permits_postgresFts hown)]
  rfl

include hdense hk hweights

/-- What the retriever returns is the beginning of an outcome, or it raises. -/
theorem retrieved_outcome (hw : (contest b r query vector dense keyword w w').Weighted)
    {order : List Uuid}
    (horder : IsSorting (contest b r query vector dense keyword w w').distance
      (contest b r query vector dense keyword w w').embedded order)
    {found found' : List (RetrievedChunk Float64)} {denseArm keywordArm : Retriever Float64}
    (hfound : denseArm (deepQuery r query) = .ok found)
    (hids : idsOf found = order.take (r.fetchK query.topK))
    (hfound' : keywordArm (deepQuery r query) = .ok found')
    (hpermits : (keywordStatement b (deepQuery r query)).Permits keyword found') :
    ((contest b r query vector dense keyword w w').Convertible →
      ∃ ids, (contest b r query vector dense keyword w w').Outcome order ids ∧
        retrievedIds r query denseArm keywordArm = .ok (ids.take query.topK)) ∧
    (¬ (contest b r query vector dense keyword w w').Convertible →
      retrievedIds r query denseArm keywordArm = .error .overflowError) := by
  have hkeywordIds : idsOf found' = (contest b r query vector dense keyword w w').keyword :=
    idsOf_keyword hkeyword hpermits
  have hnodup : (idsOf found).Nodup := by
    rw [hids]
    refine List.Nodup.sublist (List.take_sublist _ _) (horder.perm.nodup_iff.mpr ?_)
    exact Statement.nodup_selected hdense
  have hnodup' : (idsOf found').Nodup := by
    rw [keywordStatement_unique hkeyword hpermits (permits_postgresFts rfl)]
    exact (scoped_postgresFts hkeyword rfl).nodup
  have hlength : [w, w'].length = [found, found'].length := rfl
  have hconvertible := Contest.fitting_iff_convertible horder.perm hids hkeywordIds
  rw [retrievedIds_eq hweights hfound hfound', ← hconvertible]
  constructor
  · intro hfits
    obtain ⟨fused, hok, hfuses⟩ :=
      fuses_reciprocalRankFusion (nodup_two hnodup hnodup') hk hlength hfits
    refine ⟨idsOf fused, Contest.outcome_of_fuses hk hw horder hids hkeywordIds hfuses, ?_⟩
    rw [hok]
    rfl
  · intro hfits
    rw [reciprocalRankFusion_eq_overflow hk hlength hfits]
    rfl

/-- The database gives any sorting of the embedded chunks, and each has its outcome. -/
theorem exists_answers (hw : (contest b r query vector dense keyword w w').Weighted)
    (hfits : (contest b r query vector dense keyword w w').Convertible) {order : List Uuid}
    (horder : IsSorting (contest b r query vector dense keyword w w').distance
      (contest b r query vector dense keyword w w').embedded order) :
    ∃ denseArm ids,
      Answers (semanticStatement b (deepQuery r query) vector) dense denseArm
        (deepQuery r query) ∧
      (contest b r query vector dense keyword w w').Outcome order ids ∧
      retrievedIds r query denseArm (postgresFts b keyword) = .ok (ids.take query.topK) := by
  obtain ⟨own, hown⟩ : ∃ own, postgresFts (S := Float64) b keyword (deepQuery r query) = .ok own :=
    ⟨_, rfl⟩
  obtain ⟨found, hpermits, hids⟩ := (permits_iff hdense).mpr ⟨order, horder, rfl⟩
  let arm : Retriever Float64 := fun _ => .ok found
  have hfound : arm (deepQuery r query) = .ok found := rfl
  obtain ⟨ids, hids, hretrieved⟩ := (retrieved_outcome hdense hkeyword hk hweights hw horder hfound
    hids hown (permits_postgresFts hown)).1 hfits
  exact ⟨arm, ids, ⟨found, hfound, hpermits⟩, hids, hretrieved⟩

/-- What the retriever may return is the beginnings of the possible fusions. -/
theorem rowOrderFree_iff_take (hw : (contest b r query vector dense keyword w w').Weighted)
    (hfits : (contest b r query vector dense keyword w w').Convertible) :
    RowOrderFree b r query vector dense keyword ↔
      ∀ ids ids', (contest b r query vector dense keyword w w').Possible ids →
        (contest b r query vector dense keyword w w').Possible ids' →
          ids.take query.topK = ids'.take query.topK := by
  constructor
  · rintro h ids ids' ⟨order, hids⟩ ⟨order', hids'⟩
    obtain ⟨arm, own, hanswers, hown, hretrieved⟩ :=
      exists_answers hdense hkeyword hk hweights hw hfits hids.sorting
    obtain ⟨arm', own', hanswers', hown', hretrieved'⟩ :=
      exists_answers hdense hkeyword hk hweights hw hfits hids'.sorting
    have hkeywordAnswers : Answers (keywordStatement b (deepQuery r query)) keyword
        (postgresFts b keyword) (deepQuery r query) := ⟨_, rfl, permits_postgresFts rfl⟩
    have heq := h arm arm' _ _ hanswers hanswers' hkeywordAnswers hkeywordAnswers
    rw [hretrieved, hretrieved'] at heq
    rw [hids.unique hown, hids'.unique hown']
    exact Except.ok.inj heq
  · rintro h arm arm' words words' ⟨found, harm, hpermits⟩ ⟨found', harm', hpermits'⟩
      ⟨own, hwords, hown⟩ ⟨own', hwords', hown'⟩
    obtain ⟨order, horder, hids⟩ := (permits_iff hdense).mp ⟨found, hpermits, rfl⟩
    obtain ⟨order', horder', hids'⟩ := (permits_iff hdense).mp ⟨found', hpermits', rfl⟩
    obtain ⟨ids, houtcome, hretrieved⟩ :=
      (retrieved_outcome hdense hkeyword hk hweights hw horder harm hids hwords hown).1 hfits
    obtain ⟨ids', houtcome', hretrieved'⟩ :=
      (retrieved_outcome hdense hkeyword hk hweights hw horder' harm' hids' hwords' hown').1 hfits
    rw [hretrieved, hretrieved', h ids ids' ⟨order, houtcome⟩ ⟨order', houtcome'⟩]

/-- **When the row order does not show**: where the retriever raises, or all is settled. -/
theorem rowOrderFree_iff (hw : w.Nonneg ∧ w'.Nonneg) :
    RowOrderFree b r query vector dense keyword ↔
      ((contest b r query vector dense keyword w w').Convertible →
        (contest b r query vector dense keyword w w').Settled query.topK) := by
  have hweighted : (contest b r query vector dense keyword w w').Weighted := hw
  by_cases hfits : (contest b r query vector dense keyword w w').Convertible
  · have htotal : ∀ order, IsSorting (contest b r query vector dense keyword w w').distance
        (contest b r query vector dense keyword w w').embedded order →
        ∃ ids, (contest b r query vector dense keyword w w').Outcome order ids := by
      intro order horder
      obtain ⟨-, ids, -, hids, -⟩ :=
        exists_answers hdense hkeyword hk hweights hweighted hfits horder
      exact ⟨ids, hids⟩
    rw [rowOrderFree_iff_take hdense hkeyword hk hweights hweighted hfits,
      Contest.take_eq_iff_settled hk hweighted htotal, imp_iff_right hfits]
  · refine iff_of_true ?_ fun h => absurd h hfits
    rintro arm arm' words words' ⟨found, harm, hpermits⟩ ⟨found', harm', hpermits'⟩
      ⟨own, hwords, hown⟩ ⟨own', hwords', hown'⟩
    obtain ⟨order, horder, hids⟩ := (permits_iff hdense).mp ⟨found, hpermits, rfl⟩
    obtain ⟨order', horder', hids'⟩ := (permits_iff hdense).mp ⟨found', hpermits', rfl⟩
    rw [(retrieved_outcome hdense hkeyword hk hweights hweighted horder harm hids hwords hown).2
        hfits,
      (retrieved_outcome hdense hkeyword hk hweights hweighted horder' harm' hids' hwords' hown').2
        hfits]

end Answered

/-- Where no keyword matches, the dense hits are returned in the order they come in. -/
theorem retrievedIds_of_silent {ranking : List (RetrievedChunk Float64)} (hk : 0 < r.k)
    (hweights : r.weights = none) (hnodup : (idsOf ranking).Nodup)
    (hfetch : query.topK ≤ r.fetchK query.topK)
    (hreproducible : Reproducible r.k (.ofRat 1) query.topK
      (idsOf (ranking.take (r.fetchK query.topK)))) :
    retrievedIds r query (rankedArm ranking) (rankedArm []) =
      .ok ((idsOf ranking).take query.topK) := by
  obtain ⟨hits, hits', hhits, hhits', heq⟩ := (hybrid_reproduces_iff
    (r := { r with dense := rankedArm ranking, keyword := rankedArm [] }) hk hweights
    (ranks_rankedArm ranking query hnodup) (silent_rankedArm query)).mpr
      ⟨Or.inl hfetch, hreproducible⟩
  obtain rfl := Except.ok.inj hhits'
  rw [retrievedIds, hhits]
  exact congrArg Except.ok (heq.trans List.map_take)

end Hybrid

/-! ### Two chunks of one text -/

/-- The cosine distance of unit vectors. -/
def unitDistance (x y : ℚ × ℚ) : ℚ := 1 - (x.1 * y.1 + x.2 * y.2)

/-- A database, and the empty query, which matches no text. -/
def unitBackend : Backend (ℚ × ℚ) where
  engine := Engine.byKey Uuid
  cosineDistance := unitDistance
  isMatch _ _ := false
  rankCd _ _ := 0
  lexemes _ := []
  queryLexemes _ := []
  analyze _ := .ambiguous
  render _ := []

/-- A chunk with this id and this vector. -/
def sampleChunk (id : Uuid) (vector : ℚ × ℚ) : ChunkRecord (ℚ × ℚ) :=
  { text := [], ordinal := 0, tokenCount := 0, id, embedding := some vector, documentId := 0,
    projectId := 0, organizationId := 0, userId := none }

/-- A retriever over arms that are given to it. -/
def armless : HybridRetriever Float64 := { dense := rankedArm [], keyword := rankedArm [] }

theorem rowOrderFree_iff_sample :
    RowOrderFree unitBackend armless (sampleQuery 1) (1, 0)
      [sampleChunk 1 (1, 0), sampleChunk 2 (0, 1)] [] := by
  have hdense : ([sampleChunk 1 (1, 0), sampleChunk 2 (0, 1)].map (·.id)).Nodup := by decide
  have hweights : armless.weights.getD [.ofRat 1, .ofRat 1] = [.ofRat 1, .ofRat 1] := rfl
  refine (rowOrderFree_iff hdense (by decide) (by decide) hweights ⟨nonneg_one, nonneg_one⟩).mpr
    fun _ => settled_of_distinct hdense ?_ _
  decide +kernel

/-- Two chunks of one text. -/
def twins : List (ChunkRecord (ℚ × ℚ)) := [sampleChunk 1 (1, 0), sampleChunk 2 (1, 0)]

/-- The statement that a search for their vector runs. -/
def twinStatement : Statement (ℚ × ℚ) ℚ :=
  semanticStatement unitBackend (deepQuery armless (sampleQuery 1)) (1, 0)

theorem selected_twins : twinStatement.selected twins = twins.map fun chunk => (chunk, 0) := by
  have hdistance : unitDistance (1, 0) (1, 0) = 0 := by norm_num [unitDistance]
  have hselected : twinStatement.selected twins =
    twins.map fun chunk => (chunk, unitDistance (1, 0) (1, 0)) := rfl
  rw [hselected, hdistance]

/-- The rows of the two chunks come in either order. -/
theorem permits_twins {chunks : List (ChunkRecord (ℚ × ℚ))} (h : chunks.Perm twins) :
    twinStatement.Permits twins (twinStatement.hits (chunks.map fun chunk => (chunk, 0))) := by
  refine ⟨_, selected_twins ▸ h.map _, ?_, rfl⟩
  exact List.pairwise_map.mpr (List.pairwise_of_forall fun _ _ => decide_eq_true (le_refl (0 : ℚ)))

/-- The database chooses which of two chunks of one text is returned. -/
theorem rowOrderFree_fails :
    ¬ RowOrderFree unitBackend armless (sampleQuery 1) (1, 0) twins [] := by
  intro h
  have hsilent : Answers (keywordStatement unitBackend (deepQuery armless (sampleQuery 1))) []
      (rankedArm []) (deepQuery armless (sampleQuery 1)) :=
    ⟨[], rfl, [], List.Perm.nil, List.Pairwise.nil, rfl⟩
  have heq := h _ _ _ _ (answers_rankedArm rfl (permits_twins (List.Perm.refl _)))
    (answers_rankedArm rfl (permits_twins (List.Perm.swap ..))) hsilent hsilent
  have hone : (Float64.ofRat 1).toRat? = some 1 := by decide +kernel
  have hordinary : ∀ ids : List Uuid, ids.length = 2 → Reproducible armless.k (.ofRat 1) 1 ids :=
    fun ids hlength => reproducible_of_ordinary hone (by decide) (by rw [hlength]; decide)
      (by rw [hlength]; decide +kernel) 1
  rw [retrievedIds_of_silent (by decide) rfl (by decide) (by decide) (hordinary _ rfl),
    retrievedIds_of_silent (by decide) rfl (by decide) (by decide) (hordinary _ rfl)] at heq
  exact absurd (Except.ok.inj heq) (by decide)

end Tenancy
end EvidenceLab
