/-
# Searching the chunk table

`app/retrieval/pgvector.py`, `postgres_fts.py` and `factory.py`: the two arms as queries
of the chunk table, and the retriever of a strategy.  Both arms select by project.

What the database computes of a row and a query is a parameter (`Backend`), and each such
function is given that row alone.  A transaction may see the table at different times in
its two arms, so these have a table each.
-/

import EvidenceLab.Data.Select
import EvidenceLab.Retrieval.FusionSpec
import EvidenceLab.Retrieval.Hybrid
import EvidenceLab.Tenancy.Tables

namespace EvidenceLab
namespace Tenancy

open Text Data EvidenceLab.Core Retrieval

/-- The embedding pipeline of a request: its model, and what it makes of a query. -/
structure EmbeddingPipeline (V : Type) where
  modelId : Str
  embedQuery : Str → Except Exc V

/-- The engine and the functions of the database, the query analyzer, and `str`. -/
structure Backend (V : Type) where
  engine : Engine Uuid
  cosineDistance : V → V → ℚ
  /-- `to_tsvector(text) @@ websearch_to_tsquery(query)`, the query first. -/
  isMatch : Str → Str → Bool
  /-- `ts_rank_cd`, with the same arguments. -/
  rankCd : Str → Str → ℚ
  /-- `tsvector_to_array(to_tsvector(text))`. -/
  lexemes : Str → List Str
  /-- `query_lexemes`: in the order of their first positions. -/
  queryLexemes : Str → List Str
  analyze : Str → QueryType
  /-- `str` of a value that is no string. -/
  render : Json → Str

variable {V S : Type}

/-! ### The arms -/

/-- The provenance of a hit. -/
def ChunkRecord.provenance (chunk : ChunkRecord V) : Provenance where
  documentId := chunk.documentId
  chunkId := chunk.id
  page := chunk.page
  charStart := chunk.charStart
  charEnd := chunk.charEnd

/-- A query of the chunks with a computed column, `none` where a chunk is not selected,
and a hit for each row at its rank. -/
def ranked {S σ : Type} (engine : Engine Uuid) (column : ChunkRecord V → Option σ)
    (le : ChunkRecord V × σ → ChunkRecord V × σ → Bool) (topK : ℕ)
    (hit : ChunkRecord V × σ → ℕ → RetrievedChunk S) (chunks : List (ChunkRecord V)) :
    List (RetrievedChunk S) :=
  let rows := engine.orderBy (·.1.id) le (chunks.filterMap fun chunk =>
    (column chunk).map fun value => (chunk, value))
  (rows.take topK).zipIdx.map fun entry => hit entry.1 entry.2

/-- `PgVectorRetriever.retrieve_with_vector`: chunks awaiting embedding are not there. -/
def retrieveWithVector [Score S] (b : Backend V) (chunks : List (ChunkRecord V))
    (query : FilteredQuery) (vector : V) : List (RetrievedChunk S) :=
  ranked b.engine
    (fun chunk => if chunk.projectId = query.projectId then
      chunk.embedding.map fun embedding => b.cosineDistance embedding vector else none)
    (fun x y => x.2 ≤ y.2) query.topK
    (fun row rank =>
      { text := row.1.text
        score := Score.ofRat (1 - row.2)
        retriever := .semantic
        provenance := row.1.provenance
        rank
        metadata := Dict.empty.set "embedding_model"
          (row.1.embeddingModel.map fun model => lit model.toList) })
    chunks

/-- `PgVectorRetriever.retrieve`. -/
def pgVector [Score S] (b : Backend V) (embeddings : Option (EmbeddingPipeline V))
    (chunks : List (ChunkRecord V)) : Retriever S := fun query =>
  match embeddings with
  | none => .error (.domain (providerError "Semantic retrieval needs an embedding pipeline."
      .providerNotConfigured "mistral"))
  | some pipeline => do
      let vector ← pipeline.embedQuery query.text
      return retrieveWithVector b chunks query vector

/-- `PostgresFtsRetriever.retrieve`. -/
def postgresFts [Score S] (b : Backend V) (chunks : List (ChunkRecord V)) :
    Retriever S := fun query =>
  let wanted := b.queryLexemes query.text
  .ok (ranked b.engine
    (fun chunk => if chunk.projectId = query.projectId ∧ b.isMatch query.text chunk.text then
      some (b.rankCd query.text chunk.text) else none)
    (fun x y => y.2 < x.2 || (x.2 = y.2 && x.1.id ≤ y.1.id)) query.topK
    (fun row rank =>
      { text := row.1.text
        score := Score.ofRat row.2
        retriever := .keyword
        provenance := row.1.provenance
        rank
        matchedTerms := wanted.filter ((b.lexemes row.1.text).contains ·)
        metadata := Dict.empty.set "fts_config" (some (lit "english".toList)) })
    chunks)

/-- `build_retriever`, on the chunks that the dense and the keyword arm see. -/
def buildRetriever (b : Backend V) (strategy : Str) (embeddings : Option (EmbeddingPipeline V))
    (dense keyword : List (ChunkRecord V)) : Retriever :=
  let denseArm := pgVector b embeddings dense
  let keywordArm := postgresFts b keyword
  if strategy = lit "keyword".toList then keywordArm
  else if strategy = lit "semantic".toList then denseArm
  else if strategy = lit "adaptive".toList then
    AdaptiveRetriever.retrieve
      { dense := denseArm, keyword := keywordArm, analyze := b.analyze, policy := defaultPolicy }
  else HybridRetriever.retrieve { dense := denseArm, keyword := keywordArm }

/-! ### What a search depends on -/

section Ranked

variable {σ : Type} {engine : Engine Uuid} {column : ChunkRecord V → Option σ}
  {le : ChunkRecord V × σ → ChunkRecord V × σ → Bool} {topK : ℕ}
  {hit : ChunkRecord V × σ → ℕ → RetrievedChunk S} {chunks chunks' : List (ChunkRecord V)}

/-- The ids of the candidates of a query. -/
theorem ids_candidates (chunks : List (ChunkRecord V)) :
    (chunks.filterMap fun chunk => (column chunk).map fun value => (chunk, value)).map (·.1.id) =
      (chunks.filter fun chunk => (column chunk).isSome).map (·.id) := by
  induction chunks with
  | nil => rfl
  | cons chunk chunks ih =>
      cases hcolumn : column chunk with
      | none => simp [hcolumn, ih]
      | some value => simp [hcolumn, ih]

theorem nodup_candidates (hkey : (chunks.map (·.id)).Nodup) :
    ((chunks.filterMap fun chunk => (column chunk).map fun value => (chunk, value)).map
      (·.1.id)).Nodup := by
  rw [ids_candidates]
  exact Engine.nodup_filter hkey

/-- A ranking has the ids of selected chunks, and none twice. -/
theorem ids_ranked (hhit : ∀ row rank, (hit row rank).chunkId = row.1.id)
    (hkey : (chunks.map (·.id)).Nodup) :
    ((ranked engine column le topK hit chunks).map (·.chunkId)).Nodup ∧
      ∀ id ∈ (ranked engine column le topK hit chunks).map (·.chunkId),
        ∃ chunk ∈ chunks, (column chunk).isSome ∧ chunk.id = id := by
  set candidates := chunks.filterMap fun chunk => (column chunk).map fun value => (chunk, value)
    with hcandidates
  have hids : (ranked engine column le topK hit chunks).map (·.chunkId) =
      ((engine.orderBy (·.1.id) le candidates).take topK).map (·.1.id) := by
    rw [ranked, List.map_map, ← hcandidates]
    conv_rhs => rw [← List.zipIdx_map_fst 0 (List.take topK _), List.map_map]
    exact List.map_congr_left fun entry _ => hhit entry.1 entry.2
  have hsorted : (engine.orderBy (·.1.id) le candidates).Perm candidates := Engine.perm_orderBy
  have hperm := hsorted.map (·.1.id)
  have hsub := (List.take_sublist topK (engine.orderBy (·.1.id) le candidates)).map (·.1.id)
  rw [hids]
  constructor
  · exact (hperm.nodup_iff.mpr (nodup_candidates hkey)).sublist hsub
  · intro id hid
    have hmem := hperm.mem_iff.mp (hsub.subset hid)
    rw [hcandidates, ids_candidates, List.mem_map] at hmem
    obtain ⟨chunk, hchunk, rfl⟩ := hmem
    obtain ⟨hchunk, hsome⟩ := List.mem_filter.mp hchunk
    exact ⟨chunk, hchunk, hsome, rfl⟩

/-- A hit of a ranking is made of a row with a value in the column. -/
theorem exists_row_of_ranked {found : RetrievedChunk S}
    (h : found ∈ ranked engine column le topK hit chunks) :
    ∃ row rank, row.1 ∈ chunks ∧ column row.1 = some row.2 ∧ found = hit row rank := by
  obtain ⟨entry, hentry, rfl⟩ := List.mem_map.mp h
  have hrow := List.mem_of_mem_take (List.fst_mem_of_mem_zipIdx hentry)
  obtain ⟨chunk, hchunk, hvalue⟩ := List.mem_filterMap.mp (Engine.perm_orderBy.mem_iff.mp hrow)
  obtain ⟨value, hcolumn, hpair⟩ := Option.map_eq_some_iff.mp hvalue
  rw [← hpair]
  exact ⟨(chunk, value), entry.2, hchunk, hcolumn, rfl⟩

/-- A ranking depends on the selected chunks alone. -/
theorem ranked_congr {scope : ChunkRecord V → Bool} (hkey : (chunks.map (·.id)).Nodup)
    (h : (chunks.filter scope).Perm (chunks'.filter scope))
    (hscope : ∀ chunk, (column chunk).isSome → scope chunk) :
    ranked engine column le topK hit chunks = ranked engine column le topK hit chunks' := by
  have hsome : ∀ chunk : ChunkRecord V,
      ((column chunk).map fun value => (chunk, value)).isSome → scope chunk := by
    intro chunk hchunk
    rw [Option.isSome_map] at hchunk
    exact hscope chunk hchunk
  have hperm := filterMap_perm_of_scope h (fun chunk _ => hsome chunk) fun chunk _ => hsome chunk
  rw [ranked, ranked, Engine.orderBy_congr (nodup_candidates hkey) hperm]

end Ranked

section Arms

variable {b : Backend V} {embeddings : Option (EmbeddingPipeline V)} {query : FilteredQuery}
  {strategy : Str} {chunks chunks' dense dense' keyword keyword' : List (ChunkRecord V)}
  {hits : List RetrievedChunk}

/-- The hits are chunks of the project, each once. -/
structure Scoped (projectId : Uuid) (chunks : List (ChunkRecord V))
    (hits : List (RetrievedChunk S)) : Prop where
  nodup : (hits.map (·.chunkId)).Nodup
  inside : ∀ id ∈ hits.map (·.chunkId),
    ∃ chunk ∈ chunks, chunk.projectId = projectId ∧ chunk.id = id

theorem scoped_pgVector [Score S] {hits : List (RetrievedChunk S)}
    (hkey : (chunks.map (·.id)).Nodup)
    (h : pgVector b embeddings chunks query = .ok hits) : Scoped query.projectId chunks hits := by
  unfold pgVector at h
  cases embeddings with
  | none => cases h
  | some pipeline =>
      obtain ⟨vector, -, h⟩ := bind_eq_ok.mp h
      obtain rfl := Except.ok.inj h
      refine ⟨(ids_ranked (by intros; rfl) hkey).1, ?_⟩
      intro id hid
      obtain ⟨chunk, hchunk, hsome, hid⟩ := (ids_ranked (by intros; rfl) hkey).2 id hid
      split at hsome
      · exact ⟨chunk, hchunk, ‹_›, hid⟩
      · cases hsome

theorem scoped_postgresFts [Score S] {hits : List (RetrievedChunk S)}
    (hkey : (chunks.map (·.id)).Nodup)
    (h : postgresFts b chunks query = .ok hits) : Scoped query.projectId chunks hits := by
  obtain rfl := Except.ok.inj h
  refine ⟨(ids_ranked (by intros; rfl) hkey).1, ?_⟩
  intro id hid
  obtain ⟨chunk, hchunk, hsome, hid⟩ := (ids_ranked (by intros; rfl) hkey).2 id hid
  split at hsome
  · rename_i hselected
    exact ⟨chunk, hchunk, hselected.1, hid⟩
  · cases hsome

/-- What is fused of two arms comes from one of them. -/
theorem mem_fused {k : ℤ} {weights : Option (List ℚ)} {topK : ℕ}
    {denseHits keywordHits fused : List RetrievedChunk}
    (hweights : (weights.getD [1, 1]).length = 2) (hk : 0 < k)
    (hdense : (denseHits.map (·.chunkId)).Nodup) (hkeyword : (keywordHits.map (·.chunkId)).Nodup)
    (h : reciprocalRankFusion [denseHits, keywordHits] k weights = .ok fused) {id : Uuid}
    (hid : id ∈ (fused.take topK).map (·.chunkId)) :
    id ∈ denseHits.map (·.chunkId) ∨ id ∈ keywordHits.map (·.chunkId) := by
  have hdup : ∀ r ∈ [denseHits, keywordHits], (r.map (·.chunkId)).Nodup := by
    intro r hr
    rcases List.mem_pair.mp hr with rfl | rfl
    · exact hdense
    · exact hkeyword
  obtain ⟨fused', hok, hfusion⟩ := isFusion_reciprocalRankFusion hdup hk hweights
  have hsame : reciprocalRankFusion [denseHits, keywordHits] k weights =
      reciprocalRankFusion [denseHits, keywordHits] k (some (weights.getD [1, 1])) := by
    cases weights <;> rfl
  obtain rfl := Except.ok.inj (hok.symm.trans (hsame.symm.trans h))
  have hmem := ((List.take_sublist topK fused').map (·.chunkId)).subset hid
  obtain ⟨r, hr, hid⟩ := (hfusion.mem_iff id).mp hmem
  rcases List.mem_pair.mp hr with rfl | rfl
  · exact Or.inl hid
  · exact Or.inr hid

/-- A chunk with this id is in the project, in one table or the other. -/
def FoundIn (projectId : Uuid) (dense keyword : List (ChunkRecord V)) (id : Uuid) : Prop :=
  (∃ chunk ∈ dense, chunk.projectId = projectId ∧ chunk.id = id) ∨
    ∃ chunk ∈ keyword, chunk.projectId = projectId ∧ chunk.id = id

/-- A search of both arms, whatever it asks them for in the project. -/
theorem found_of_fusing {deep : FilteredQuery} {k : ℤ} {weights : Option (List ℚ)}
    (hdense : (dense.map (·.id)).Nodup) (hkeyword : (keyword.map (·.id)).Nodup)
    (hproject : deep.projectId = query.projectId) (hweights : (weights.getD [1, 1]).length = 2)
    (hk : 0 < k)
    (h : (do
      let denseHits ← pgVector b embeddings dense deep
      let keywordHits ← postgresFts b keyword deep
      let fused ← reciprocalRankFusion [denseHits, keywordHits] k weights
      return fused.take query.topK) = .ok hits) :
    ∀ id ∈ hits.map (·.chunkId), FoundIn query.projectId dense keyword id := by
  obtain ⟨denseHits, hdenseHits, h⟩ := bind_eq_ok.mp h
  obtain ⟨keywordHits, hkeywordHits, h⟩ := bind_eq_ok.mp h
  obtain ⟨fused, hfused, h⟩ := bind_eq_ok.mp h
  obtain rfl := Except.ok.inj h
  intro id hid
  have hscoped := scoped_pgVector hdense hdenseHits
  have hscoped' := scoped_postgresFts hkeyword hkeywordHits
  rw [hproject] at hscoped hscoped'
  exact (mem_fused hweights hk hscoped.nodup hscoped'.nodup hfused hid).imp
    (hscoped.inside id) (hscoped'.inside id)

/-- **A search finds chunks of its project.** -/
theorem found_of_buildRetriever (hdense : (dense.map (·.id)).Nodup)
    (hkeyword : (keyword.map (·.id)).Nodup)
    (h : buildRetriever b strategy embeddings dense keyword query = .ok hits) :
    ∀ id ∈ hits.map (·.chunkId), FoundIn query.projectId dense keyword id := by
  have hk : 0 < rrfK := by decide
  unfold buildRetriever at h
  split at h
  · exact fun id hid => Or.inr ((scoped_postgresFts hkeyword h).inside id hid)
  · split at h
    · exact fun id hid => Or.inl ((scoped_pgVector hdense h).inside id hid)
    · split at h
      · unfold AdaptiveRetriever.retrieve at h
        refine found_of_fusing hdense hkeyword ?_ ?_ hk h <;> rfl
      · unfold HybridRetriever.retrieve at h
        refine found_of_fusing hdense hkeyword ?_ ?_ hk h <;> rfl

/-- The two tables have the chunks of the project in common. -/
def SameProject (projectId : Uuid) (chunks chunks' : List (ChunkRecord V)) : Prop :=
  (chunks.map (·.id)).Nodup ∧
    (chunks.filter (·.projectId = projectId)).Perm (chunks'.filter (·.projectId = projectId))

theorem pgVector_congr [Score S] (h : SameProject query.projectId chunks chunks') :
    pgVector (S := S) b embeddings chunks query = pgVector b embeddings chunks' query := by
  have hvector : ∀ vector,
      retrieveWithVector (S := S) b chunks query vector =
        retrieveWithVector b chunks' query vector := by
    intro vector
    refine ranked_congr h.1 h.2 ?_
    intro chunk hsome
    split at hsome
    · exact decide_eq_true ‹_›
    · cases hsome
  unfold pgVector
  cases embeddings with
  | none => rfl
  | some pipeline => simp only [hvector]

theorem postgresFts_congr [Score S] (h : SameProject query.projectId chunks chunks') :
    postgresFts (S := S) b chunks query = postgresFts b chunks' query := by
  refine congrArg Except.ok (ranked_congr h.1 h.2 ?_)
  intro chunk hsome
  split at hsome
  · rename_i hselected
    exact decide_eq_true hselected.1
  · cases hsome

/-- The hybrid retriever over the two arms. -/
theorem hybrid_congr [Score S] (h : SameProject query.projectId dense dense')
    (h' : SameProject query.projectId keyword keyword') :
    HybridRetriever.retrieve (S := S)
        { dense := pgVector b embeddings dense, keyword := postgresFts b keyword } query =
      HybridRetriever.retrieve
        { dense := pgVector b embeddings dense', keyword := postgresFts b keyword' } query := by
  have hdense : ∀ deep : FilteredQuery, deep.projectId = query.projectId →
      pgVector (S := S) b embeddings dense deep = pgVector b embeddings dense' deep := by
    intro deep hproject
    rw [← hproject] at h
    exact pgVector_congr h
  have hkeyword : ∀ deep : FilteredQuery, deep.projectId = query.projectId →
      postgresFts (S := S) b keyword deep = postgresFts b keyword' deep := by
    intro deep hproject
    rw [← hproject] at h'
    exact postgresFts_congr h'
  have hdeep : ∀ topK, (⟨⟨query.text, query.projectId, topK⟩, query.filters⟩ :
      FilteredQuery).projectId = query.projectId := fun _ => rfl
  simp only [HybridRetriever.retrieve, HybridRetriever.fetchK]
  rw [hdense _ (hdeep _), hkeyword _ (hdeep _)]

/-- **A search depends on the chunks of its project.** -/
theorem buildRetriever_congr (h : SameProject query.projectId dense dense')
    (h' : SameProject query.projectId keyword keyword') :
    buildRetriever b strategy embeddings dense keyword query =
      buildRetriever b strategy embeddings dense' keyword' query := by
  unfold buildRetriever
  split
  · exact postgresFts_congr h'
  · split
    · exact pgVector_congr h
    · split
      · set deep := defaultPolicy.plan (b.analyze query.text) query with hdeep
        have hproject : deep.projectId = query.projectId := rfl
        rw [← hproject] at h h'
        simp only [AdaptiveRetriever.retrieve]
        rw [← hdeep, pgVector_congr h, postgresFts_congr h']
      · exact hybrid_congr h h'

end Arms

end Tenancy
end EvidenceLab
