/-
# A fused result says how it came about

`to_evidence` reports the rank and the score that each arm has given a chunk, and the response of
an adaptive search the weights.  That is all there is to a fused score: it is the sum of the
shares of the two ranks (`Explained.score`).  A rank is reported iff the arm, searched alone and to
the depth of the request, has the chunk in that place (`Explained.semanticRank`,
`Explained.keywordRank`).
So a response can be checked against its own text, and the strategies compared by it.
-/

import EvidenceLab.Tenancy.Isolation

namespace EvidenceLab
namespace Tenancy

open Text Data EvidenceLab.Core Retrieval Ingest Evaluation Reasoning Runs

variable {V K : Type}

/-! ### What a response says -/

/-- What the rank in one arm adds to a fused score. -/
def share (weight : ℚ) (rank : Option ℕ) : ℚ :=
  rank.elim 0 fun rank => weight / ((rrfK : ℚ) + rank + 1)

/-- An arm that was searched alone has the chunk in this place, with this score. -/
def PlacedAt (arm : Except Exc (List RetrievedChunk)) (chunkId : Uuid) (rank : ℕ) (score : ℚ) :
    Prop :=
  ∃ hits hit, arm = .ok hits ∧ hits[rank]? = some hit ∧ hit.chunkId = chunkId ∧ hit.score = score

/-- The arms that have found an item, by the ranks that are reported. -/
def foundBy (item : EvidenceItem) : List RetrieverKind :=
  (item.semanticRank.map fun _ => .semantic).toList ++
    (item.keywordRank.map fun _ => .keyword).toList

/-- The item is what its ranks make it, and these are the ranks of the two arms. -/
structure Explained (semanticWeight keywordWeight : ℚ)
    (dense keyword : Except Exc (List RetrievedChunk)) (item : EvidenceItem) : Prop where
  score : item.score = share semanticWeight item.semanticRank + share keywordWeight item.keywordRank
  fusionScore : item.fusionScore = some item.score
  sources : item.retrievalSource = foundBy item
  found : foundBy item ≠ []
  semanticRank : ∀ rank, item.semanticRank = some rank ↔
    ∃ score, PlacedAt dense item.chunkId rank score
  semanticScore : ∀ rank score, (item.semanticRank = some rank ∧ item.semanticScore = some score) ↔
    PlacedAt dense item.chunkId rank score
  keywordRank : ∀ rank, item.keywordRank = some rank ↔
    ∃ score, PlacedAt keyword item.chunkId rank score
  keywordScore : ∀ rank score, (item.keywordRank = some rank ∧ item.keywordScore = some score) ↔
    PlacedAt keyword item.chunkId rank score

/-- The weights of a response: those of its profile, if it has one. -/
def SearchResponse.weights (response : SearchResponse) : ℚ × ℚ :=
  response.analysis.elim (1, 1) fun analysis =>
    (analysis.2.semanticWeight, analysis.2.keywordWeight)

/-- How deep its arms were searched. -/
def SearchResponse.depth (response : SearchResponse) : ℕ :=
  response.analysis.elim (max (response.topK * defaultFetchMultiplier) minFetchK) fun analysis =>
    response.topK * analysis.2.fetchMultiplier

/-! ### Two rankings -/

section Fused

variable {dense keyword fused : List RetrievedChunk} {semanticWeight keywordWeight : ℚ}
  {id : Uuid} {hit : RetrievedChunk}

/-- A chunk is found in the one place where it is. -/
theorem found_eq_some {ranking : List RetrievedChunk} (h : (ranking.map (·.chunkId)).Nodup)
    {rank : ℕ} : found id ranking = some (hit, rank) ↔
      ranking[rank]? = some hit ∧ hit.chunkId = id := by
  constructor
  · intro hfound
    have hmem := List.mem_of_find?_eq_some hfound
    have hid := List.find?_some hfound
    exact ⟨List.mk_mem_zipIdx_iff_getElem?.mp hmem, of_decide_eq_true hid⟩
  · rintro ⟨hplace, hid⟩
    have hmem : (hit, rank) ∈ ranking.zipIdx := List.mk_mem_zipIdx_iff_getElem?.mpr hplace
    have hnodup : (ranking.zipIdx.map fun entry => entry.1.chunkId).Nodup := by
      rwa [← List.zipIdx_map_fst 0 ranking, List.map_map] at h
    cases hfound : found id ranking with
    | none => exact absurd (List.find?_eq_none.mp hfound _ hmem) (by simp [hid])
    | some entry =>
        have hentry : entry.1.chunkId = id := by
          simpa using List.find?_some hfound
        rw [List.inj_on_of_nodup_map hnodup (List.mem_of_find?_eq_some hfound) hmem
          (hentry.trans hid.symm)]

/-- The contribution of an arm whose hits are all of one kind. -/
theorem placed_iff {ranking : List RetrievedChunk} (h : (ranking.map (·.chunkId)).Nodup)
    {rank : ℕ} {score : ℚ} :
    (((found id ranking).map fun entry => entry.2) = some rank ∧
      ((found id ranking).map fun entry => entry.1.score) = some score) ↔
      PlacedAt (.ok ranking) id rank score := by
  constructor
  · rintro ⟨hrank, hscore⟩
    obtain ⟨⟨hit, place⟩, hfound, rfl⟩ := Option.map_eq_some_iff.mp hrank
    rw [hfound] at hscore
    obtain ⟨hplace, hid⟩ := (found_eq_some h).mp hfound
    exact ⟨ranking, hit, rfl, hplace, hid, Option.some.inj hscore⟩
  · rintro ⟨hits, hit, hok, hplace, hid, rfl⟩
    obtain rfl := Except.ok.inj hok
    rw [(found_eq_some h).mpr ⟨hplace, hid⟩]
    exact ⟨rfl, rfl⟩

/-- Its rank alone. -/
theorem placed_rank_iff {ranking : List RetrievedChunk} (h : (ranking.map (·.chunkId)).Nodup)
    {rank : ℕ} : ((found id ranking).map fun entry => entry.2) = some rank ↔
      ∃ score, PlacedAt (.ok ranking) id rank score := by
  constructor
  · intro hrank
    obtain ⟨entry, hfound, -⟩ := Option.map_eq_some_iff.mp hrank
    exact ⟨entry.1.score, (placed_iff h).mp ⟨hrank, by rw [hfound]; rfl⟩⟩
  · rintro ⟨score, hplaced⟩
    exact ((placed_iff h).mpr hplaced).1

/-- What `to_evidence` makes of the contributions of two arms. -/
theorem toEvidence_contributions (hdense : ∀ hit ∈ dense, hit.retriever = .semantic)
    (hkeyword : ∀ hit ∈ keyword, hit.retriever = .keyword)
    (h : hit.contributions = [dense, keyword].filterMap fun ranking =>
      (found id ranking).map fun entry => ⟨entry.1.retriever, entry.2, entry.1.score⟩) :
    (toEvidence hit).semanticRank = (found id dense).map (·.2) ∧
    (toEvidence hit).semanticScore = (found id dense).map (·.1.score) ∧
    (toEvidence hit).keywordRank = (found id keyword).map (·.2) ∧
    (toEvidence hit).keywordScore = (found id keyword).map (·.1.score) ∧
    (toEvidence hit).retrievalSource = foundBy (toEvidence hit) := by
  have hkind : ∀ {ranking : List RetrievedChunk} {kind : RetrieverKind},
      (∀ hit ∈ ranking, hit.retriever = kind) → ∀ entry, found id ranking = some entry →
        entry.1.retriever = kind := by
    intro ranking kind hranking entry hfound
    exact hranking _ (List.fst_mem_of_mem_zipIdx (List.mem_of_find?_eq_some hfound))
  cases hd : found id dense with
  | none =>
      cases hk : found id keyword with
      | none => simp [toEvidence, foundBy, RetrievedChunk.contribution, h, hd, hk]
      | some entry =>
          have := hkind hkeyword entry hk
          simp [toEvidence, foundBy, RetrievedChunk.contribution, h, hd, hk, this]
  | some place =>
      have hplace := hkind hdense place hd
      cases hk : found id keyword with
      | none =>
          simp [toEvidence, foundBy, RetrievedChunk.contribution, h, hd, hk, hplace]
      | some entry =>
          have := hkind hkeyword entry hk
          simp [toEvidence, foundBy, RetrievedChunk.contribution, h, hd, hk, this,
            hplace]

/-- The score of a chunk in two rankings. -/
theorem rrfScore_pair :
    rrfScore rrfK ([dense, keyword].zip [semanticWeight, keywordWeight]) id =
      share semanticWeight ((found id dense).map (·.2)) +
        share keywordWeight ((found id keyword).map (·.2)) := by
  simp only [rrfScore, List.zip_cons_cons, List.zip_nil_right, List.filterMap_cons,
    List.filterMap_nil]
  cases found id dense <;> cases found id keyword <;> simp [share]

/-- **What two arms are fused to explains itself.** -/
theorem explained_of_fusion {weights : Option (List ℚ)}
    (hweights : weights.getD [1, 1] = [semanticWeight, keywordWeight])
    (hdense : (dense.map (·.chunkId)).Nodup) (hkeyword : (keyword.map (·.chunkId)).Nodup)
    (hsemantic : ∀ hit ∈ dense, hit.retriever = .semantic)
    (hlexical : ∀ hit ∈ keyword, hit.retriever = .keyword)
    (hfused : reciprocalRankFusion [dense, keyword] rrfK weights = .ok fused) :
    (∀ hit ∈ fused, Explained semanticWeight keywordWeight (.ok dense) (.ok keyword)
      (toEvidence hit)) ∧
    fused.map (·.rank) = List.range fused.length ∧
    fused.Pairwise fun a b => Before (a.chunkId, a.score) (b.chunkId, b.score) := by
  have hdup : ∀ r ∈ [dense, keyword], (r.map (·.chunkId)).Nodup := by
    intro r hr
    rcases List.mem_pair.mp hr with rfl | rfl
    · exact hdense
    · exact hkeyword
  obtain ⟨fused', hok, hfusion⟩ : ∃ fused', reciprocalRankFusion [dense, keyword] rrfK
      (some [semanticWeight, keywordWeight]) = .ok fused' ∧
      IsFusion rrfK [dense, keyword] [semanticWeight, keywordWeight] fused' :=
    isFusion_reciprocalRankFusion hdup (by decide) rfl
  have hsame : reciprocalRankFusion [dense, keyword] rrfK weights =
      reciprocalRankFusion [dense, keyword] rrfK (some (weights.getD [1, 1])) := by
    cases weights <;> rfl
  rw [hsame, hweights] at hfused
  obtain rfl := Except.ok.inj (hok.symm.trans hfused)
  refine ⟨fun hit hhit => ?_, hfusion.ranks, hfusion.sorted⟩
  obtain ⟨hscore, hfusionScore⟩ := hfusion.score hit hhit
  obtain ⟨hsrank, hsscore, hkrank, hkscore, hsources⟩ :=
    toEvidence_contributions hsemantic hlexical (hfusion.contributions hit hhit)
  refine ⟨?_, hfusionScore, hsources, ?_, fun rank => ?_, fun rank score => ?_, fun rank => ?_,
    fun rank score => ?_⟩
  · rw [hsrank, hkrank]
    exact hscore.trans rrfScore_pair
  · obtain ⟨r, hr, hmem⟩ := (hfusion.mem_iff hit.chunkId).mp (List.mem_map_of_mem hhit)
    obtain ⟨hit', hhit', hid⟩ := List.mem_map.mp hmem
    obtain ⟨place, hplace⟩ := List.mem_iff_getElem?.mp hhit'
    have hfound := (found_eq_some (hdup r hr)).mpr ⟨hplace, hid⟩
    rw [foundBy, hsrank, hkrank]
    rcases List.mem_pair.mp hr with rfl | rfl
    · simp [hfound]
    · simp [hfound]
  · rw [hsrank]
    exact placed_rank_iff hdense
  · rw [hsrank, hsscore]
    exact placed_iff hdense
  · rw [hkrank]
    exact placed_rank_iff hkeyword
  · rw [hkrank, hkscore]
    exact placed_iff hkeyword

end Fused

/-! ### Searches -/

section Searches

variable {b : Backend V} {embeddings : Option (EmbeddingPipeline V)} {query : FilteredQuery}
  {chunks : List (ChunkRecord V)} {hits : List RetrievedChunk} {hit : RetrievedChunk}

theorem retriever_pgVector (h : pgVector b embeddings chunks query = .ok hits) (hhit : hit ∈ hits) :
    hit.retriever = .semantic := by
  unfold pgVector at h
  cases embeddings with
  | none => cases h
  | some pipeline =>
      obtain ⟨vector, -, h⟩ := bind_eq_ok.mp h
      obtain rfl := Except.ok.inj h
      obtain ⟨row, rank, -, -, rfl⟩ := exists_row_of_ranked hhit
      rfl

theorem retriever_postgresFts (h : postgresFts b chunks query = .ok hits) (hhit : hit ∈ hits) :
    hit.retriever = .keyword := by
  obtain rfl := Except.ok.inj h
  obtain ⟨row, rank, -, -, rfl⟩ := exists_row_of_ranked hhit
  rfl

/-- A search of both arms, to any depth. -/
theorem explained_of_fusing {deep : FilteredQuery} {weights : Option (List ℚ)} {topK : ℕ}
    {semanticWeight keywordWeight : ℚ}
    (hweights : weights.getD [1, 1] = [semanticWeight, keywordWeight])
    (hkey : (chunks.map (·.id)).Nodup)
    (h : (do
      let denseHits ← pgVector b embeddings chunks deep
      let keywordHits ← postgresFts b chunks deep
      let fused ← reciprocalRankFusion [denseHits, keywordHits] rrfK weights
      return fused.take topK) = .ok hits) :
    (∀ hit ∈ hits, Explained semanticWeight keywordWeight (pgVector b embeddings chunks deep)
      (postgresFts b chunks deep) (toEvidence hit)) ∧
    hits.length ≤ topK ∧ hits.map (·.rank) = List.range hits.length ∧
    hits.Pairwise fun a b => Before (a.chunkId, a.score) (b.chunkId, b.score) := by
  obtain ⟨denseHits, hdense, h⟩ := bind_eq_ok.mp h
  obtain ⟨keywordHits, hkeyword, h⟩ := bind_eq_ok.mp h
  obtain ⟨fused, hfused, h⟩ := bind_eq_ok.mp h
  obtain rfl := Except.ok.inj h
  obtain ⟨hexplained, hranks, hsorted⟩ := explained_of_fusion hweights
    (scoped_pgVector hkey hdense).nodup (scoped_postgresFts hkey hkeyword).nodup
    (fun hit => retriever_pgVector hdense) (fun hit => retriever_postgresFts hkeyword) hfused
  rw [hdense, hkeyword]
  refine ⟨fun hit hhit => hexplained hit (List.mem_of_mem_take hhit), List.length_take_le _ _, ?_,
    hsorted.sublist (List.take_sublist _ _)⟩
  rw [List.map_take, hranks, List.length_take, List.take_range]

theorem buildRetriever_hybrid (b : Backend V) (embeddings : Option (EmbeddingPipeline V))
    (dense keyword : List (ChunkRecord V)) :
    buildRetriever b (strategyName .hybrid) embeddings dense keyword = HybridRetriever.retrieve
      { dense := pgVector b embeddings dense, keyword := postgresFts b keyword } := by
  rw [buildRetriever, if_neg (by decide), if_neg (by decide), if_neg (by decide)]

theorem buildRetriever_adaptive (b : Backend V) (embeddings : Option (EmbeddingPipeline V))
    (dense keyword : List (ChunkRecord V)) :
    buildRetriever b (strategyName .adaptive) embeddings dense keyword = AdaptiveRetriever.retrieve
      { dense := pgVector b embeddings dense, keyword := postgresFts b keyword,
        analyze := b.analyze, policy := defaultPolicy } := by
  rw [buildRetriever, if_neg (by decide), if_neg (by decide), if_pos (by decide)]

end Searches

/-- **A fused search explains itself.**  In every state that can be reached: a hybrid or adaptive
search has at most as many results as were asked for, in the order of their scores and numbered
by it; and each of them is explained by the ranks that it reports and the weights of the response,
the ranks being those of the two arms, searched alone. -/
theorem search_explained [Field K] [LinearOrder K] {b : Backend V} {log2 : ℕ → K}
    {chunkIdFor : Uuid → ℕ → Uuid} {es : List (Command V × (ℕ → ℕ))} {h : History (Tables V K)}
    (hrun : run (History.step (commit b log2 chunkIdFor)) ⟨{}, []⟩ es = some h) {s : Tables V K}
    (hs : s ∈ h.states) {principal : Principal} {embeddings : Option (EmbeddingPipeline V)}
    {request : SearchRequest} {response : SearchResponse}
    (hresponse : search b s principal embeddings request = .ok response)
    (hfused : request.strategy = .hybrid ∨ request.strategy = .adaptive) :
    let deep : FilteredQuery :=
      { text := request.query, projectId := request.projectId, topK := response.depth }
    (∀ item ∈ response.results, Explained response.weights.1 response.weights.2
      (pgVector b embeddings s.chunks deep) (postgresFts b s.chunks deep) item) ∧
    response.results.length ≤ request.topK ∧
    response.results.map (·.rank) = List.range response.results.length ∧
    response.results.Pairwise fun x y => Before (x.chunkId, x.score) (y.chunkId, y.score) := by
  have hkey := ((inv_of_run hrun).coherent s hs).keyed.chunks
  have hranks : ∀ {hits : List RetrievedChunk}, hits.map (·.rank) = List.range hits.length →
      (hits.map toEvidence).map (·.rank) = List.range (hits.map toEvidence).length := by
    intro hits hranks
    rw [List.map_map, List.length_map]
    exact hranks
  obtain ⟨project, hproject, hresponse⟩ := bind_eq_ok.mp hresponse
  obtain ⟨-, hid, -⟩ := of_getProject hproject
  obtain ⟨projectId, text, topK, strategy⟩ := request
  obtain rfl : project.id = projectId := hid
  dsimp only at hresponse hfused
  split at hresponse
  · cases hresponse
  · obtain ⟨hits, hhits, hresponse⟩ := bind_eq_ok.mp hresponse
    obtain rfl := Except.ok.inj hresponse
    rcases hfused with rfl | rfl
    · rw [buildRetriever_hybrid] at hhits
      obtain ⟨hexplained, hlength, hrank, hsorted⟩ := explained_of_fusing rfl hkey hhits
      refine ⟨List.forall_mem_map.mpr hexplained, ?_, hranks hrank, List.pairwise_map.mpr hsorted⟩
      rw [List.length_map]
      exact hlength
    · rw [buildRetriever_adaptive] at hhits
      obtain ⟨hexplained, hlength, hrank, hsorted⟩ := explained_of_fusing rfl hkey hhits
      refine ⟨List.forall_mem_map.mpr hexplained, ?_, hranks hrank, List.pairwise_map.mpr hsorted⟩
      rw [List.length_map]
      exact hlength

/-- A pipeline that embeds every query alike. -/
def sampleEmbeddings : EmbeddingPipeline ℕ := { modelId := [], embedQuery := fun _ => .ok 0 }

/-- A document whose one chunk is embedded, and another one whose chunk is not. -/
def embeddedCommands : List (Command ℕ × (ℕ → ℕ)) :=
  sampleCommands ++
    [(.embedDocument (sampleEmbed fun texts => .ok (texts.map fun _ => 7)) 0, fun _ => 0),
      (.upload ⟨2, 1⟩ 3 { sampleUpload with
        documentId := 8, stream := .ok [0x62], hexdigest := fun _ => [1] } 0, fun _ => 0),
      (.runIngestion { sampleIngest with documentId := 8, payload := .ok [0x62] } 0, fun _ => 0)]

/-- The first chunk, -/
def embeddedChunk : ChunkRecord ℕ where
  text := [0x61]
  ordinal := 0
  tokenCount := 1
  charStart := some 0
  charEnd := some 1
  id := 7000
  embedding := some 7
  embeddingModel := some "mistral-embed"
  documentId := 7
  projectId := 3
  organizationId := 1
  userId := some 2

/-- and the second one. -/
def plainChunk : ChunkRecord ℕ :=
  { embeddedChunk with
    text := [0x62], id := 8000, embedding := none, embeddingModel := none, documentId := 8 }

/-- What the arms are asked. -/
def sampleDeep : FilteredQuery := { text := [0x61], projectId := 3, topK := 30 }

/-- What the vector arm answers, -/
def denseHits : List RetrievedChunk :=
  retrieveWithVector sampleBackend [embeddedChunk, plainChunk] sampleDeep 0

/-- and the keyword arm. -/
def keywordHits : List RetrievedChunk :=
  [(embeddedChunk, 0), (plainChunk, 1)].map fun entry =>
    { text := entry.1.text
      score := 0
      retriever := .keyword
      provenance := entry.1.provenance
      rank := entry.2
      metadata := Dict.empty.set "fts_config" (some (lit "english".toList)) }

/-- Two ids are sorted by one comparison. -/
theorem mergeSort_pair {α : Type} (le : α → α → Bool) (x y : α) :
    [x, y].mergeSort le = if le x y then [x, y] else [y, x] := by
  simp [List.mergeSort, List.merge]

theorem postgresFts_keywordHits :
    postgresFts sampleBackend [embeddedChunk, plainChunk] sampleDeep = .ok keywordHits := by
  show Except.ok (((List.mergeSort [(embeddedChunk, (0 : ℚ)), (plainChunk, 0)] _).take _).zipIdx.map
    _) = _
  rw [mergeSort_pair]
  rfl

/-- The ranks that are reported of the two chunks. -/
theorem exists_fusedHits : ∃ hits, reciprocalRankFusion [denseHits, keywordHits] = .ok hits ∧
    hits.map (fun hit => ((toEvidence hit).semanticRank, (toEvidence hit).keywordRank)) =
      [(some 0, some 0), (none, some 1)] := by
  have hkeys : (fusionState rrfK ([denseHits, keywordHits].zip [1, 1])).exemplar.keys =
      [7000, 8000] := by
    decide +kernel
  have hfused : (reciprocalRankFusion [denseHits, keywordHits]).toOption.map (fun hits =>
      hits.map fun hit => ((toEvidence hit).semanticRank, (toEvidence hit).keywordRank)) =
        some [(some 0, some 0), (none, some 1)] := by
    rw [reciprocalRankFusion, if_neg (by decide +kernel), if_neg (by decide +kernel),
      if_neg (by decide +kernel)]
    show Option.map _ (Except.toOption ((List.mergeSort (fusionState rrfK
      ([denseHits, keywordHits].zip [1, 1])).exemplar.keys _).zipIdx.mapM _)) = _
    rw [hkeys, mergeSort_pair]
    decide +kernel
  obtain ⟨hits, hhits, hranks⟩ := Option.map_eq_some_iff.mp hfused
  exact ⟨hits, toOption_eq_some.mp hhits, hranks⟩

/-- Both arms have one chunk in the first place and the keyword arm alone has another one in the
second, and that makes their scores. -/
theorem search_explained_sample : ∃ h response, run sampleStep ⟨{}, []⟩ embeddedCommands = some h ∧
    search sampleBackend h.now ⟨2, 1⟩ (some sampleEmbeddings)
      { projectId := 3, query := [0x61], strategy := .hybrid } = .ok response ∧
    response.results.map (fun item => (item.semanticRank, item.keywordRank)) =
      [(some 0, some 0), (none, some 1)] ∧
    ∀ item ∈ response.results,
      item.score = share 1 item.semanticRank + share 1 item.keywordRank := by
  have hends : ∃ h ∈ run sampleStep ⟨{}, []⟩ embeddedCommands,
      h.now.chunks = [embeddedChunk, plainChunk] ∧
      ∃ project ∈ (getProject sampleBackend h.now ⟨2, 1⟩ 3).toOption, project.id = 3 := by
    decide +kernel
  obtain ⟨h, hrun, hchunks, project, hproject, hid⟩ := hends
  obtain ⟨hits, hfused, hranks⟩ := exists_fusedHits
  have hlength : hits.length ≤ 10 := by
    have hlength : hits.length = 2 := by simpa using congrArg List.length hranks
    omega
  have hok : search sampleBackend h.now ⟨2, 1⟩ (some sampleEmbeddings)
      { projectId := 3, query := [0x61], strategy := .hybrid } =
        .ok { query := [0x61], strategy := .hybrid, topK := 10, embeddingModel := some [],
              queryTerms := [], analysis := none, results := hits.map toEvidence } := by
    refine bind_eq_ok.mpr ⟨project, toOption_eq_some.mp hproject, ?_⟩
    rw [if_neg (by decide)]
    refine bind_eq_ok.mpr ⟨hits, ?_, rfl⟩
    rw [hid, buildRetriever_hybrid, hchunks]
    exact bind_eq_ok.mpr ⟨denseHits, rfl, bind_eq_ok.mpr ⟨keywordHits, postgresFts_keywordHits,
      bind_eq_ok.mpr ⟨hits, hfused, congrArg _ (List.take_of_length_le hlength)⟩⟩⟩
  refine ⟨h, _, hrun, hok, ?_, fun item hitem => ?_⟩
  · rw [List.map_map]
    exact hranks
  · exact ((search_explained hrun List.mem_cons_self hok (Or.inl rfl)).1 item hitem).score

end Tenancy
end EvidenceLab
