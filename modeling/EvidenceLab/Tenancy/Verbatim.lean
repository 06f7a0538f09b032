/-
# Answers quote what was uploaded

A hit has the text and the place of a chunk row, and fusion hands both on from one of its arms.
A citation is resolved to a hit, never to what the model wrote.  So, whatever has happened to a
site, and whatever a model answers, every citation of a response and every item of its evidence
is quoted from the file of a document of the project that was asked, and that is the
principal's (`responses_verbatim`).
-/

import EvidenceLab.Reasoning.Grounding
import EvidenceLab.Tenancy.Files
import EvidenceLab.Tenancy.Isolation

namespace EvidenceLab
namespace Tenancy

open Text Data EvidenceLab.Core Retrieval Ingest Evaluation Reasoning Runs Session

variable {V K : Type}

/-! ### Hits -/

/-- The hit has the text and the place of a chunk of the project. -/
def Copies (projectId : Uuid) (chunks : List (ChunkRecord V)) (hit : RetrievedChunk) : Prop :=
  ∃ c ∈ chunks, c.projectId = projectId ∧ hit.text = c.text ∧ hit.provenance = c.provenance

section Hits

variable {b : Backend V} {embeddings : Option (EmbeddingPipeline V)} {query : FilteredQuery}
  {strategy : Str} {chunks dense keyword : List (ChunkRecord V)} {hits : List RetrievedChunk}
  {hit : RetrievedChunk}

theorem copies_pgVector (h : pgVector b embeddings chunks query = .ok hits) (hhit : hit ∈ hits) :
    Copies query.projectId chunks hit := by
  unfold pgVector at h
  cases embeddings with
  | none => cases h
  | some pipeline =>
      obtain ⟨vector, -, h⟩ := bind_eq_ok.mp h
      obtain rfl := Except.ok.inj h
      obtain ⟨row, rank, hrow, hcolumn, rfl⟩ := exists_row_of_ranked hhit
      split at hcolumn
      · exact ⟨row.1, hrow, ‹_›, rfl, rfl⟩
      · cases hcolumn

theorem copies_postgresFts (h : postgresFts b chunks query = .ok hits) (hhit : hit ∈ hits) :
    Copies query.projectId chunks hit := by
  obtain rfl := Except.ok.inj h
  obtain ⟨row, rank, hrow, hcolumn, rfl⟩ := exists_row_of_ranked hhit
  split at hcolumn
  · rename_i hselected
    exact ⟨row.1, hrow, hselected.1, rfl, rfl⟩
  · cases hcolumn

/-- **Fusion hands on the text and the place of a hit of an arm.** -/
theorem exemplar_of_fusion {rankings : List (List RetrievedChunk)} {k : ℤ}
    {weights : Option (List ℚ)} (h : reciprocalRankFusion rankings k weights = .ok hits)
    (hhit : hit ∈ hits) : ∃ ranking ∈ rankings, ∃ exemplar ∈ ranking,
      hit.text = exemplar.text ∧ hit.provenance = exemplar.provenance := by
  simp only [reciprocalRankFusion] at h
  split at h
  · cases h
  · split at h
    · cases h
    · rw [if_neg (not_not.mpr (fitting_exact k rankings))] at h
      obtain ⟨entry, -, hfuse⟩ := exists_turn_of_mapM h hhit
      unfold FusionState.fuse at hfuse
      split at hfuse
      · cases hfuse
      · rename_i exemplar hexemplar
        obtain rfl := Except.ok.inj hfuse
        rw [get?_exemplar] at hexemplar
        obtain ⟨s, hs, rfl⟩ := List.mem_map.mp (List.mem_of_head? hexemplar)
        obtain ⟨arm, harm, hsighting⟩ := List.mem_flatMap.mp (List.mem_of_mem_filter hs)
        obtain ⟨place, hplace, rfl⟩ := List.mem_map.mp hsighting
        exact ⟨arm.1, (List.of_mem_zip harm).1, place.1, List.fst_mem_of_mem_zipIdx hplace, rfl,
          rfl⟩

/-- The hit is a copy of a chunk that one of the arms has seen. -/
def CopiesOf (projectId : Uuid) (dense keyword : List (ChunkRecord V)) (hit : RetrievedChunk) :
    Prop := Copies projectId dense hit ∨ Copies projectId keyword hit

theorem Copies.congr {projectId : Uuid} {exemplar : RetrievedChunk}
    (h : Copies projectId chunks exemplar) (htext : hit.text = exemplar.text)
    (hprovenance : hit.provenance = exemplar.provenance) : Copies projectId chunks hit := by
  obtain ⟨c, hc, hproject, htext', hprovenance'⟩ := h
  exact ⟨c, hc, hproject, htext.trans htext', hprovenance.trans hprovenance'⟩

/-- A search of both arms, whatever it asks them for in the project. -/
theorem copies_of_fusing {deep : FilteredQuery} {k : ℤ} {weights : Option (List ℚ)}
    (hproject : deep.projectId = query.projectId)
    (h : (do
      let denseHits ← pgVector b embeddings dense deep
      let keywordHits ← postgresFts b keyword deep
      let fused ← reciprocalRankFusion [denseHits, keywordHits] k weights
      return fused.take query.topK) = .ok hits) (hhit : hit ∈ hits) :
    CopiesOf query.projectId dense keyword hit := by
  obtain ⟨denseHits, hdense, h⟩ := bind_eq_ok.mp h
  obtain ⟨keywordHits, hkeyword, h⟩ := bind_eq_ok.mp h
  obtain ⟨fused, hfused, h⟩ := bind_eq_ok.mp h
  obtain rfl := Except.ok.inj h
  obtain ⟨ranking, hranking, exemplar, hexemplar, htext, hprovenance⟩ :=
    exemplar_of_fusion hfused (List.mem_of_mem_take hhit)
  rw [← hproject]
  rcases List.mem_pair.mp hranking with rfl | rfl
  · exact Or.inl ((copies_pgVector hdense hexemplar).congr htext hprovenance)
  · exact Or.inr ((copies_postgresFts hkeyword hexemplar).congr htext hprovenance)

/-- **Every hit of every strategy is a copy of a chunk of the project.** -/
theorem copies_buildRetriever
    (h : buildRetriever b strategy embeddings dense keyword query = .ok hits) (hhit : hit ∈ hits) :
    CopiesOf query.projectId dense keyword hit := by
  unfold buildRetriever at h
  split at h
  · exact Or.inr (copies_postgresFts h hhit)
  · split at h
    · exact Or.inl (copies_pgVector h hhit)
    · split at h
      · unfold AdaptiveRetriever.retrieve at h
        refine copies_of_fusing ?_ h hhit
        rfl
      · unfold HybridRetriever.retrieve at h
        refine copies_of_fusing ?_ h hhit
        rfl

end Hits

/-! ### Responses -/

/-- The passage of a hit. -/
def passage (hit : RetrievedChunk) : Quotation :=
  ⟨hit.text, hit.provenance.page, hit.provenance.charStart, hit.provenance.charEnd⟩

/-- The passage of a citation. -/
def citedPassage (ref : CitationRef) : Quotation := ⟨ref.text, ref.page, ref.charStart, ref.charEnd⟩

/-- The passage of an item of the evidence. -/
def itemPassage (item : EvidenceItem) : Quotation :=
  ⟨item.text, item.page, item.charStart, item.charEnd⟩

/-- A query that is answered has found its evidence in the project that was checked. -/
theorem exists_evidence_of_response {deps : TracedDeps} {request : QueryRequest}
    {response : QueryResponse} (h : (createQueryTraced deps request).1 = .ok response) :
    ∃ project evidence embeddingModel answer cost,
      deps.getProject request.projectId = .ok project ∧
      deps.retrieve request.strategy ⟨request.query, project, request.topK⟩ = .ok evidence ∧
      response = queryResponse deps.query request embeddingModel evidence answer cost := by
  unfold createQueryTraced at h
  cases hcheck : checkQuery deps.query request with
  | error e => rw [hcheck] at h; cases h
  | ok checked =>
      obtain ⟨project, generator⟩ := checked
      obtain ⟨project', hproject, hrest⟩ := bind_eq_ok.mp hcheck
      obtain ⟨generator', -, hpair⟩ := bind_eq_ok.mp hrest
      obtain ⟨rfl, rfl⟩ := Prod.mk.inj (Except.ok.inj hpair)
      obtain ⟨t, span, hretrieve, -⟩ := retrieveTraced_spec deps request project'
      simp only [hcheck, runTraced, hretrieve] at h
      have hfailed : ∀ {model embeddingModel found t e},
          (saveFailed (α := QueryResponse) deps request project' model embeddingModel found t e).1 ≠
            .ok response := by
        intro model embeddingModel found t e h
        unfold saveFailed saving at h
        split at h
        · cases h
        · obtain ⟨-, -, h⟩ := bind_eq_ok.mp h
          cases h
      cases hr : deps.retrieve request.strategy ⟨request.query, project', request.topK⟩ with
      | error e =>
          simp only [hr] at h
          exact absurd h hfailed
      | ok evidence =>
          obtain ⟨t', span', hgenerate, -⟩ :=
            generateTraced_spec deps request generator' evidence t
          simp only [hr, hgenerate] at h
          cases hg : generator'.generate request.query evidence ⟨0, deps.maxOutputTokens⟩ with
          | error e =>
              simp only [hg] at h
              exact absurd h hfailed
          | ok answer =>
              simp only [hg] at h
              cases hcost : estimateCost deps.inputRate deps.outputRate answer.usage.inputTokens
                  answer.usage.outputTokens with
              | error e =>
                  simp only [hcost] at h
                  exact absurd h hfailed
              | ok cost =>
                  simp only [hcost] at h
                  obtain ⟨-, -, h⟩ := bind_eq_ok.mp h
                  exact ⟨project', evidence, _, answer, _, hproject, hr, (Except.ok.inj h).symm⟩

/-- A citation is of a hit of the evidence. -/
theorem mem_of_claimRead {evidence : List RetrievedChunk} {claim : Claim} {ref : CitationRef}
    (h : ref ∈ (claimRead evidence claim).evidence) : ∃ hit ∈ evidence, ref = citation hit := by
  obtain ⟨id, -, hid⟩ := List.mem_filterMap.mp h
  obtain ⟨hit, hget, rfl⟩ := Option.map_eq_some_iff.mp hid
  refine ⟨hit, ?_, rfl⟩
  have hfold : (byId evidence).get? id =
      (Dict.turns (·.chunkId) evidence id).foldl (fun _ hit => some hit) none :=
    Dict.get?_foldl_alter (fun hit : RetrievedChunk => hit.chunkId) (fun _ hit => hit) evidence
      Dict.empty id
  have hkey : id ∈ evidence.map (·.chunkId) := by
    by_contra hnot
    have hnil : Dict.turns (·.chunkId) evidence id = [] := by
      refine List.filter_eq_nil_iff.mpr fun hit hhit hid => hnot ?_
      rw [← of_decide_eq_true hid]
      exact List.mem_map_of_mem hhit
    rw [hfold, hnil] at hget
    cases hget
  obtain ⟨hit', hhit', -, hget'⟩ := get?_byId hkey
  rwa [← Option.some.inj (hget'.symm.trans hget)]

/-! ### Verbatim -/

section Verbatim

variable {dep : Deployment V K} {site : Site V K} {principal : Principal} {projectId : Uuid}

/-- **The passage is quoted from the file that was uploaded** as the document with this id: a
document of the project, which is the principal's, whose row has the hash of the file.  The file is
still there, unless it has been deleted. -/
def Site.Verbatim (dep : Deployment V K) (site : Site V K) (principal : Principal)
    (projectId documentId : Uuid) (q : Quotation) : Prop :=
  ∃ d ∈ site.db.now.documents, d.id = documentId ∧ d.projectId = projectId ∧
    d.organizationId = principal.organizationId ∧
    ∃ data, site.objects.get? d.storageKey = some data ∧
      (d.storageKey ∈ site.deleted ∨ site.stored d.storageKey = some data) ∧
      d.contentHash = dep.hexdigest data ∧ q.From dep.pypdf d.mimeType data

/-- A copy of a chunk, as it was in any state, is quoted from the file of its document. -/
theorem Site.Sound.verbatim_of_copies (hs : site.Sound dep) {s : Tables V K}
    (hstate : s ∈ site.db.states) {hit : RetrievedChunk} (hcopies : Copies projectId s.chunks hit)
    (howner : (projectId, principal.organizationId) ∈ site.db.now.owners) :
    site.Verbatim dep principal projectId hit.provenance.documentId (passage hit) := by
  obtain ⟨c, hc, rfl, htext, hprovenance⟩ := hcopies
  obtain ⟨f, hf, hid, data, hdata, hquoted⟩ := hs.quoted s hstate c hc
  have hnow := hs.kept s hstate hf
  obtain ⟨d, hd, rfl⟩ := List.mem_map.mp hnow
  -- The row of the document is where the chunk says.
  have hplace : (d.id, c.projectId, c.organizationId) ∈ site.db.now.places := by
    rw [show d.id = c.documentId from hid]
    exact (hs.inv.grows s hstate).places ((hs.inv.coherent s hstate).chunks c hc)
  have hsame := hs.inv.now.keyed.place_unique (List.mem_map_of_mem hd) hplace
  have hproject : d.projectId = c.projectId := congrArg Prod.fst hsame
  obtain ⟨data', hdata', hhash, -⟩ := hs.filed _ hnow
  obtain rfl := Option.some.inj (hdata.symm.trans hdata')
  have hpassage : passage hit = c.quotation := by
    rw [passage, htext, hprovenance]
    rfl
  refine ⟨d, hd, ?_, hproject, hs.inv.now.document_owner howner hd hproject, data, hdata, ?_,
    hhash, ?_⟩
  · rw [hprovenance]
    exact hid
  · by_cases hdeleted : d.storageKey ∈ site.deleted
    · exact Or.inl hdeleted
    · refine Or.inr ?_
      rw [Site.stored, if_neg hdeleted]
      exact hdata
  · rw [hpassage]
    exact hquoted

/-- So is every hit of a search, whichever states its arms have seen. -/
theorem Site.Sound.verbatim_of_search (hs : site.Sound dep) {s s' : Tables V K}
    (hstate : s ∈ site.db.states) (hstate' : s' ∈ site.db.states) {strategy : Str}
    {embeddings : Option (EmbeddingPipeline V)} {query : FilteredQuery}
    (howner : (query.projectId, principal.organizationId) ∈ site.db.now.owners)
    {hits : List RetrievedChunk}
    (hhits : buildRetriever dep.backend strategy embeddings s.chunks s'.chunks query = .ok hits)
    {hit : RetrievedChunk} (hhit : hit ∈ hits) :
    site.Verbatim dep principal query.projectId hit.provenance.documentId (passage hit) := by
  rcases copies_buildRetriever hhits hhit with hcopies | hcopies
  · exact hs.verbatim_of_copies hstate hcopies howner
  · exact hs.verbatim_of_copies hstate' hcopies howner

variable [Field K] [LinearOrder K]

/-- **Answers quote what was uploaded.**  In every site that can be reached, by any interleaving
of uploads, deletions of files, jobs and requests: whatever a query sees of the database, and
whatever the model answers, every citation of the response and every item of its evidence is
verbatim; and so is every result of a search. -/
theorem responses_verbatim {actions : List (Action V)}
    (hrun : run (Site.step dep) {} actions = some site) (principal : Principal) :
    (∀ snapshot embeddings deps request response,
      (createQueryTraced (queryDeps dep.backend principal (site.db.seen snapshot) embeddings deps)
        request).1 = .ok response →
      (∀ claim ∈ response.claims, ∀ ref ∈ claim.evidence,
        site.Verbatim dep principal request.projectId ref.documentId (citedPassage ref)) ∧
      ∀ item ∈ response.evidence,
        site.Verbatim dep principal request.projectId item.documentId (itemPassage item)) ∧
    ∀ s ∈ site.db.states, ∀ embeddings request response,
      search dep.backend s principal embeddings request = .ok response →
      ∀ item ∈ response.results,
        site.Verbatim dep principal request.projectId item.documentId (itemPassage item) := by
  have hs := Site.sound_of_run hrun
  constructor
  · intro snapshot embeddings deps request response hresponse
    obtain ⟨project, evidence, embeddingModel, answer, cost, hproject, hevidence, rfl⟩ :=
      exists_evidence_of_response hresponse
    obtain ⟨rfl, howner⟩ := owner_of_getProjectScope hproject
    have hhit : ∀ hit ∈ evidence,
        site.Verbatim dep principal request.projectId hit.provenance.documentId (passage hit) :=
      fun hit => hs.verbatim_of_search (site.db.seen_mem snapshot 1) (site.db.seen_mem snapshot 2)
        (hs.inv.owner_now (site.db.seen_mem snapshot 0) howner) hevidence
    constructor
    · intro claim hclaim ref href
      obtain ⟨_, -, rfl⟩ := List.mem_map.mp hclaim
      obtain ⟨hit, hmem, rfl⟩ := mem_of_claimRead href
      exact hhit hit hmem
    · intro item hitem
      simp only [queryResponse] at hitem
      split at hitem
      · obtain ⟨hit, hmem, rfl⟩ := List.mem_map.mp hitem
        exact hhit hit hmem
      · exact absurd hitem List.not_mem_nil
  · intro s hstate embeddings request response hresponse item hitem
    obtain ⟨project, hproject, hresponse⟩ := bind_eq_ok.mp hresponse
    obtain ⟨hmem, hid, horganization⟩ := of_getProject hproject
    have howner : (request.projectId, principal.organizationId) ∈ s.owners := by
      rw [← hid, ← horganization]
      exact List.mem_map_of_mem hmem
    split at hresponse
    · cases hresponse
    · obtain ⟨hits, hhits, hresponse⟩ := bind_eq_ok.mp hresponse
      obtain rfl := Except.ok.inj hresponse
      obtain ⟨hit, hhit, rfl⟩ := List.mem_map.mp hitem
      have hproject : (request.inProject project.id).projectId = request.projectId := hid
      rw [← hproject] at howner ⊢
      exact hs.verbatim_of_search hstate hstate (hs.inv.owner_now hstate howner) hhits hhit

end Verbatim

/-- A deployment without a library for PDFs, that hashes every file to nothing. -/
def sampleDeployment : Deployment ℕ ℚ where
  backend := sampleBackend
  log2 n := Nat.log2 n
  chunkIdFor := sampleIds
  pypdf _ := .error .pdfReadError
  hexdigest _ := []
  objectNotFound _ := ⟨.storage, "Object not found", .storageFailed, []⟩

/-- A project, a document in it that is ingested, and between the two its file, which is deleted
in the end. -/
def sampleActions : List (Action ℕ) :=
  [.transact (.createProject ⟨2, 1⟩ { name := [] } 3 0) fun _ => 0,
    .put 3 sampleUpload,
    .transact (.upload ⟨2, 1⟩ 3 sampleUpload 0) fun _ => 0,
    .transact (.runIngestion sampleIngest 0) fun _ => 0,
    .delete (storageKeyOf 3 sampleUpload.documentId)]

/-- A search in it, without a provider. -/
def sampleSearch : SearchRequest := { projectId := 3, query := [0x61], strategy := .keyword }

/-- The search finds the text that the file had. -/
theorem responses_verbatim_sample : ∃ site response,
    run (Site.step sampleDeployment) {} sampleActions = some site ∧
    search sampleBackend site.db.now ⟨2, 1⟩ none sampleSearch = .ok response ∧
    response.results.map (·.text) = [[0x61]] ∧
    ∀ item ∈ response.results,
      site.Verbatim sampleDeployment ⟨2, 1⟩ 3 item.documentId (itemPassage item) := by
  have hfound : ∃ site ∈ run (Site.step sampleDeployment) {} sampleActions,
      ∃ results ∈ (search sampleBackend site.db.now ⟨2, 1⟩ none sampleSearch).toOption.map
        (·.results), results.map (·.text) = [[0x61]] := by
    decide +kernel
  obtain ⟨site, hrun, results, hresults, htexts⟩ := hfound
  obtain ⟨response, hresponse, rfl⟩ := Option.map_eq_some_iff.mp hresults
  have hok := toOption_eq_some.mp hresponse
  refine ⟨site, response, hrun, hok, htexts, ?_⟩
  exact (responses_verbatim hrun ⟨2, 1⟩).2 site.db.now List.mem_cons_self none sampleSearch
    response hok

end Tenancy
end EvidenceLab
