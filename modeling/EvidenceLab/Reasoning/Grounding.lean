/-
# Every answer is grounded

A citation passes through index parsing, range check, deduplication, a map to
ids and a map back to passages, and two summaries of it are stored on the trace.
All of them agree because of two facts about an answer that `generate` returns
(`Answerable`): a claim cites no chunk twice, and only chunks of the evidence.
The first is the invariant of the loop of `_resolve_evidence`, the second holds
by the type of its indices.  Where the ids of the evidence are distinct, mapping
back loses nothing (`map_chunkId_claimRead`).
-/

import EvidenceLab.Reasoning.Query

namespace EvidenceLab
namespace Reasoning

open Text Data EvidenceLab.Core

variable {render : Json → Str} {evidence : List RetrievedChunk}

/-! ### What `generate` returns -/

/-- Citations of chunks of the evidence, each once. -/
def CitesOnly (evidence : List RetrievedChunk) (ids : List Uuid) : Prop :=
  ids.Nodup ∧ ∀ id ∈ ids, id ∈ evidence.map (·.chunkId)

/-- An answer whose claims cite chunks of the evidence, each once. -/
def Answerable (evidence : List RetrievedChunk) (answer : GeneratedAnswer) : Prop :=
  ∀ claim ∈ answer.claims, CitesOnly evidence claim.evidence

/-- The loop keeps the indices distinct. -/
theorem nodup_resolveLoop {n : ℕ} {values : List Json} {seen : List (Fin n)} {invented : ℕ}
    {r : List (Fin n) × ℕ} (hseen : seen.Nodup)
    (h : resolveLoop n values seen invented = .ok r) : r.1.Nodup := by
  induction values generalizing seen invented with
  | nil =>
      rw [← Except.ok.inj h]
      exact hseen
  | cons value rest ih =>
      rw [resolveLoop] at h
      cases hv : citedIndex n value with
      | error e => rw [hv] at h; cases h
      | ok cited =>
          rw [hv] at h
          cases cited with
          | none => exact ih hseen h
          | some index =>
              dsimp only at h
              split_ifs at h with hmem
              · exact ih hseen h
              · refine ih (hseen.append (List.nodup_singleton index) ?_) h
                exact List.disjoint_singleton.mpr hmem

/-- What `_resolve_evidence` returns: nothing for what is no list, and for a list
the passages of the loop. -/
theorem resolveEvidence_eq_ok {raw : Option Json} {r : List Uuid × ℕ}
    (h : resolveEvidence raw evidence = .ok r) : r = ([], 0) ∨ ∃ values seen invented,
      raw = some (.list values) ∧ resolveLoop evidence.length values [] 0 = .ok (seen, invented) ∧
      r = (seen.map fun index => (evidence.get index).chunkId, invented) := by
  unfold resolveEvidence at h
  split at h
  · rename_i values
    cases hl : resolveLoop evidence.length values [] 0 with
    | error e => rw [hl] at h; cases h
    | ok p =>
        rw [hl] at h
        exact Or.inr ⟨values, p.1, p.2, rfl, hl, (Except.ok.inj h).symm⟩
  · exact Or.inl (Except.ok.inj h).symm

/-- Passages with distinct ids are told apart by their ids. -/
theorem chunkId_injective (hnd : (evidence.map (·.chunkId)).Nodup) :
    Function.Injective fun index : Fin evidence.length => (evidence.get index).chunkId := by
  intro i j hij
  have hi : i.val < (evidence.map (·.chunkId)).length := by simp
  have hj : j.val < (evidence.map (·.chunkId)).length := by simp
  refine Fin.ext ((@List.Nodup.getElem_inj_iff _ _ hnd _ hi _ hj).mp ?_)
  simpa using hij

/-- Resolved citations are passages. -/
theorem resolveEvidence_subset {raw : Option Json} {r : List Uuid × ℕ}
    (h : resolveEvidence raw evidence = .ok r) : ∀ id ∈ r.1, id ∈ evidence.map (·.chunkId) := by
  rcases resolveEvidence_eq_ok h with rfl | ⟨values, seen, invented, -, -, rfl⟩
  · exact fun id hid => absurd hid List.not_mem_nil
  · intro id hid
    obtain ⟨index, -, rfl⟩ := List.mem_map.mp hid
    exact List.mem_map_of_mem (List.get_mem evidence index)

/-- **Each passage is resolved once.** -/
theorem resolveEvidence_nodup {raw : Option Json} {r : List Uuid × ℕ}
    (hnd : (evidence.map (·.chunkId)).Nodup) (h : resolveEvidence raw evidence = .ok r) :
    r.1.Nodup := by
  rcases resolveEvidence_eq_ok h with rfl | ⟨values, seen, invented, -, hl, rfl⟩
  · exact List.nodup_nil
  · exact (nodup_resolveLoop List.nodup_nil hl).map (chunkId_injective hnd)

/-- What holds of everything `_resolve_evidence` resolves holds of every claim. -/
theorem parseClaims_forall {P : List Uuid → Prop}
    (hP : ∀ raw r, resolveEvidence raw evidence = .ok r → P r.1) {raws : List Json}
    {r : List Claim × ℕ} (h : parseClaims render evidence raws = .ok r) :
    ∀ claim ∈ r.1, P claim.evidence := by
  induction raws generalizing r with
  | nil =>
      rw [← Except.ok.inj h]
      exact fun claim hc => absurd hc List.not_mem_nil
  | cons raw rest ih =>
      rw [parseClaims] at h
      dsimp only at h
      split_ifs at h
      · exact ih h
      · obtain ⟨cited, hcited, h⟩ := bind_eq_ok.mp h
        obtain ⟨tail, htail, h⟩ := bind_eq_ok.mp h
        obtain rfl := Except.ok.inj h
        intro claim hc
        rcases List.mem_cons.mp hc with rfl | hc
        · exact hP _ _ hcited
        · exact ih htail claim hc
      · exact ih h

/-- What `_parse` accepts: the claims it parsed are those of the answer. -/
theorem parse_eq_ok {modelId : Str} {payload : Json} {usage : TokenUsage}
    {answer : GeneratedAnswer} (h : parse render modelId payload evidence usage = .ok answer) :
    ∃ raws claims dropped, Json.iterate (payload.get? claimsKey) = .ok raws ∧
      parseClaims render evidence raws = .ok (claims, dropped) ∧
      answer = { text := strip isSpace (Json.toStr render (payload.get? answerKey))
                 claims
                 abstained := (payload.get? abstainedKey).elim false Json.truthy
                 modelId
                 usage
                 metadata := { evidenceCount := some evidence.length
                               inventedCitations := some dropped } } := by
  rw [parse] at h
  split_ifs at h
  obtain ⟨raws, hraws, h⟩ := bind_eq_ok.mp h
  obtain ⟨⟨claims, dropped⟩, hclaims, h⟩ := bind_eq_ok.mp h
  refine ⟨raws, claims, dropped, hraws, hclaims, ?_⟩
  dsimp only at h
  split_ifs at h
  · cases h
  · exact (Except.ok.inj h).symm

/-- **Every answer of the generator is answerable for its citations.** -/
theorem generate_answerable {model : ChatModel} {temperature : ℚ} {query : Str}
    {budget : InferenceBudget} {answer : GeneratedAnswer}
    (hnd : (evidence.map (·.chunkId)).Nodup)
    (h : generate render model temperature query evidence budget = .ok answer) :
    Answerable evidence answer := by
  cases evidence with
  | nil =>
      rw [← Except.ok.inj h]
      exact fun claim hc => absurd hc List.not_mem_nil
  | cons hit rest =>
      obtain ⟨⟨payload, usage⟩, -, h⟩ := bind_eq_ok.mp h
      obtain ⟨raws, claims, dropped, -, hclaims, rfl⟩ := parse_eq_ok h
      exact parseClaims_forall (P := CitesOnly (hit :: rest))
        (fun _ _ h => ⟨resolveEvidence_nodup hnd h, resolveEvidence_subset h⟩) hclaims

/-! ### From ids back to passages -/

/-- The dictionary of the evidence finds a passage for each of its ids. -/
theorem get?_byId {id : Uuid} (h : id ∈ evidence.map (·.chunkId)) :
    ∃ hit ∈ evidence, hit.chunkId = id ∧ (byId evidence).get? id = some hit := by
  have hget : (byId evidence).get? id =
      (Dict.turns (·.chunkId) evidence id).foldl (fun _ hit => some hit) none :=
    Dict.get?_foldl_alter (fun hit : RetrievedChunk => hit.chunkId) (fun _ hit => hit) evidence
      Dict.empty id
  obtain ⟨hit, hhit, hid⟩ := List.mem_map.mp h
  have hne : Dict.turns (·.chunkId) evidence id ≠ [] :=
    List.ne_nil_of_mem (List.mem_filter.mpr ⟨hhit, decide_eq_true hid⟩)
  obtain ⟨front, last, hcut⟩ := List.eq_nil_or_concat (Dict.turns (·.chunkId) evidence id)
    |>.resolve_left hne
  have hlast : last ∈ Dict.turns (·.chunkId) evidence id := by simp [hcut]
  obtain ⟨hmem, hkey⟩ := List.mem_filter.mp hlast
  refine ⟨last, hmem, of_decide_eq_true hkey, ?_⟩
  rw [hget, hcut, List.concat_eq_append, List.foldl_append, List.foldl_cons, List.foldl_nil]

/-- **Mapping back loses no citation.** -/
theorem map_chunkId_claimRead {claim : Claim} (h : CitesOnly evidence claim.evidence) :
    (claimRead evidence claim).evidence.map (·.chunkId) = claim.evidence := by
  have hall : ∀ ids : List Uuid, (∀ id ∈ ids, id ∈ evidence.map (·.chunkId)) →
      (ids.filterMap fun id => ((byId evidence).get? id).map citation).map (·.chunkId) = ids := by
    intro ids
    induction ids with
    | nil => exact fun _ => rfl
    | cons id ids ih =>
        intro hids
        obtain ⟨hit, -, hid, hget⟩ := get?_byId (hids id (List.mem_cons_self ..))
        rw [List.filterMap_cons, hget]
        show (citation hit).chunkId :: _ = _
        rw [ih fun id' h' => hids id' (List.mem_cons_of_mem _ h')]
        exact congrArg (· :: ids) hid
  exact hall claim.evidence h.2

/-- A citation is that of a passage. -/
theorem mem_claimRead {claim : Claim} {ref : CitationRef}
    (h : ref ∈ (claimRead evidence claim).evidence) (hc : CitesOnly evidence claim.evidence) :
    ∃ hit ∈ evidence, ref = citation hit := by
  obtain ⟨id, hid, href⟩ := List.mem_filterMap.mp h
  obtain ⟨hit, hmem, -, hget⟩ := get?_byId (hc.2 id hid)
  rw [hget] at href
  exact ⟨hit, hmem, (Option.some.inj href).symm⟩

theorem claimRead_evidence_eq_nil {claim : Claim} (h : CitesOnly evidence claim.evidence) :
    (claimRead evidence claim).evidence = [] ↔ claim.isSupported = false := by
  have hmap := map_chunkId_claimRead h
  rw [Claim.isSupported, Bool.not_eq_false', List.isEmpty_iff]
  constructor
  · intro hnil
    rw [hnil] at hmap
    exact hmap.symm
  · intro hnil
    rw [hnil] at hmap
    exact List.map_eq_nil_iff.mp hmap

/-! ### The summaries on the trace -/

theorem citedChunkIds_eq (answer : GeneratedAnswer) : answer.citedChunkIds =
    ((answer.claims.flatMap (·.evidence)).foldl (fun seen id => seen.setDefault id ())
      (Dict.empty : Dict Uuid Unit)).keys := by
  rw [GeneratedAnswer.citedChunkIds, List.foldl_flatMap]

theorem nodup_citedChunkIds (answer : GeneratedAnswer) : answer.citedChunkIds.Nodup :=
  Dict.nodup_keys _

theorem mem_citedChunkIds {answer : GeneratedAnswer} {id : Uuid} :
    id ∈ answer.citedChunkIds ↔ ∃ claim ∈ answer.claims, id ∈ claim.evidence := by
  rw [citedChunkIds_eq]
  have := @Dict.mem_keys_foldl_alter _ Unit _ _ (fun id : Uuid => id) (fun o _ => o.getD ())
    (answer.claims.flatMap (·.evidence)) Dict.empty id
  rw [List.map_id', Dict.keys_empty] at this
  refine this.trans ?_
  simp [List.mem_flatMap]

/-! ### Grounding -/

/-- What it is for a response and the trace stored with it to be grounded in the
evidence. -/
structure IsGrounded (evidence : List RetrievedChunk) (response : QueryResponse)
    (trace : TraceRow) : Prop where
  citation : ∀ claim ∈ response.claims, ∀ ref ∈ claim.evidence, ∃ hit ∈ evidence,
    ref.chunkId = hit.provenance.chunkId ∧ ref.documentId = hit.provenance.documentId ∧
    ref.page = hit.provenance.page ∧ ref.charStart = hit.provenance.charStart ∧
    ref.charEnd = hit.provenance.charEnd ∧ ref.text = hit.text
  supported : ∀ claim ∈ response.claims, claim.supported = true ↔ claim.evidence ≠ []
  unsupported : response.unsupportedClaims =
    (response.claims.filter fun claim => decide (claim.evidence = [])).length
  once : ∀ claim ∈ response.claims, (claim.evidence.map (·.chunkId)).Nodup
  nodup : trace.citedChunkIds.Nodup
  cited_iff : ∀ id, id ∈ trace.citedChunkIds ↔ ∃ claim ∈ trace.claims, id.str ∈ claim.evidence
  stored : ∀ claim ∈ trace.claims, ∀ s ∈ claim.evidence, ∃ id ∈ trace.citedChunkIds, id.str = s
  subset : ∀ id ∈ trace.citedChunkIds, id ∈ trace.retrievedChunkIds

/-- An answerable answer gives a grounded response and trace. -/
theorem isGrounded_of_answerable {answer : GeneratedAnswer} (h : Answerable evidence answer)
    (deps : QueryDeps) (request : QueryRequest) (project : Uuid) (embeddingModel : Option Str)
    (cost : Option Float64) :
    IsGrounded evidence (queryResponse deps request embeddingModel evidence answer cost)
      (answeredTrace deps request project embeddingModel evidence answer cost) := by
  have hclaims : ∀ read ∈ answer.claims.map (claimRead evidence),
      ∃ claim ∈ answer.claims, claimRead evidence claim = read := fun read hr => List.mem_map.mp hr
  refine ⟨?_, ?_, ?_, ?_, nodup_citedChunkIds answer, ?_, ?_, ?_⟩
  · intro read hr ref href
    obtain ⟨claim, hc, rfl⟩ := hclaims read hr
    obtain ⟨hit, hmem, rfl⟩ := mem_claimRead href (h claim hc)
    exact ⟨hit, hmem, rfl, rfl, rfl, rfl, rfl, rfl⟩
  · intro read hr
    obtain ⟨claim, hc, rfl⟩ := hclaims read hr
    rw [Ne, claimRead_evidence_eq_nil (h claim hc), Bool.not_eq_false]
    rfl
  · show (answer.claims.filter fun claim => !claim.isSupported).length = _
    rw [show (queryResponse deps request embeddingModel evidence answer cost).claims =
      answer.claims.map (claimRead evidence) from rfl, List.filter_map, List.length_map]
    congr 1
    refine List.filter_congr fun claim hc => ?_
    simp [claimRead_evidence_eq_nil (h claim hc)]
  · intro read hr
    obtain ⟨claim, hc, rfl⟩ := hclaims read hr
    rw [map_chunkId_claimRead (h claim hc)]
    exact (h claim hc).1
  · intro id
    refine mem_citedChunkIds.trans ?_
    simp only [answeredTrace, List.mem_map, exists_exists_and_eq_and, storedClaim]
    refine exists_congr fun claim => and_congr_right fun _ => ?_
    constructor
    · exact fun hid => ⟨id, hid, rfl⟩
    · rintro ⟨id', hid', hs⟩
      exact Uuid.str_injective hs ▸ hid'
  · intro stored hs s hmem
    obtain ⟨claim, hc, rfl⟩ := List.mem_map.mp hs
    obtain ⟨id, hid, rfl⟩ := List.mem_map.mp hmem
    exact ⟨id, mem_citedChunkIds.mpr ⟨claim, hc, hid⟩, rfl⟩
  · intro id hid
    obtain ⟨claim, hc, hid⟩ := mem_citedChunkIds.mp hid
    exact (h claim hc).2 id hid

/-- The checks pass on the project they found and the generator they were given. -/
theorem checkQuery_eq_ok {deps : QueryDeps} {request : QueryRequest} {project : Uuid}
    {generator : AnswerGenerator} (h : checkQuery deps request = .ok (project, generator)) :
    deps.getProject request.projectId = .ok project ∧ deps.generator = some generator := by
  obtain ⟨p, hp, h⟩ := bind_eq_ok.mp h
  obtain ⟨g, hg, h⟩ := bind_eq_ok.mp h
  obtain ⟨rfl, rfl⟩ := Prod.mk.inj (Except.ok.inj h)
  refine ⟨hp, ?_⟩
  rw [checkProviders] at hg
  cases hgen : deps.generator with
  | none => rw [hgen] at hg; cases hg
  | some generator =>
      rw [hgen] at hg
      dsimp only at hg
      split_ifs at hg
      exact congrArg some (Except.ok.inj hg)

/-- An execution that raised a domain error gives no response. -/
theorem withFailedTrace_ne_ok {α : Type} (deps : QueryDeps) (request : QueryRequest)
    (project : Uuid) (model : Str) (embeddingModel : Option Str) (e : Exc) (a : α) :
    (withFailedTrace deps request project model embeddingModel evidence e).1 ≠ .ok a := by
  rw [withFailedTrace]
  cases e.domain? with
  | none => exact fun h => by cases h
  | some d =>
      dsimp only [withTrace]
      cases deps.commitTrace _ <;> exact fun h => by cases h

/-- **A request that is answered** had its evidence retrieved, its answer generated
and its trace committed. -/
theorem createQuery_eq_ok {deps : QueryDeps} {request : QueryRequest} {response : QueryResponse}
    (h : (createQuery deps request).1 = .ok response) :
    ∃ project generator embeddingModel evidence answer cost,
      deps.getProject request.projectId = .ok project ∧ deps.generator = some generator ∧
      deps.retrieve request.strategy ⟨request.query, project, request.topK⟩ = .ok evidence ∧
      generator.generate request.query evidence ⟨0, deps.maxOutputTokens⟩ = .ok answer ∧
      response = queryResponse deps request embeddingModel evidence answer cost ∧
      (createQuery deps request).2 =
        [answeredTrace deps request project embeddingModel evidence answer cost] := by
  rw [createQuery] at h ⊢
  cases hchecks : checkQuery deps request with
  | error e => rw [hchecks] at h; cases h
  | ok checked =>
      obtain ⟨project, generator⟩ := checked
      rw [hchecks] at h
      simp only [runQuery] at h ⊢
      cases hret : deps.retrieve request.strategy ⟨request.query, project, request.topK⟩ with
      | error e =>
          simp only [hret] at h
          exact absurd h (withFailedTrace_ne_ok _ _ _ _ _ _ _)
      | ok evidence =>
          simp only [hret] at h ⊢
          cases hgen : generator.generate request.query evidence ⟨0, deps.maxOutputTokens⟩ with
          | error e =>
              simp only [hgen] at h
              exact absurd h (withFailedTrace_ne_ok _ _ _ _ _ _ _)
          | ok answer =>
              simp only [hgen] at h ⊢
              cases hcost : estimateCost deps.inputRate deps.outputRate answer.usage.inputTokens
                  answer.usage.outputTokens with
              | error e =>
                  simp only [hcost] at h
                  exact absurd h (withFailedTrace_ne_ok _ _ _ _ _ _ _)
              | ok cost =>
                  simp only [hcost, withTrace] at h ⊢
                  split at h
                  · cases h
                  · obtain ⟨hproject, hgenerator⟩ := checkQuery_eq_ok hchecks
                    exact ⟨project, generator, _, evidence, answer, _, hproject, hgenerator, hret,
                      hgen, (Except.ok.inj h).symm, rfl⟩

/-- **Grounding of every answer.**  When the retriever returns passages with distinct
ids, the response of `create_query` over the grounded generator and the trace
committed with it are grounded in the passages retrieved, whatever the model
answered. -/
theorem createQuery_grounded {model : ChatModel} {temperature : ℚ} {deps : QueryDeps}
    {request : QueryRequest} {response : QueryResponse}
    (hgen : deps.generator = some (groundedAnswerGenerator render model temperature))
    (hnd : ∀ project evidence, deps.getProject request.projectId = .ok project →
      deps.retrieve request.strategy ⟨request.query, project, request.topK⟩ = .ok evidence →
        (evidence.map (·.chunkId)).Nodup)
    (h : (createQuery deps request).1 = .ok response) :
    ∃ project evidence trace,
      deps.retrieve request.strategy ⟨request.query, project, request.topK⟩ = .ok evidence ∧
      (createQuery deps request).2 = [trace] ∧ IsGrounded evidence response trace := by
  obtain ⟨project, generator, embeddingModel, evidence, answer, cost, hproject, hgen', hret, hans,
    rfl, htrace⟩ := createQuery_eq_ok h
  obtain rfl := Option.some.inj (hgen.symm.trans hgen')
  refine ⟨project, evidence, _, hret, htrace, ?_⟩
  exact isGrounded_of_answerable (generate_answerable (hnd _ _ hproject hret) hans) ..

/-- A passage of chunk `n`. -/
def samplePassage (n : Uuid) : RetrievedChunk :=
  { text := lit ['p'], score := 1, retriever := .semantic, rank := 0,
    provenance := { documentId := 9, chunkId := n, page := some 2 } }

/-- A model whose one claim cites the second passage twice, a passage that does not
exist, and nonsense. -/
def sampleModel : ChatModel where
  modelId := lit ['m']
  completeJson := fun _ _ _ _ => .ok (.dict [(answerKey, .str (lit ['a'])),
    (claimsKey, .list [.dict [(textKey, .str (lit ['t'])),
      (evidenceKey, .list [.int 1, .str (lit ['1']), .int 7, .null])]])], {})

/-- A request over two passages, answered by that model. -/
def sampleDeps : QueryDeps where
  getProject := .ok
  generator := some (groundedAnswerGenerator (fun _ => []) sampleModel 0)
  embeddings := none
  maxOutputTokens := 1
  retrieve := fun _ _ => .ok [samplePassage 4, samplePassage 5]
  traceId := 3
  commitTrace := fun _ => .ok ()

theorem createQuery_grounded_sample :
    ∃ response, (createQuery sampleDeps { projectId := 1, query := [], strategy := .keyword }).1 =
        .ok response ∧ response.inventedCitations = 2 ∧
      ∃ evidence trace, IsGrounded evidence response trace := by
  refine ⟨_, rfl, rfl, ?_⟩
  obtain ⟨_, evidence, trace, -, -, h⟩ := @createQuery_grounded _ _ _ sampleDeps
    { projectId := 1, query := [], strategy := .keyword } _ rfl
    (fun _ _ _ h => Except.ok.inj h ▸ by decide) rfl
  exact ⟨evidence, trace, h⟩

end Reasoning
end EvidenceLab
