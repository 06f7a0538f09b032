/-
# The record of an execution

A trace is what is left of an execution when its response is gone.  No transaction changes a
trace or deletes one: a query appends what its execution has saved, and nothing else writes to
the traces at all (`traces_of_effect`).  So they are the log of the executions (`traces_of_run`).

What is read by the id that a response names is, in every later state, what the response said
(`executions_recorded`); of an execution that failed behind its checks, it is the code and the
message of the error.  The evidence graph of a trace is built of it and of the chunks that are
there when it is asked for: its citations are those of the response, of the chunks that are left.
-/

import EvidenceLab.Reasoning.Grounding
import EvidenceLab.Tenancy.Isolation
import EvidenceLab.Visualization.Support

namespace EvidenceLab
namespace Reasoning

open Text Data EvidenceLab.Core

/-! ### What a trace tells -/

/-- What a stored claim tells of a claim in the response: its text, whether it cites anything,
and of the chunks that it cites those that were retrieved. -/
structure StoredClaim.Tells (retrieved : List Uuid) (stored : StoredClaim) (claim : ClaimRead) :
    Prop where
  text : claim.text = stored.text
  supported : claim.supported = !stored.evidence.isEmpty
  evidence : claim.evidence.map (·.chunkId.str) =
    stored.evidence.filter ((retrieved.map Uuid.str).contains ·)

namespace TraceRow

/-- What the row of an execution that answered tells of the response. -/
structure Answered (row : TraceRow) (request : QueryRequest) (response : QueryResponse) :
    Prop where
  traceId : response.traceId = row.id
  completed : row.failed = false ∧ row.errorCode = none ∧ row.errorMessage = none
  answer : row.answer = some response.answer
  abstained : row.abstained = response.abstained
  model : row.model = response.model
  embeddingModel : row.embeddingModel = response.embeddingModel
  inputTokens : row.inputTokens = response.inputTokens
  outputTokens : row.outputTokens = response.outputTokens
  cost : row.cost = response.cost
  evidenceCount : row.evidenceCount = response.evidenceCount
  claims : List.Forall₂ (StoredClaim.Tells row.retrievedChunkIds) row.claims response.claims
  evidence : response.evidence.map (·.chunkId) =
    if request.includeEvidence then row.retrievedChunkIds else []

/-- What the row of an execution that failed tells of the error. -/
def Failed (row : TraceRow) (e : Exc) : Prop :=
  ∃ d, e.domain? = some d ∧ row.failed = true ∧ row.errorCode = some d.code ∧
    row.errorMessage = some d.message ∧ row.answer = none ∧ row.claims = []

/-- What a row tells of a request and its outcome. -/
structure Recounts (row : TraceRow) (request : QueryRequest)
    (outcome : Except Exc QueryResponse) : Prop where
  query : row.queryText = request.query
  strategy : row.strategy = request.strategy
  topK : row.topK = request.topK
  projectId : row.projectId = request.projectId
  answered : ∀ response, outcome = .ok response → row.Answered request response
  failed : ∀ e, outcome = .error e → row.Failed e

end TraceRow

variable {deps : QueryDeps} {request : QueryRequest} {evidence : List RetrievedChunk}

/-- The citations of a claim that are resolved are those of retrieved chunks. -/
theorem chunkIds_claimRead (evidence : List RetrievedChunk) (claim : Claim) :
    (claimRead evidence claim).evidence.map (·.chunkId) =
      claim.evidence.filter ((evidence.map (·.chunkId)).contains ·) := by
  have hfound : ∀ id, (((byId evidence).get? id).map citation).map (·.chunkId) =
      if (evidence.map (·.chunkId)).contains id then some id else none := by
    intro id
    split
    · rename_i hid
      obtain ⟨hit, -, rfl, hget⟩ := get?_byId (List.contains_iff_mem.mp hid)
      rw [hget]
      rfl
    · rename_i hid
      rw [Dict.get?_of_not_mem_keys]
      · rfl
      · intro hkey
        have hmem := (Dict.mem_keys_foldl_alter (fun hit : RetrievedChunk => hit.chunkId)
          fun _ hit => hit).mp hkey
        rw [Dict.keys_empty] at hmem
        exact hid (List.contains_iff_mem.mpr (hmem.resolve_left List.not_mem_nil))
  show (claim.evidence.filterMap fun id => ((byId evidence).get? id).map citation).map _ = _
  rw [List.map_filterMap, ← List.filterMap_eq_filter]
  refine List.filterMap_congr fun id _ => (hfound id).trans ?_
  simp only [Option.guard]

/-- A claim is told by what is stored of it. -/
theorem tells_storedClaim (evidence : List RetrievedChunk) (claim : Claim) :
    (storedClaim claim).Tells (evidence.map (·.chunkId)) (claimRead evidence claim) where
  text := rfl
  supported := by
    simp only [claimRead, storedClaim, Claim.isSupported, List.isEmpty_map]
  evidence := by
    have hstr : ((claimRead evidence claim).evidence.map (·.chunkId)).map Uuid.str =
        (claimRead evidence claim).evidence.map (·.chunkId.str) := by
      rw [List.map_map]
      rfl
    rw [← hstr, chunkIds_claimRead, storedClaim, List.filter_map]
    refine congrArg (List.map Uuid.str) (List.filter_congr fun id _ => ?_)
    rw [Function.comp_apply, Bool.eq_iff_iff, List.contains_iff_mem, List.contains_iff_mem,
      List.mem_map_of_injective Uuid.str_injective]

/-- The row of an answer tells the response. -/
theorem answered_answeredTrace (deps : QueryDeps) (request : QueryRequest) (project : Uuid)
    (embeddingModel : Option Str) (evidence : List RetrievedChunk) (answer : GeneratedAnswer)
    (cost : Option Float64) :
    (answeredTrace deps request project embeddingModel evidence answer cost).Answered request
      (queryResponse deps request embeddingModel evidence answer cost) where
  traceId := rfl
  completed := ⟨rfl, rfl, rfl⟩
  answer := rfl
  abstained := rfl
  model := rfl
  embeddingModel := rfl
  inputTokens := rfl
  outputTokens := rfl
  cost := rfl
  evidenceCount := rfl
  claims := by
    simp only [answeredTrace, queryResponse, List.forall₂_map_left_iff,
      List.forall₂_map_right_iff]
    exact List.forall₂_same.mpr fun claim _ => tells_storedClaim evidence claim
  evidence := by
    simp only [answeredTrace, queryResponse]
    split
    · rw [List.map_map]
      rfl
    · rfl

/-- So does the row of a domain error. -/
theorem failed_failedTrace (deps : QueryDeps) (request : QueryRequest) (project : Uuid)
    (model : Str) (embeddingModel : Option Str) (evidence : List RetrievedChunk) {e : Exc}
    {d : DomainError} (hd : e.domain? = some d) :
    (failedTrace deps request project model embeddingModel evidence d).Failed e :=
  ⟨d, hd, rfl, rfl, rfl, rfl, rfl⟩

/-- The handler saves the record of a domain error, if the commit goes through. -/
theorem recounts_withFailedTrace (hcommit : ∀ row, deps.commitTrace row = .ok ()) (model : Str)
    (embeddingModel : Option Str) (evidence : List RetrievedChunk) {e : Exc}
    (he : e.domain? ≠ none) :
    ∃ row, withFailedTrace (α := QueryResponse) deps request request.projectId model
        embeddingModel evidence e = (.error e, [row]) ∧
      row.id = deps.traceId ∧ row.Recounts request (.error e) := by
  obtain ⟨d, hd⟩ := Option.ne_none_iff_exists'.mp he
  refine ⟨failedTrace deps request request.projectId model embeddingModel evidence d, ?_, rfl,
    rfl, rfl, rfl, rfl, (fun _ h => by cases h), ?_⟩
  · rw [withFailedTrace, hd]
    simp only [withTrace, hcommit]
  · intro e' h
    cases h
    exact failed_failedTrace _ _ _ _ _ _ hd

/-- **An execution behind its checks saves one record**, of what it answers, if nothing but a
domain error stops it. -/
theorem recounts_createQuery {generator : AnswerGenerator}
    (hcommit : ∀ row, deps.commitTrace row = .ok ())
    (hcheck : checkQuery deps request = .ok (request.projectId, generator))
    (hdomain : ∀ e, (createQuery deps request).1 = .error e → e.domain? ≠ none) :
    ∃ row, (createQuery deps request).2 = [row] ∧ row.id = deps.traceId ∧
      row.Recounts request (createQuery deps request).1 := by
  have hfailed : ∀ evidence e, createQuery deps request =
      withFailedTrace deps request request.projectId generator.modelId
        (if request.strategy.needsEmbeddings then deps.embeddings else none) evidence e →
      ∃ row, (createQuery deps request).2 = [row] ∧ row.id = deps.traceId ∧
        row.Recounts request (createQuery deps request).1 := by
    intro evidence e heq
    have he : e.domain? ≠ none := by
      intro hnone
      refine hdomain e ?_ hnone
      rw [heq, withFailedTrace, hnone]
    obtain ⟨row, hrow, hid, hrecounts⟩ := recounts_withFailedTrace hcommit generator.modelId
      (if request.strategy.needsEmbeddings then deps.embeddings else none) evidence he
    rw [heq, hrow]
    exact ⟨row, rfl, hid, hrecounts⟩
  have hrun : createQuery deps request = runQuery deps request request.projectId generator := by
    rw [createQuery, hcheck]
  cases hret : deps.retrieve request.strategy ⟨request.query, request.projectId, request.topK⟩ with
  | error e =>
      refine hfailed [] e (hrun.trans ?_)
      simp only [runQuery, hret]
  | ok evidence =>
      cases hgen : generator.generate request.query evidence ⟨0, deps.maxOutputTokens⟩ with
      | error e =>
          refine hfailed evidence e (hrun.trans ?_)
          simp only [runQuery, hret, hgen]
      | ok answer =>
          cases hcost : estimateCost deps.inputRate deps.outputRate answer.usage.inputTokens
              answer.usage.outputTokens with
          | error e =>
              refine hfailed evidence e (hrun.trans ?_)
              simp only [runQuery, hret, hgen, hcost]
          | ok cost =>
              rw [hrun]
              simp only [runQuery, hret, hgen, hcost, withTrace, hcommit]
              refine ⟨_, rfl, rfl, rfl, rfl, rfl, rfl, ?_, (fun _ h => by cases h)⟩
              intro response h
              cases h
              exact answered_answeredTrace ..

end Reasoning

namespace Tenancy

open Text Data EvidenceLab.Core Retrieval Ingest Evaluation Reasoning Runs Session Visualization

variable {V K : Type} {b : Backend V}

/-! ### The log -/

section Log

variable [Field K] [LinearOrder K] {log2 : ℕ → K} {chunkIdFor : Uuid → ℕ → Uuid}
  {h h' : History (Tables V K)}

/-- What a transaction adds to the traces: a query what it has saved, and nothing else a thing. -/
def added (b : Backend V) (h : History (Tables V K)) (e : Command V × (ℕ → ℕ)) :
    List StoredTrace :=
  match e.1 with
  | .createQuery principal deps embeddings request now =>
      (createQueryTraced (queryDeps b principal (h.seen e.2) embeddings deps) request).2.map
        fun trace => { toSavedTrace := trace, createdAt := now, updatedAt := now }
  | _ => []

omit [Field K] [LinearOrder K] in
@[simp] theorem traces_setDocument (s : Tables V K) (d : DocumentRecord)
    (document : Option Document) (now : ℤ) : (s.setDocument d document now).traces = s.traces :=
  rfl

/-- **Traces are appended and nothing else.** -/
theorem traces_of_effect {command : Command V} {snapshot : ℕ → ℕ} {s : Tables V K}
    (hs : effect b log2 chunkIdFor (h.seen snapshot) h.now command = some s) :
    s.traces = h.now.traces ++ added b h (command, snapshot) := by
  have hsame : s.traces = h.now.traces → s.traces = h.now.traces ++ [] :=
    fun hsame => hsame.trans (List.append_nil _).symm
  cases command with
  | createProject principal payload projectId now =>
      obtain rfl := Option.some.inj hs
      exact hsame rfl
  | upload principal projectId a now =>
      obtain ⟨projectId', -, hs⟩ := Option.bind_eq_some_iff.mp hs
      dsimp only at hs
      split at hs
      · obtain rfl := Option.some.inj hs
        exact hsame rfl
      · cases hs
  | createQuery principal deps embeddings request now =>
      obtain rfl := Option.some.inj hs
      rfl
  | createDataset principal payload datasetId itemId now =>
      obtain ⟨project, -, hs⟩ := Option.bind_eq_some_iff.mp hs
      obtain rfl := Option.some.inj hs
      exact hsame rfl
  | createRun principal payload runId now =>
      obtain ⟨checked, -, hs⟩ := Option.bind_eq_some_iff.mp hs
      obtain ⟨dataset, -, hs⟩ := Option.bind_eq_some_iff.mp hs
      obtain rfl := Option.some.inj hs
      exact hsame rfl
  | runIngestion a now =>
      obtain ⟨d, -, hs⟩ := Option.bind_eq_some_iff.mp hs
      obtain rfl := Option.some.inj hs
      exact hsame rfl
  | embedDocument a now =>
      obtain ⟨d, -, hs⟩ := Option.bind_eq_some_iff.mp hs
      obtain rfl := Option.some.inj hs
      exact hsame rfl
  | execute a embeddings resultId times now =>
      obtain ⟨row, -, hs⟩ := Option.bind_eq_some_iff.mp hs
      obtain ⟨dataset, -, hs⟩ := Option.bind_eq_some_iff.mp hs
      obtain ⟨left, -, hs⟩ := Option.bind_eq_some_iff.mp hs
      obtain rfl := Option.some.inj hs
      exact hsame rfl

/-- A transaction adds its own traces. -/
theorem traces_of_step {e : Command V × (ℕ → ℕ)}
    (hstep : h.step (commit b log2 chunkIdFor) e = some h') :
    h'.now.traces = h.now.traces ++ added b h e := by
  obtain ⟨s, hcommit, rfl⟩ := History.step_eq_some.mp hstep
  obtain ⟨s', heffect, hchecked⟩ := Option.bind_eq_some_iff.mp hcommit
  obtain ⟨-, rfl⟩ := Tables.checked_eq_some.mp hchecked
  exact traces_of_effect heffect

/-- The log of a run. -/
def logged (b : Backend V) (log2 : ℕ → K) (chunkIdFor : Uuid → ℕ → Uuid)
    (h : History (Tables V K)) : List (Command V × (ℕ → ℕ)) → List StoredTrace
  | [] => []
  | e :: es => added b h e ++
      ((h.step (commit b log2 chunkIdFor) e).elim [] fun h' => logged b log2 chunkIdFor h' es)

/-- **The traces are the log of the executions**, each once and in order. -/
theorem traces_of_run {es : List (Command V × (ℕ → ℕ))}
    (hrun : run (History.step (commit b log2 chunkIdFor)) h es = some h') :
    h'.now.traces = h.now.traces ++ logged b log2 chunkIdFor h es := by
  induction es generalizing h with
  | nil =>
      obtain rfl := Option.some.inj hrun
      exact (List.append_nil _).symm
  | cons e es ih =>
      obtain ⟨m, hstep, hrest⟩ := run_cons.mp hrun
      rw [ih hrest, traces_of_step hstep, logged, hstep, List.append_assoc]
      rfl

end Log

/-! ### Reading a trace -/

variable {s : Tables V K}

/-- A trace is found by the principals of its organization, and by no others. -/
theorem getTrace_of_mem (hkeyed : s.Keyed) {trace : StoredTrace} (htrace : trace ∈ s.traces)
    (reader : Principal) : getTrace b s reader trace.row.id =
      if reader.organizationId = trace.organizationId then .ok trace
      else .error (.domain (traceNotFound trace.row.id)) := by
  unfold getTrace
  split
  · rename_i hreader
    cases hfound : b.engine.scalar (·.row.id) (fun t : StoredTrace =>
        t.row.id = trace.row.id ∧ t.organizationId = reader.organizationId) s.traces with
    | none =>
        exact absurd (decide_eq_true ⟨rfl, hreader.symm⟩)
          (Bool.eq_false_iff.mp (Engine.scalar_eq_none.mp hfound trace htrace))
    | some found =>
        obtain ⟨hmem, hselected⟩ := Engine.of_scalar hfound
        obtain ⟨hid, -⟩ := of_decide_eq_true hselected
        obtain rfl := List.inj_on_of_nodup_map hkeyed.traces hmem htrace hid
        rfl
  · rename_i hreader
    rw [Engine.scalar_eq_none.mpr]
    · rfl
    · intro found hmem
      refine decide_eq_false ?_
      rintro ⟨hid, howner⟩
      obtain rfl := List.inj_on_of_nodup_map hkeyed.traces hmem htrace hid
      exact hreader howner.symm

/-- The chunks that are loaded for a graph: those of the ids that are there. -/
theorem mem_titledChunks (hs : s.Coherent) {chunkIds : List Uuid} {chunkId : Uuid} :
    chunkId ∈ (titledChunks b s chunkIds).map (·.1.id) ↔
      chunkId ∈ chunkIds ∧ chunkId ∈ s.chunks.map (·.id) := by
  rw [titledChunks, ((b.engine.perm _ _).map _).mem_iff]
  constructor
  · intro h
    obtain ⟨row, hrow, rfl⟩ := List.mem_map.mp h
    obtain ⟨chunk, hchunk, hrow⟩ := List.mem_flatMap.mp hrow
    obtain ⟨document, -, rfl⟩ := List.mem_map.mp hrow
    obtain ⟨hmem, hid⟩ := List.mem_filter.mp hchunk
    exact ⟨List.contains_iff_mem.mp hid, List.mem_map_of_mem hmem⟩
  · rintro ⟨hid, h⟩
    obtain ⟨chunk, hchunk, rfl⟩ := List.mem_map.mp h
    obtain ⟨document, hdocument, hplace⟩ := List.mem_map.mp (hs.chunks chunk hchunk)
    refine List.mem_map.mpr ⟨(chunk, document.title), List.mem_flatMap.mpr ⟨chunk,
      List.mem_filter.mpr ⟨hchunk, List.contains_iff_mem.mpr hid⟩, ?_⟩, rfl⟩
    exact List.mem_map_of_mem (List.mem_filter.mpr
      ⟨hdocument, decide_eq_true (congrArg Prod.fst hplace)⟩)

/-- The chunks of a graph. -/
theorem mem_graphChunks (hs : s.Coherent) {chunkIds : List Uuid} {chunkId : Uuid} :
    chunkId.str ∈ (graphChunks b s chunkIds).map (·.chunkId) ↔
      chunkId ∈ chunkIds ∧ chunkId ∈ s.chunks.map (·.id) := by
  set titled := titledChunks b s chunkIds with htitled
  set found : Dict Uuid (ChunkRecord V × Str) :=
    titled.foldl (fun d row => d.set row.1.id row) Dict.empty with hfound
  have hnodup : (titled.map (·.1.id)).Nodup :=
    (((b.engine.perm _ _).map _).nodup_iff).mpr (nodup_titled hs.keyed chunkIds)
  have hget : ∀ row ∈ titled, found.get? row.1.id = some row := by
    intro row hrow
    have hloop : found = (titled.map fun row => (row.1.id, row)).foldl
        (fun d e => d.set e.1 e.2) Dict.empty := by
      rw [hfound, List.foldl_map]
    rw [hloop]
    refine Dict.get?_foldl_set (List.mem_map_of_mem hrow) ?_
    intro other hother
    obtain ⟨row', hrow', heq⟩ := List.mem_map.mp hother
    obtain ⟨hid, rfl⟩ := Prod.mk.inj heq
    exact List.inj_on_of_nodup_map hnodup hrow' hrow hid
  have hof : ∀ {id row}, found.get? id = some row → row ∈ titled ∧ row.1.id = id := by
    intro id row hrow
    have hkey : id ∈ found.keys := by
      by_contra hnot
      rw [Dict.get?_of_not_mem_keys hnot] at hrow
      cases hrow
    have hmem := (Dict.mem_keys_foldl_alter (fun row : ChunkRecord V × Str => row.1.id)
      fun _ row => row).mp hkey
    rw [Dict.keys_empty] at hmem
    obtain ⟨row', hrow', rfl⟩ := List.mem_map.mp (hmem.resolve_left List.not_mem_nil)
    obtain rfl := Option.some.inj ((hget row' hrow').symm.trans hrow)
    exact ⟨hrow', rfl⟩
  rw [← mem_titledChunks hs, ← htitled]
  constructor
  · intro h
    obtain ⟨input, hinput, hid⟩ := List.mem_map.mp h
    obtain ⟨entry, -, hentry⟩ := List.mem_filterMap.mp hinput
    obtain ⟨row, hrow, rfl⟩ := Option.map_eq_some_iff.mp hentry
    obtain ⟨hmem, -⟩ := hof hrow
    rw [← Uuid.str_injective hid]
    exact List.mem_map_of_mem hmem
  · intro h
    obtain ⟨hid, -⟩ := (mem_titledChunks hs).mp h
    obtain ⟨row, hrow, rfl⟩ := List.mem_map.mp h
    obtain ⟨i, hi⟩ := List.mem_iff_getElem?.mp hid
    have hentry : (row.1.id, i) ∈ chunkIds.zipIdx := List.mem_zipIdx_iff_getElem?.mpr hi
    have hmem : found.get? (row.1.id, i).1 = some row := hget row hrow
    set input : ChunkInput :=
      { chunkId := row.1.id.str
        documentId := row.1.documentId.str
        documentTitle := row.2
        text := row.1.text
        page := row.1.page
        charStart := row.1.charStart
        charEnd := row.1.charEnd
        rank := some i }
    have hinput : input ∈ graphChunks b s chunkIds := by
      refine List.mem_filterMap.mpr ⟨(row.1.id, i), hentry, ?_⟩
      rw [← htitled, ← hfound, hmem]
      rfl
    exact List.mem_map.mpr ⟨input, hinput, rfl⟩

/-- The citations in the graph of a trace. -/
theorem cites_traceEvidenceGraph (hs : s.Coherent) {trace : StoredTrace} {i : ℕ}
    {chunkId : Uuid} :
    (⟨chunkNodeId chunkId.str, claimNodeId i, .cites⟩ : GraphEdge) ∈
        (traceEvidenceGraph b s trace).2.1.edges ↔
      chunkId ∈ s.chunks.map (·.id) ∧ chunkId ∈ trace.row.retrievedChunkIds ∧
        ∃ stored, trace.row.claims[i]? = some stored ∧ chunkId.str ∈ stored.evidence := by
  refine cites_iff.trans ?_
  rw [mem_graphChunks hs, and_comm (a := chunkId ∈ trace.row.retrievedChunkIds), and_assoc]
  refine and_congr_right fun _ => and_congr_right fun _ => ?_
  simp only [List.getElem?_map, Option.map_eq_some_iff]
  constructor
  · rintro ⟨_, ⟨stored, hstored, rfl⟩, hcited⟩
    exact ⟨stored, hstored, hcited⟩
  · rintro ⟨stored, hstored, hcited⟩
    exact ⟨_, ⟨stored, hstored, rfl⟩, hcited⟩

/-- What a claim cites is what is stored of it, so far as it was retrieved. -/
theorem StoredClaim.Tells.mem_iff {retrieved : List Uuid} {stored : StoredClaim}
    {claim : ClaimRead} (h : stored.Tells retrieved claim) {chunkId : Uuid} :
    (∃ ref ∈ claim.evidence, ref.chunkId = chunkId) ↔
      chunkId ∈ retrieved ∧ chunkId.str ∈ stored.evidence := by
  have hmem : chunkId.str ∈ claim.evidence.map (·.chunkId.str) ↔
      ∃ ref ∈ claim.evidence, ref.chunkId = chunkId := by
    rw [List.mem_map]
    exact exists_congr fun ref => and_congr_right fun _ => Uuid.str_injective.eq_iff
  rw [← hmem, h.evidence, List.mem_filter, List.contains_iff_mem,
    List.mem_map_of_injective Uuid.str_injective, and_comm]

/-- The citations of a response are those of the claims that its trace has stored. -/
theorem TraceRow.Answered.cites_iff {row : TraceRow} {request : QueryRequest}
    {response : QueryResponse} (h : row.Answered request response) {i : ℕ} {chunkId : Uuid} :
    (∃ claim, response.claims[i]? = some claim ∧ ∃ ref ∈ claim.evidence, ref.chunkId = chunkId) ↔
      chunkId ∈ row.retrievedChunkIds ∧
        ∃ stored, row.claims[i]? = some stored ∧ chunkId.str ∈ stored.evidence := by
  have hlength := h.claims.length_eq
  constructor
  · rintro ⟨claim, hclaim, hcited⟩
    obtain ⟨hi, rfl⟩ := List.getElem?_eq_some_iff.mp hclaim
    have hi' : i < row.claims.length := hlength ▸ hi
    obtain ⟨hretrieved, hstored⟩ := (StoredClaim.Tells.mem_iff (h.claims.get hi' hi)).mp hcited
    exact ⟨hretrieved, _, List.getElem?_eq_getElem hi', hstored⟩
  · rintro ⟨hretrieved, stored, hstored, hcited⟩
    obtain ⟨hi, rfl⟩ := List.getElem?_eq_some_iff.mp hstored
    have hi' : i < response.claims.length := hlength ▸ hi
    exact ⟨_, List.getElem?_eq_getElem hi',
      (StoredClaim.Tells.mem_iff (h.claims.get hi hi')).mpr ⟨hretrieved, hcited⟩⟩

/-! ### Executions -/

section Executions

variable [Field K] [LinearOrder K] {log2 : ℕ → K} {chunkIdFor : Uuid → ℕ → Uuid}
  {h h' h'' : History (Tables V K)} {es es' : List (Command V × (ℕ → ℕ))}
  {principal : Principal} {deps : TracedDeps} {embeddings : Option (EmbeddingPipeline V)}
  {request : QueryRequest} {now : ℤ} {snapshot : ℕ → ℕ}

/-- What an execution answers, and what it saves. -/
abbrev executed (b : Backend V) (h : History (Tables V K)) (principal : Principal)
    (deps : TracedDeps) (embeddings : Option (EmbeddingPipeline V)) (request : QueryRequest)
    (snapshot : ℕ → ℕ) : Except Exc QueryResponse × List SavedTrace :=
  createQueryTraced (queryDeps b principal (h.seen snapshot) embeddings deps) request

/-- **One execution, one record.**  An execution that passes its checks, is stopped by nothing
but a domain error and saves its trace adds that one trace.  Whatever is written afterwards, the
principals of the organization find it by its id and no others do; it tells the request and the
answer or the error; and the citations in its evidence graph are those of the response, of the
chunks that are left. -/
theorem executions_recorded
    (hrun : run (History.step (commit b log2 chunkIdFor)) ⟨{}, []⟩ es = some h)
    (hcommit : h.step (commit b log2 chunkIdFor)
      (.createQuery principal deps embeddings request now, snapshot) = some h')
    (hlater : run (History.step (commit b log2 chunkIdFor)) h' es' = some h'')
    (hdone : deps.commit = .done)
    (hchecked : ∃ checked, checkQuery
      (queryDeps b principal (h.seen snapshot) embeddings deps).query request = .ok checked)
    (hdomain : ∀ e, (executed b h principal deps embeddings request snapshot).1 = .error e →
      e.domain? ≠ none) :
    ∃ trace, h'.now.traces = h.now.traces ++ [trace] ∧
      trace.row.Recounts request (executed b h principal deps embeddings request snapshot).1 ∧
      (∀ reader, getTrace b h''.now reader deps.traceId =
        if reader.organizationId = principal.organizationId then .ok trace
        else .error (.domain (traceNotFound deps.traceId))) ∧
      ∀ response, (executed b h principal deps embeddings request snapshot).1 = .ok response →
        ∀ i chunkId, (⟨chunkNodeId chunkId.str, claimNodeId i, .cites⟩ : GraphEdge) ∈
            (traceEvidenceGraph b h''.now trace).2.1.edges ↔
          chunkId ∈ h''.now.chunks.map (·.id) ∧ ∃ claim, response.claims[i]? = some claim ∧
            ∃ ref ∈ claim.evidence, ref.chunkId = chunkId := by
  obtain ⟨⟨project, generator⟩, hcheck⟩ := hchecked
  set traced := queryDeps b principal (h.seen snapshot) embeddings deps with htraced
  -- The execution without its spans saves one row, which is that of its one trace.
  have hproject : project = request.projectId := by
    obtain ⟨project', hscope, hrest⟩ := bind_eq_ok.mp hcheck
    obtain ⟨generator', -, hpair⟩ := bind_eq_ok.mp hrest
    obtain ⟨rfl, -⟩ := Prod.mk.inj (Except.ok.inj hpair)
    exact (owner_of_getProjectScope hscope).1
  subst hproject
  have hlanded : ∀ e, traced.commit ≠ .landed e := by
    intro e he
    cases hdone.symm.trans he
  have hplain : ((createQueryTraced traced request).1,
      (createQueryTraced traced request).2.map (·.row)) = createQuery traced.query request :=
    createQuery_of_traced hlanded
  have houtcome : (createQueryTraced traced request).1 = (createQuery traced.query request).1 :=
    congrArg Prod.fst hplain
  have hrows : (createQueryTraced traced request).2.map (·.row) =
      (createQuery traced.query request).2 := congrArg Prod.snd hplain
  have hsaves : ∀ row, traced.query.commitTrace row = .ok () := by
    intro row
    show reply deps.commit.raised = _
    rw [hdone]
    rfl
  obtain ⟨row, hrow, hid, hrecounts⟩ := recounts_createQuery hsaves hcheck (by
    intro e he
    exact hdomain e (houtcome.trans he))
  rw [hrow] at hrows
  obtain ⟨saved, hsaved, rfl⟩ := List.map_eq_singleton_iff.mp hrows
  rw [← houtcome] at hrecounts
  have hmine : saved ∈ (createQueryTraced traced request).2 :=
    hsaved ▸ List.mem_singleton_self saved
  obtain ⟨-, -, howner, -⟩ := mem_createQueryTraced hmine
  -- It is the last trace after the commit, and stays where it is.
  have hadded : h'.now.traces = h.now.traces ++
      [{ toSavedTrace := saved, createdAt := now, updatedAt := now }] := by
    rw [traces_of_step hcommit]
    dsimp only [added]
    rw [← htraced, hsaved]
    rfl
  have hinv : Inv chunkIdFor h'' :=
    invariant_of_run (fun _ _ _ hinv hstep => Inv.step hinv hstep)
      (Inv.step (inv_of_run hrun) hcommit) hlater
  have hmem : ({ toSavedTrace := saved, createdAt := now, updatedAt := now } : StoredTrace) ∈
      h''.now.traces := by
    rw [traces_of_run hlater, hadded]
    exact List.mem_append_left _ (List.mem_append_right _ (List.mem_singleton_self _))
  refine ⟨_, hadded, hrecounts, ?_, ?_⟩
  · intro reader
    have hread := getTrace_of_mem (b := b) hinv.now.keyed hmem reader
    rw [hid, howner] at hread
    exact hread
  · intro response hresponse i chunkId
    rw [cites_traceEvidenceGraph hinv.now,
      TraceRow.Answered.cites_iff (hrecounts.answered response hresponse)]

end Executions

/-- A generator that makes one claim and cites all the evidence for it. -/
def sampleQueryDeps : TracedDeps where
  principal := ⟨2, 1⟩
  getProject := .ok
  generator := some ⟨[], fun _ evidence _ => .ok {
    text := lit ['a'], claims := [{ text := lit ['t'], evidence := evidence.map (·.chunkId) }] }⟩
  embeddings := none
  maxOutputTokens := 1
  retrieve := fun _ _ => .ok []
  traceId := 8
  retrievalSpan := 9
  generationSpan := 10
  commit := .done

/-- A question about the project, without a provider of embeddings. -/
def sampleQuestion : QueryRequest := { projectId := 3, query := [0x61], strategy := .keyword }

/-- After another organization has made a project, the one trace of the question is found, and its
graph cites the chunk. -/
theorem executions_recorded_sample : ∃ h trace,
    run sampleStep ⟨{}, []⟩ (sampleCommands ++
      [(.createQuery ⟨2, 1⟩ sampleQueryDeps none sampleQuestion 0, fun _ => 0),
        foreignCommand]) = some h ∧
    getTrace sampleBackend h.now ⟨2, 1⟩ 8 = .ok trace ∧ trace.row.answer = some (lit ['a']) ∧
    (⟨chunkNodeId (7000 : Uuid).str, claimNodeId 0, .cites⟩ : GraphEdge) ∈
      (traceEvidenceGraph sampleBackend h.now trace).2.1.edges := by
  have hends : ∃ h ∈ run sampleStep ⟨{}, []⟩ sampleCommands,
      (checkQuery (queryDeps sampleBackend ⟨2, 1⟩ (h.seen fun _ => 0) none sampleQueryDeps).query
        sampleQuestion).toOption.isSome ∧
      (∃ said ∈ (executed sampleBackend h ⟨2, 1⟩ sampleQueryDeps none sampleQuestion
          fun _ => 0).1.toOption.map
            (fun r => (r.answer, r.claims.map fun c => c.evidence.map (·.chunkId))),
        said = (lit ['a'], [[7000]])) ∧
      ∃ h' ∈ sampleStep h (.createQuery ⟨2, 1⟩ sampleQueryDeps none sampleQuestion 0, fun _ => 0),
      ∃ h'' ∈ run sampleStep h' [foreignCommand], (7000 : Uuid) ∈ h''.now.chunks.map (·.id) := by
    decide +kernel
  obtain ⟨h, hrun, hcheck, ⟨said, hsaid, heq⟩, h', hcommit, h'', hlater, hchunk⟩ := hends
  obtain ⟨response, hresponse, htells⟩ := Option.map_eq_some_iff.mp hsaid
  obtain ⟨hanswer, hclaims⟩ := Prod.mk.inj (htells.trans heq)
  obtain ⟨checked, hchecked⟩ := Option.isSome_iff_exists.mp hcheck
  have hok := toOption_eq_some.mp hresponse
  obtain ⟨trace, -, hrecounts, hread, hgraph⟩ := executions_recorded hrun hcommit hlater rfl
    ⟨checked, toOption_eq_some.mp hchecked⟩ (by
      intro e he
      cases hok.symm.trans he)
  refine ⟨h'', trace, run_append.mpr ⟨h, hrun, run_cons.mpr ⟨h', hcommit, hlater⟩⟩,
    (hread ⟨2, 1⟩).trans (if_pos rfl), ?_, (hgraph response hok 0 7000).mpr ⟨hchunk, ?_⟩⟩
  · rw [(hrecounts.answered response hok).answer, hanswer]
  · obtain ⟨claim, hclaim, hcited⟩ := List.map_eq_singleton_iff.mp hclaims
    obtain ⟨ref, href, hid⟩ := List.map_eq_singleton_iff.mp hcited
    exact ⟨claim, by rw [hclaim]; rfl, ref, by rw [href]; exact List.mem_singleton_self _, hid⟩

end Tenancy
end EvidenceLab
