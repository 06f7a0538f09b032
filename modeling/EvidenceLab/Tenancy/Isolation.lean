/-
# What a principal reads is the organization's

A read of a principal gives the same in any two states that the program can reach and that
have the rows of the principal's organization in common, whatever other organizations have
done (`reads_isolated`).  And a read that names a row which the organization does not have
raises the one error there is for it, whoever else has such a row.

Where a query does not select by organization, what was read before says enough.  The rows
of a project are of its organization, and so are the chunks of a document, since the tables
are coherent; so are the chunks that a trace names, since they are partitioned.
-/

import EvidenceLab.Tenancy.Ownership

namespace EvidenceLab
namespace Tenancy

open Text Data EvidenceLab.Core Retrieval Ingest Evaluation Reasoning Tracing Visualization Runs

variable {V K : Type}

/-! ### Tables by owner -/

/-- A table, with the owner and the key of its rows. -/
structure Table (V K α : Type) where
  rows : Tables V K → List α
  owner : α → Uuid
  key : α → Uuid
  keyed : ∀ {s}, s.Keyed → ((rows s).map key).Nodup
  agree : ∀ {s s' organizationId}, Tables.Agree organizationId s s' →
    ((rows s).filter (owner · = organizationId)).Perm
      ((rows s').filter (owner · = organizationId))

namespace Table

def projects : Table V K Project :=
  ⟨(·.projects), (·.organizationId), (·.id), (·.projects), (·.projects)⟩

def documents : Table V K DocumentRecord :=
  ⟨(·.documents), (·.organizationId), (·.id), (·.documents), (·.documents)⟩

def chunks : Table V K (ChunkRecord V) :=
  ⟨(·.chunks), (·.organizationId), (·.id), (·.chunks), (·.chunks)⟩

def traces : Table V K StoredTrace :=
  ⟨(·.traces), (·.organizationId), (·.row.id), (·.traces), (·.traces)⟩

def datasets : Table V K EvaluationDataset :=
  ⟨(·.datasets), (·.organizationId), (·.id), (·.datasets), (·.datasets)⟩

def runs : Table V K (StoredRun K) :=
  ⟨(·.runs), (·.organizationId), (·.id), (·.runs), (·.runs)⟩

variable {α : Type} (t : Table V K α) {I : Tables V K → Prop} {organizationId : Uuid}
  {engine : Engine Uuid} {p : α → Bool} {le : α → α → Bool}

/-- Selected rows that are all of the organization are the same ones. -/
theorem perm_filter {s s' : Tables V K} (hview : s.Agree organizationId s')
    (hp : ∀ r ∈ t.rows s, p r → t.owner r = organizationId)
    (hp' : ∀ r ∈ t.rows s', p r → t.owner r = organizationId) :
    ((t.rows s).filter p).Perm ((t.rows s').filter p) :=
  filter_perm_of_scope (t.agree hview) (fun r hr h => decide_eq_true (hp r hr h))
    fun r hr h => decide_eq_true (hp' r hr h)

/-- **A query that selects rows of the organization only.** -/
theorem determined_select (hI : ∀ s, I s → s.Keyed)
    (hp : ∀ s, I s → ∀ r ∈ t.rows s, p r → t.owner r = organizationId) :
    Determined I (Tables.Agree organizationId) fun s => engine.select t.key p le (t.rows s) :=
  fun s s' hs hs' hview =>
    Engine.select_congr (t.keyed (hI s hs)) (t.perm_filter hview (hp s hs) (hp s' hs'))

theorem determined_scalar (hI : ∀ s, I s → s.Keyed)
    (hp : ∀ s, I s → ∀ r ∈ t.rows s, p r → t.owner r = organizationId) :
    Determined I (Tables.Agree organizationId) fun s => engine.scalar t.key p (t.rows s) :=
  fun s s' hs hs' hview =>
    Engine.scalar_congr (t.keyed (hI s hs)) (t.perm_filter hview (hp s hs) (hp s' hs'))

end Table

/-! ### Projects and documents -/

section Reads

variable {b : Backend V} {principal : Principal} {I : Tables V K → Prop} {projectId : Uuid}

theorem determined_listProjects (hI : ∀ s, I s → s.Keyed) :
    Determined I (Tables.Agree principal.organizationId) fun s => listProjects b s principal :=
  Table.projects.determined_select hI fun _ _ _ _ hp => of_decide_eq_true hp

theorem determined_getProject (hI : ∀ s, I s → s.Keyed) :
    Determined I (Tables.Agree principal.organizationId)
      fun s => getProject b s principal projectId :=
  (Table.projects.determined_scalar hI fun _ _ _ _ hp => (of_decide_eq_true hp).2).map
    (orRaise (projectNotFound projectId))

theorem determined_getProjectScope (hI : ∀ s, I s → s.Keyed) :
    Determined I (Tables.Agree principal.organizationId)
      fun s => getProjectScope b s principal projectId :=
  (determined_getProject hI).bind fun p => .const (Except.ok p.id)

/-- The project is the organization's. -/
def InProject (projectId organizationId : Uuid) (s : Tables V K) : Prop :=
  s.Coherent ∧ (projectId, organizationId) ∈ s.owners

/-- What is read in a project that passed the check is read in the principal's. -/
theorem Determined.inProject {R : Type} {read : Uuid → Tables V K → Except Exc R}
    (h : ∀ projectId,
      Determined (InProject projectId principal.organizationId)
        (Tables.Agree principal.organizationId) (read projectId)) :
    Determined Tables.Coherent (Tables.Agree principal.organizationId) fun s =>
      getProjectScope b s principal projectId >>= fun projectId => read projectId s :=
  (determined_getProjectScope fun _ hs => hs.keyed).bind fun projectId' =>
    (h projectId').mono fun _ hs => ⟨hs.1, (owner_of_getProjectScope hs.2).2⟩

variable {organizationId documentId : Uuid}

theorem determined_listDocuments :
    Determined (InProject projectId organizationId) (Tables.Agree organizationId)
      fun s : Tables V K => listDocuments b s projectId :=
  Table.documents.determined_select (fun _ hs => hs.1.keyed)
    fun _ hs _ hd hp => hs.1.document_owner hs.2 hd (of_decide_eq_true hp)

theorem determined_getDocument :
    Determined (InProject projectId organizationId) (Tables.Agree organizationId)
      fun s : Tables V K => getDocument b s documentId projectId :=
  (Table.documents.determined_scalar (fun _ hs => hs.1.keyed)
    fun _ hs _ hd hp => hs.1.document_owner hs.2 hd (of_decide_eq_true hp).2).map
      (orRaise (Ingest.documentNotFound documentId "Document not found."))

/-- The chunks of a document are selected by the document, which is in the project. -/
theorem determined_listChunks :
    Determined (InProject projectId organizationId) (Tables.Agree organizationId)
      fun s : Tables V K => listChunks b s documentId projectId := by
  refine determined_getDocument.bind fun d => ?_
  refine (Table.chunks.determined_select (fun _ hs => hs.1.1.keyed) ?_).map Except.ok
  rintro s ⟨hs, hdocument⟩ c hc hp
  obtain ⟨hd, hselected⟩ := Engine.of_scalar (orRaise_eq_ok.mp hdocument)
  obtain ⟨hid, hproject⟩ := of_decide_eq_true hselected
  have hplace : d.place ∈ s.places := List.mem_map_of_mem hd
  have hplace' := hs.1.chunks c hc
  rw [ChunkRecord.place, of_decide_eq_true hp, ← hid] at hplace'
  have hsame := hs.1.keyed.place_unique hplace hplace'
  exact (congrArg Prod.snd hsame).symm.trans (hs.1.document_owner hs.2 hd hproject)

/-! ### Search and query -/

/-- The chunks of a project of the organization are in both. -/
theorem sameProject {s s' : Tables V K} (hs : InProject projectId organizationId s)
    (hs' : InProject projectId organizationId s') (hview : s.Agree organizationId s') :
    SameProject projectId s.chunks s'.chunks :=
  ⟨hs.1.keyed.chunks, Table.chunks.perm_filter hview
    (fun _ hc hp => hs.1.chunk_owner hs.2 hc (of_decide_eq_true hp))
    fun _ hc hp => hs'.1.chunk_owner hs'.2 hc (of_decide_eq_true hp)⟩

/-- What is read in a project that was looked up is read in the principal's. -/
theorem Determined.ofProject {R : Type} {read : Project → Tables V K → Except Exc R}
    (h : ∀ project, Determined (InProject project.id principal.organizationId)
      (Tables.Agree principal.organizationId) (read project)) :
    Determined Tables.Coherent (Tables.Agree principal.organizationId) fun s =>
      getProject b s principal projectId >>= fun project => read project s := by
  refine (determined_getProject fun _ hs => hs.keyed).bind fun project => ?_
  refine (h project).mono fun s hs => ⟨hs.1, ?_⟩
  obtain ⟨hp, -, howner⟩ := of_getProject hs.2
  rw [← howner]
  exact List.mem_map_of_mem hp

theorem determined_search {embeddings : Option (EmbeddingPipeline V)} {request : SearchRequest} :
    Determined Tables.Coherent (Tables.Agree principal.organizationId)
      fun s : Tables V K => search b s principal embeddings request := by
  refine Determined.ofProject fun project => .ite (fun _ => .const _) fun _ => ?_
  have hretrieve : Determined (InProject project.id principal.organizationId)
      (Tables.Agree principal.organizationId) fun s : Tables V K =>
        buildRetriever b (strategyName request.strategy) embeddings s.chunks s.chunks
          (request.inProject project.id) := by
    intro s s' hs hs' hview
    have hsame := sameProject hs hs' hview
    exact buildRetriever_congr hsame hsame
  exact hretrieve.bind fun hits => .const _

/-- A query reads the chunks that its retriever finds in the project. -/
theorem determined_query {embeddings : Option (EmbeddingPipeline V)} {deps : TracedDeps}
    {request : QueryRequest} :
    Determined Tables.Coherent (Tables.Agree principal.organizationId) fun s : Tables V K =>
      (createQueryTraced (queryDeps b principal (fun _ => s) embeddings deps) request).1 := by
  intro s s' hs hs' hview
  refine congrArg Prod.fst (createQueryTraced_congr ?_ ?_)
  · exact determined_getProjectScope (fun _ hs => hs.keyed) s s' hs hs' hview
  · intro project hproject
    have hproject' :=
      (determined_getProjectScope (fun _ hs => hs.keyed) s s' hs hs' hview).symm.trans hproject
    have hsame := sameProject ⟨hs, (owner_of_getProjectScope hproject).2⟩
      ⟨hs', (owner_of_getProjectScope hproject').2⟩ hview
    exact buildRetriever_congr hsame hsame

theorem determined_comparison {embeddings : Option (EmbeddingPipeline V)} {elapsed : ℕ → ℚ}
    {request : SearchRequest} :
    Determined Tables.Coherent (Tables.Agree principal.organizationId)
      fun s : Tables V K => retrievalComparison b s principal embeddings elapsed request := by
  refine Determined.ofProject fun project => .ite (fun _ => .const _) fun _ => ?_
  have hsame : ∀ {s s' : Tables V K}, InProject project.id principal.organizationId s →
      InProject project.id principal.organizationId s' → s.Agree principal.organizationId s' →
        SameProject (request.inProject project.id).projectId s.chunks s'.chunks := sameProject
  have hdense : Determined (InProject project.id principal.organizationId)
      (Tables.Agree principal.organizationId) fun s : Tables V K =>
        pgVector (S := ℚ) b embeddings s.chunks (request.inProject project.id) :=
    fun s s' hs hs' hview => pgVector_congr (hsame hs hs' hview)
  refine hdense.bind fun semanticHits => ?_
  have hkeyword : Determined (InProject project.id principal.organizationId)
      (Tables.Agree principal.organizationId) fun s : Tables V K =>
        postgresFts (S := ℚ) b s.chunks (request.inProject project.id) :=
    fun s s' hs hs' hview => postgresFts_congr (hsame hs hs' hview)
  refine (hkeyword.mono fun _ => And.left).bind fun keywordHits => ?_
  have hhybrid : Determined (InProject project.id principal.organizationId)
      (Tables.Agree principal.organizationId) fun s : Tables V K =>
        HybridRetriever.retrieve (S := ℚ)
          { dense := pgVector b embeddings s.chunks, keyword := postgresFts b s.chunks }
          (request.inProject project.id) :=
    fun s s' hs hs' hview => hybrid_congr (hsame hs hs' hview) (hsame hs hs' hview)
  exact (hhybrid.mono fun _ hs => hs.1.1).bind fun hybridHits => .const _

/-! ### Traces -/

theorem determined_getTrace (hI : ∀ s, I s → s.Keyed) {traceId : Uuid} :
    Determined I (Tables.Agree principal.organizationId)
      fun s => getTrace b s principal traceId :=
  (Table.traces.determined_scalar hI fun _ _ _ _ hp => (of_decide_eq_true hp).2).map
    (orRaise (traceNotFound traceId))

theorem determined_listTraces (hI : ∀ s, I s → s.Keyed) {limit : ℕ} :
    Determined I (Tables.Agree principal.organizationId)
      fun s => listTraces b s principal projectId limit :=
  (Table.traces.determined_select hI fun _ _ _ _ hp => (of_decide_eq_true hp).2).map
    (List.take limit)

/-- A chunk is joined with one document at most. -/
theorem nodup_titled {s : Tables V K} (hkeyed : s.Keyed) (chunkIds : List Uuid) :
    (((s.chunks.filter (chunkIds.contains ·.id)).flatMap fun chunk =>
      (s.documents.filter (·.id = chunk.documentId)).map fun document =>
        (chunk, document.title)).map (·.1.id)).Nodup := by
  rw [List.map_flatMap, List.nodup_flatMap]
  constructor
  · intro chunk _
    rw [List.map_map, List.Nodup, List.pairwise_map]
    have hids := List.pairwise_map.mp hkeyed.documents
    refine (List.pairwise_filter.mpr (hids.imp ?_))
    intro d d' hne hd hd'
    exact absurd ((of_decide_eq_true hd).trans (of_decide_eq_true hd').symm) hne
  · have hids := List.pairwise_map.mp
      (Engine.nodup_filter (p := (chunkIds.contains ·.id)) hkeyed.chunks)
    refine hids.imp ?_
    intro chunk chunk' hne
    refine List.disjoint_left.mpr ?_
    intro id hid hid'
    obtain ⟨row, hrow, rfl⟩ := List.mem_map.mp hid
    obtain ⟨row', hrow', hsame⟩ := List.mem_map.mp hid'
    obtain ⟨d, -, rfl⟩ := List.mem_map.mp hrow
    obtain ⟨d', -, rfl⟩ := List.mem_map.mp hrow'
    exact hne hsame.symm

/-- The ids are of no chunk that another organization has. -/
def Confined (chunkIds : List Uuid) (organizationId : Uuid) (s : Tables V K) : Prop :=
  s.Partitioned ∧ ∀ c ∈ s.chunks, c.id ∈ chunkIds → c.organizationId = organizationId

/-- **The evidence graph loads chunks by their ids alone**, and their documents by theirs. -/
theorem determined_titledChunks {chunkIds : List Uuid} :
    Determined (Confined chunkIds organizationId) (Tables.Agree organizationId)
      fun s : Tables V K => titledChunks b s chunkIds := by
  rintro s s' ⟨hs, hids⟩ ⟨hs', hids'⟩ hview
  refine b.engine.congr (nodup_titled hs.keyed chunkIds) ?_
  have hchunks := Table.chunks.perm_filter (p := (chunkIds.contains ·.id)) hview
    (fun c hc hp => hids c hc (List.contains_iff_mem.mp hp))
    fun c hc hp => hids' c hc (List.contains_iff_mem.mp hp)
  refine hchunks.flatMap fun c hc => ?_
  -- The document of a chunk has the owner of the chunk, in either state.
  have hdocument : ∀ {s : Tables V K}, s.Partitioned →
      c ∈ s.chunks.filter (chunkIds.contains ·.id) → c.organizationId = organizationId →
        ∀ d ∈ s.documents, d.id = c.documentId → d.organizationId = organizationId := by
    intro s hs hc howner d hd hid
    have hplace : d.place ∈ s.places := List.mem_map_of_mem hd
    rw [DocumentRecord.place, hid] at hplace
    have hsame := hs.keyed.place_unique hplace (hs.chunks c (List.mem_of_mem_filter hc))
    exact (congrArg Prod.snd hsame).trans howner
  have hc' := hchunks.mem_iff.mp hc
  obtain ⟨hmem, hid⟩ := List.mem_filter.mp hc
  have howner := hids c hmem (List.contains_iff_mem.mp hid)
  exact (Table.documents.perm_filter hview
    (fun d hd hp => hdocument hs hc howner d hd (of_decide_eq_true hp))
    fun d hd hp => hdocument hs' hc' howner d hd (of_decide_eq_true hp)).map _

/-- What the graph of a trace is built from. -/
theorem determined_evidenceGraph {traceId : Uuid} {R : Type} (f : Str × Graph × GraphSummary → R) :
    Determined Tables.Partitioned (Tables.Agree principal.organizationId) fun s : Tables V K =>
      getTrace b s principal traceId >>= fun trace =>
        (Except.ok (f (traceEvidenceGraph b s trace)) : Except Exc R) := by
  refine (determined_getTrace fun _ hs => hs.keyed).bind fun trace => ?_
  have hgraph : Determined (Confined trace.row.retrievedChunkIds principal.organizationId)
      (Tables.Agree principal.organizationId)
        fun s : Tables V K => traceEvidenceGraph b s trace := by
    intro s s' hs hs' hview
    have htitled := determined_titledChunks (b := b) s s' hs hs' hview
    simp only [traceEvidenceGraph, graphChunks, htitled]
  refine (hgraph.map fun graph => Except.ok (f graph)).mono ?_
  rintro s ⟨hs, htrace⟩
  obtain ⟨ht, hselected⟩ := Engine.of_scalar (orRaise_eq_ok.mp htrace)
  refine ⟨hs, fun c hc hid => ?_⟩
  exact (hs.cited trace ht c hc hid).trans (of_decide_eq_true hselected).2

/-! ### Evaluations -/

theorem determined_getDataset (hI : ∀ s, I s → s.Keyed) {datasetId : Uuid} :
    Determined I (Tables.Agree principal.organizationId)
      fun s => getDataset b s principal datasetId :=
  (Table.datasets.determined_scalar hI fun _ _ _ _ hp => (of_decide_eq_true hp).2).map
    fun row => (orRaise (datasetNotFound datasetId) row).map (EvaluationDataset.load b)

theorem determined_listDatasets (hI : ∀ s, I s → s.Keyed) :
    Determined I (Tables.Agree principal.organizationId)
      fun s => listDatasets b s principal projectId :=
  (Table.datasets.determined_select hI fun _ _ _ _ hp => (of_decide_eq_true hp).2).map
    (List.map (EvaluationDataset.load b))

theorem determined_getRun (hI : ∀ s, I s → s.Keyed) {runId : Uuid} :
    Determined I (Tables.Agree principal.organizationId)
      fun s => getRun b s principal runId :=
  (Table.runs.determined_scalar hI fun _ _ _ _ hp => (of_decide_eq_true hp).2).map
    (orRaise (runNotFound runId))

theorem determined_listRuns (hI : ∀ s, I s → s.Keyed) :
    Determined I (Tables.Agree principal.organizationId)
      fun s => listRuns b s principal projectId :=
  Table.runs.determined_select hI fun _ _ _ _ hp => (of_decide_eq_true hp).2

theorem determined_heatmap (hI : ∀ s, I s → s.Keyed) {metric : String} :
    Determined I (Tables.Agree principal.organizationId)
      fun s => evaluationHeatmap b s principal projectId metric := by
  intro s s' hs hs' hview
  have hruns : listRuns b s principal projectId = listRuns b s' principal projectId :=
    determined_listRuns hI s s' hs hs' hview
  simp only [evaluationHeatmap, hruns]

/-! ### Every read -/

/-- What a read relies on.  Only the evidence graph follows ids without a foreign key. -/
def Read.Relies (s : Tables V K) : Read V → Prop
  | .evidenceGraph _ => s.Partitioned
  | _ => s.Coherent

/-- **What a read returns is determined by the rows of the organization.** -/
theorem determined_respond (read : Read V) :
    Determined read.Relies (Tables.Agree principal.organizationId)
      fun s : Tables V K => respond b s principal read := by
  have hkeyed : ∀ s : Tables V K, s.Coherent → s.Keyed := fun _ hs => hs.keyed
  cases read with
  | projects => exact (determined_listProjects hkeyed).map fun r => Except.ok (Response.projects r)
  | project projectId => exact (determined_getProject hkeyed).bind fun r => .const _
  | documents projectId =>
      exact Determined.inProject fun projectId =>
        determined_listDocuments.map fun r => Except.ok (Response.documents r)
  | document projectId documentId =>
      exact Determined.inProject fun projectId => determined_getDocument.bind fun r => .const _
  | chunks projectId documentId =>
      exact Determined.inProject fun projectId => determined_listChunks.bind fun r => .const _
  | search embeddings request => exact determined_search.bind fun r => .const _
  | query deps embeddings request => exact determined_query.bind fun r => .const _
  | comparison embeddings elapsed request => exact determined_comparison.bind fun r => .const _
  | traces projectId limit =>
      exact (determined_listTraces hkeyed).map fun r => Except.ok (Response.traces r)
  | trace traceId => exact (determined_getTrace hkeyed).bind fun r => .const _
  | timeline traceId => exact (determined_getTrace hkeyed).bind fun r => .const _
  | evidenceGraph traceId =>
      exact determined_evidenceGraph fun graph =>
        Response.evidenceGraph graph.1 graph.2.1 graph.2.2
  | datasets projectId =>
      exact (determined_listDatasets hkeyed).map fun r => Except.ok (Response.datasets r)
  | dataset datasetId => exact (determined_getDataset hkeyed).bind fun r => .const _
  | runs projectId => exact (determined_listRuns hkeyed).map fun r => Except.ok (Response.runs r)
  | run runId => exact (determined_getRun hkeyed).bind fun r => .const _
  | results runId => exact (determined_getRun hkeyed).bind fun r => .const _
  | heatmap projectId metric => exact (determined_heatmap hkeyed).bind fun r => .const _

/-! ### Rows that are not there -/

/-- What a read names by an id. -/
inductive Named
  | project (projectId : Uuid)
  | document (projectId documentId : Uuid)
  | trace (traceId : Uuid)
  | dataset (datasetId : Uuid)
  | run (runId : Uuid)

/-- The organization has such a row. -/
def Named.Owned (s : Tables V K) (organizationId : Uuid) : Named → Prop
  | .project projectId => ∃ p ∈ s.projects, p.organizationId = organizationId ∧ p.id = projectId
  | .document projectId documentId => ∃ d ∈ s.documents, d.organizationId = organizationId ∧
      d.id = documentId ∧ d.projectId = projectId
  | .trace traceId => ∃ t ∈ s.traces, t.organizationId = organizationId ∧ t.row.id = traceId
  | .dataset datasetId => ∃ d ∈ s.datasets, d.organizationId = organizationId ∧ d.id = datasetId
  | .run runId => ∃ r ∈ s.runs, r.organizationId = organizationId ∧ r.id = runId

instance (s : Tables V K) (organizationId : Uuid) (name : Named) :
    Decidable (name.Owned s organizationId) :=
  match name with
  | .project _ => inferInstanceAs (Decidable (∃ p ∈ s.projects, _))
  | .document _ _ => inferInstanceAs (Decidable (∃ d ∈ s.documents, _))
  | .trace _ => inferInstanceAs (Decidable (∃ t ∈ s.traces, _))
  | .dataset _ => inferInstanceAs (Decidable (∃ d ∈ s.datasets, _))
  | .run _ => inferInstanceAs (Decidable (∃ r ∈ s.runs, _))

/-- The error that there is no such row. -/
def Named.notFound : Named → DomainError
  | .project projectId => projectNotFound projectId
  | .document _ documentId => Ingest.documentNotFound documentId "Document not found."
  | .trace traceId => traceNotFound traceId
  | .dataset datasetId => datasetNotFound datasetId
  | .run runId => runNotFound runId

/-- What a read looks up by its id, in this order. -/
def Read.names : Read V → List Named
  | .project projectId => [.project projectId]
  | .documents projectId => [.project projectId]
  | .document projectId documentId => [.project projectId, .document projectId documentId]
  | .chunks projectId documentId => [.project projectId, .document projectId documentId]
  | .search _ request => [.project request.projectId]
  | .query _ _ request => [.project request.projectId]
  | .comparison _ _ request => [.project request.projectId]
  | .trace traceId => [.trace traceId]
  | .timeline traceId => [.trace traceId]
  | .evidenceGraph traceId => [.trace traceId]
  | .dataset datasetId => [.dataset datasetId]
  | .run runId => [.run runId]
  | .results runId => [.run runId]
  | .projects => []
  | .traces _ _ => []
  | .datasets _ => []
  | .runs _ => []
  | .heatmap _ _ => []

variable {s : Tables V K} {traceId datasetId runId : Uuid}

theorem orRaise_of_none {α : Type} {e : DomainError} {key : α → Uuid} {p : α → Bool}
    {rows : List α} (h : ∀ r ∈ rows, p r = false) :
    orRaise e (b.engine.scalar key p rows) = .error (.domain e) := by
  rw [Engine.scalar_eq_none.mpr h]
  rfl

theorem getProject_of_not_owned
    (h : ¬ (Named.project projectId).Owned s principal.organizationId) :
    getProject b s principal projectId = .error (.domain (projectNotFound projectId)) :=
  orRaise_of_none fun p hp => decide_eq_false fun hsel => h ⟨p, hp, hsel.2, hsel.1⟩

theorem getProjectScope_of_not_owned
    (h : ¬ (Named.project projectId).Owned s principal.organizationId) :
    getProjectScope b s principal projectId = .error (.domain (projectNotFound projectId)) := by
  rw [getProjectScope, getProject_of_not_owned h]
  rfl

theorem getTrace_of_not_owned (h : ¬ (Named.trace traceId).Owned s principal.organizationId) :
    getTrace b s principal traceId = .error (.domain (traceNotFound traceId)) :=
  orRaise_of_none fun t ht => decide_eq_false fun hsel => h ⟨t, ht, hsel.2, hsel.1⟩

theorem getDataset_of_not_owned
    (h : ¬ (Named.dataset datasetId).Owned s principal.organizationId) :
    getDataset b s principal datasetId = .error (.domain (datasetNotFound datasetId)) := by
  have hrow : orRaise (datasetNotFound datasetId) (b.engine.scalar (·.id)
      (fun d => d.id = datasetId ∧ d.organizationId = principal.organizationId) s.datasets) =
        .error (.domain (datasetNotFound datasetId)) :=
    orRaise_of_none fun d hd => decide_eq_false fun hsel => h ⟨d, hd, hsel.2, hsel.1⟩
  rw [getDataset, hrow]
  rfl

theorem getRun_of_not_owned (h : ¬ (Named.run runId).Owned s principal.organizationId) :
    getRun b s principal runId = .error (.domain (runNotFound runId)) :=
  orRaise_of_none fun r hr => decide_eq_false fun hsel => h ⟨r, hr, hsel.2, hsel.1⟩

/-- In a project of the organization, where a document has the owner of its project. -/
theorem getDocument_of_not_owned (hs : InProject projectId organizationId s)
    (h : ¬ (Named.document projectId documentId).Owned s organizationId) :
    getDocument b s documentId projectId =
      .error (.domain (Ingest.documentNotFound documentId "Document not found.")) :=
  orRaise_of_none fun d hd => decide_eq_false fun hsel =>
    h ⟨d, hd, hs.1.document_owner hs.2 hd hsel.2, hsel.1, hsel.2⟩

/-- A name that is first of two and owned is behind the check of a project. -/
theorem scope_of_owned (h : (Named.project projectId).Owned s principal.organizationId) :
    ∃ projectId', getProjectScope b s principal projectId = .ok projectId' ∧
      projectId' = projectId := by
  obtain ⟨p, hp, howner, hid⟩ := h
  have hsome : b.engine.scalar (·.id) (fun p : Project => p.id = projectId ∧
      p.organizationId = principal.organizationId) s.projects ≠ none := by
    intro hnone
    have hfalse := Engine.scalar_eq_none.mp hnone p hp
    exact of_decide_eq_false hfalse ⟨hid, howner⟩
  obtain ⟨p', hp'⟩ := Option.ne_none_iff_exists'.mp hsome
  refine ⟨p'.id, ?_, (of_decide_eq_true (Engine.of_scalar hp').2).1⟩
  rw [getProjectScope, getProject, hp']
  rfl

/-- A read with one name. -/
theorem not_owned_of_one {first name : Named}
    (h : [first].find? (fun name => ¬ name.Owned s organizationId) = some name) :
    first = name ∧ ¬ first.Owned s organizationId := by
  rcases List.find?_cons_eq_some.mp h with ⟨hnot, hname⟩ | ⟨-, h⟩
  · exact ⟨hname, of_decide_eq_true hnot⟩
  · cases h

/-- A read of a document, which is behind its project. -/
theorem document_of_not_owned {R : Type} {read : Uuid → Except Exc R} {name : Named}
    (hs : s.Coherent)
    (h : [Named.project projectId, .document projectId documentId].find?
      (fun name => ¬ name.Owned s principal.organizationId) = some name)
    (hread : ∀ e, getDocument b s documentId projectId = .error e → read projectId = .error e) :
    (getProjectScope b s principal projectId >>= read) = .error (.domain name.notFound) := by
  rcases List.find?_cons_eq_some.mp h with ⟨hnot, rfl⟩ | ⟨howned, h⟩
  · exact bind_of_error (getProjectScope_of_not_owned (of_decide_eq_true hnot))
  · rw [Bool.not_eq_true', decide_eq_false_iff_not, not_not] at howned
    obtain ⟨projectId', hscope, rfl⟩ := scope_of_owned (b := b) howned
    obtain ⟨rfl, hnot⟩ := not_owned_of_one h
    rw [hscope]
    exact hread _ (getDocument_of_not_owned ⟨hs, (owner_of_getProjectScope hscope).2⟩ hnot)

/-- **A row that the organization does not have is not found**, whether it is another
organization's or nobody's. -/
theorem respond_of_not_owned (hs : s.Coherent) {read : Read V} {name : Named}
    (h : read.names.find? (fun name => ¬ name.Owned s principal.organizationId) = some name) :
    respond b s principal read = .error (.domain name.notFound) := by
  cases read with
  | project projectId =>
      obtain ⟨rfl, hnot⟩ := not_owned_of_one h
      exact bind_of_error (getProject_of_not_owned hnot)
  | documents projectId =>
      obtain ⟨rfl, hnot⟩ := not_owned_of_one h
      exact bind_of_error (getProjectScope_of_not_owned hnot)
  | document projectId documentId => exact document_of_not_owned hs h fun _ => bind_of_error
  | chunks projectId documentId =>
      exact document_of_not_owned hs h fun _ he => bind_of_error (bind_of_error he)
  | search embeddings request =>
      obtain ⟨rfl, hnot⟩ := not_owned_of_one h
      exact bind_of_error (bind_of_error (getProject_of_not_owned hnot))
  | query deps embeddings request =>
      obtain ⟨rfl, hnot⟩ := not_owned_of_one h
      have hcheck : checkQuery (queryDeps b principal (fun _ => s) embeddings deps).query request =
          .error (.domain (projectNotFound request.projectId)) :=
        bind_of_error (getProjectScope_of_not_owned hnot)
      refine bind_of_error ?_
      rw [createQueryTraced, hcheck]
      rfl
  | comparison embeddings elapsed request =>
      obtain ⟨rfl, hnot⟩ := not_owned_of_one h
      exact bind_of_error (bind_of_error (getProject_of_not_owned hnot))
  | trace traceId =>
      obtain ⟨rfl, hnot⟩ := not_owned_of_one h
      exact bind_of_error (getTrace_of_not_owned hnot)
  | timeline traceId =>
      obtain ⟨rfl, hnot⟩ := not_owned_of_one h
      exact bind_of_error (getTrace_of_not_owned hnot)
  | evidenceGraph traceId =>
      obtain ⟨rfl, hnot⟩ := not_owned_of_one h
      exact bind_of_error (getTrace_of_not_owned hnot)
  | dataset datasetId =>
      obtain ⟨rfl, hnot⟩ := not_owned_of_one h
      exact bind_of_error (getDataset_of_not_owned hnot)
  | run runId =>
      obtain ⟨rfl, hnot⟩ := not_owned_of_one h
      exact bind_of_error (getRun_of_not_owned hnot)
  | results runId =>
      obtain ⟨rfl, hnot⟩ := not_owned_of_one h
      exact bind_of_error (getRun_of_not_owned hnot)
  | _ => cases h

end Reads

/-! ### Every run -/

/-- **Tenant isolation.**  Let two runs of the operations, whatever they are and whatever
each of their statements sees, lead to states that have the rows of a principal's
organization in common.  Then every read of the principal gives the same response in both,
and one that names a row which the organization does not have raises that it is not found,
no matter who else has such a row.  The evidence graph of a trace finds chunks by their ids
alone, so for it no two documents may ever have had chunks of one id. -/
theorem reads_isolated [Field K] [LinearOrder K] (b : Backend V) (log2 : ℕ → K)
    (chunkIdFor : Uuid → ℕ → Uuid) {es es' : List (Command V × (ℕ → ℕ))}
    {h h' : History (Tables V K)}
    (hrun : run (History.step (commit b log2 chunkIdFor)) ⟨{}, []⟩ es = some h)
    (hrun' : run (History.step (commit b log2 chunkIdFor)) ⟨{}, []⟩ es' = some h')
    (principal : Principal) (hview : h.now.Agree principal.organizationId h'.now) (read : Read V)
    (hids : ∀ traceId, read = .evidenceGraph traceId →
      NoCollision chunkIdFor h ∧ NoCollision chunkIdFor h') :
    respond b h.now principal read = respond b h'.now principal read ∧
      ∀ name, read.names.find? (fun name => ¬ name.Owned h.now principal.organizationId) =
        some name → respond b h.now principal read = .error (.domain name.notFound) := by
  have hinv := inv_of_run hrun
  have hinv' := inv_of_run hrun'
  refine ⟨?_, fun _ => respond_of_not_owned hinv.now⟩
  have hrelies : read.Relies h.now ∧ read.Relies h'.now := by
    cases read with
    | evidenceGraph traceId =>
        obtain ⟨hids, hids'⟩ := hids traceId rfl
        exact ⟨hinv.partitioned hids, hinv'.partitioned hids'⟩
    | _ => exact ⟨hinv.now, hinv'.now⟩
  exact determined_respond read h.now h'.now hrelies.1 hrelies.2 hview

instance (chunkIdFor : Uuid → ℕ → Uuid) (h : History (Tables V K)) :
    Decidable (NoCollision chunkIdFor h) :=
  inferInstanceAs (Decidable (∀ s ∈ h.states, ∀ s' ∈ h.states, ∀ c ∈ s.chunks, ∀ c' ∈ s'.chunks,
    _ = _ → c.documentId = c'.documentId))

/-- A database that gives rows back by their ids, and every text matches. -/
def sampleBackend : Backend ℕ where
  engine := .byKey Uuid
  cosineDistance _ _ := 0
  isMatch _ _ := true
  rankCd _ _ := 0
  lexemes _ := []
  queryLexemes _ := []
  analyze _ := .conceptual
  render _ := []

/-- Ids with the ordinal in the last three digits. -/
def sampleIds (documentId : Uuid) (ordinal : ℕ) : Uuid := Fin.ofNat _ (1000 * documentId + ordinal)

/-- Its transactions. -/
def sampleStep : History (Tables ℕ ℚ) → Command ℕ × (ℕ → ℕ) → Option (History (Tables ℕ ℚ)) :=
  History.step (commit sampleBackend (fun n => Nat.log2 n) sampleIds)

/-- A project, a document in it, and its chunks. -/
def sampleCommands : List (Command ℕ × (ℕ → ℕ)) :=
  [(.createProject ⟨2, 1⟩ { name := [] } 3 0, fun _ => 0),
    (.upload ⟨2, 1⟩ 3 sampleUpload 0, fun _ => 0),
    (.runIngestion sampleIngest 0, fun _ => 0)]

/-- A project of another organization. -/
def foreignCommand : Command ℕ × (ℕ → ℕ) := (.createProject ⟨5, 4⟩ { name := [] } 9 0, fun _ => 0)

/-- Before and after another organization has made a project, every read is the same. -/
theorem reads_isolated_sample : ∃ h h',
    run sampleStep ⟨{}, []⟩ sampleCommands = some h ∧
    run sampleStep ⟨{}, []⟩ (sampleCommands ++ [foreignCommand]) = some h' ∧
    ∀ read : Read ℕ, respond sampleBackend h.now ⟨2, 1⟩ read =
      respond sampleBackend h'.now ⟨2, 1⟩ read := by
  have hrun' : ∃ h' ∈ run sampleStep ⟨{}, []⟩ (sampleCommands ++ [foreignCommand]),
      NoCollision sampleIds h' := by
    decide +kernel
  obtain ⟨h', hrun', hids'⟩ := hrun'
  obtain ⟨h, hrun, hlast⟩ := run_append.mp hrun'
  obtain ⟨h'', hstep, hend⟩ := run_cons.mp hlast
  obtain rfl := Option.some.inj hend
  obtain ⟨s, hcommit, rfl⟩ := History.step_eq_some.mp hstep
  obtain ⟨-, rfl⟩ := Tables.checked_eq_some.mp hcommit
  have hids : NoCollision sampleIds h := fun s hs s' hs' =>
    hids' s (List.mem_cons_of_mem _ hs) s' (List.mem_cons_of_mem _ hs')
  refine ⟨h, _, hrun, hrun', fun read =>
    (reads_isolated sampleBackend _ sampleIds hrun hrun' ⟨2, 1⟩ ?_ read
      fun _ _ => ⟨hids, hids'⟩).1⟩
  refine ⟨.of_eq ?_, .refl _, .refl _, .refl _, .refl _, .refl _⟩
  show _ = (h.now.projects ++ [_]).filter _
  rw [List.filter_append]
  exact (List.append_nil _).symm

end Tenancy
end EvidenceLab
