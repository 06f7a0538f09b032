/-
# An organization on its own

The database holds the rows of all organizations together, and a job is not told whose it is.
Still, every operation unwinds: one for another organization leaves the rows of this one as they
are, and one for this organization does with these rows alone what it does among all.  So if
the operations for the others are taken out of a run, what is left is a run, and leads to the
very rows that the organization has (`others_unfelt`).

A job for embedding writes to chunks by their ids alone, so for this no two documents may ever
have had chunks of one id.
-/

import EvidenceLab.Ingest.Payments
import EvidenceLab.Runs.Purge
import EvidenceLab.Tenancy.Housing
import EvidenceLab.Tenancy.Isolation

namespace EvidenceLab
namespace Tenancy

open Text Data EvidenceLab.Core Retrieval Ingest Evaluation Reasoning Runs Session

variable {V K : Type}

/-! ### The rows of an organization -/

section Only

variable (organizationId : Uuid) (s : Tables V K)

/-- The rows of an organization. -/
def Tables.only : Tables V K where
  projects := s.projects.filter (·.organizationId = organizationId)
  documents := s.documents.filter (·.organizationId = organizationId)
  chunks := s.chunks.filter (·.organizationId = organizationId)
  traces := s.traces.filter (·.organizationId = organizationId)
  datasets := s.datasets.filter (·.organizationId = organizationId)
  runs := s.runs.filter (·.organizationId = organizationId)

variable {organizationId} in
/-- A row of the organization among the rows. -/
theorem mem_own {α : Type} {owner : α → Uuid} {rows : List α} {r : α}
    (h : r ∈ rows.filter (owner · = organizationId)) : r ∈ rows ∧ owner r = organizationId :=
  ⟨List.mem_of_mem_filter h, of_decide_eq_true (List.mem_filter.mp h).2⟩

theorem agree_only : s.Agree organizationId (s.only organizationId) := by
  constructor <;> simp only [Tables.only, List.filter_filter, Bool.and_self, List.Perm.refl]

variable {organizationId s}

theorem keyed_only (h : s.Keyed) : (s.only organizationId).Keyed where
  projects := h.projects.sublist (List.filter_sublist.map _)
  documents := h.documents.sublist (List.filter_sublist.map _)
  chunks := h.chunks.sublist (List.filter_sublist.map _)
  traces := h.traces.sublist (List.filter_sublist.map _)
  datasets := h.datasets.sublist (List.filter_sublist.map _)
  runs := h.runs.sublist (List.filter_sublist.map _)

theorem unique_only (h : s.Unique) : (s.only organizationId).Unique where
  projects := h.projects.sublist (List.filter_sublist.map _)
  documents := h.documents.sublist (List.filter_sublist.map _)
  chunks := h.chunks.sublist (List.filter_sublist.map _)
  datasets := h.datasets.sublist (List.filter_sublist.map _)

/-- What a row of the organization refers to is the organization's. -/
theorem mem_owners_only {projectId : Uuid} :
    (projectId, organizationId) ∈ (s.only organizationId).owners ↔
      (projectId, organizationId) ∈ s.owners := by
  refine ⟨fun h => (List.filter_sublist.map _).subset h, fun h => ?_⟩
  obtain ⟨p, hp, hpair⟩ := List.mem_map.mp h
  refine List.mem_map.mpr ⟨p, List.mem_filter.mpr ⟨hp, decide_eq_true ?_⟩, hpair⟩
  exact congrArg Prod.snd hpair

theorem mem_places_only {documentId projectId : Uuid}
    (h : (documentId, projectId, organizationId) ∈ s.places) :
    (documentId, projectId, organizationId) ∈ (s.only organizationId).places := by
  obtain ⟨d, hd, hpair⟩ := List.mem_map.mp h
  refine List.mem_map.mpr ⟨d, List.mem_filter.mpr ⟨hd, decide_eq_true ?_⟩, hpair⟩
  exact congrArg (fun place => place.2.2) hpair

theorem coherent_only (h : s.Coherent) : (s.only organizationId).Coherent where
  keyed := keyed_only h.keyed
  documents := by
    intro place hplace
    obtain ⟨d, hd, rfl⟩ := List.mem_map.mp hplace
    obtain ⟨hmem, rfl⟩ := mem_own hd
    exact mem_owners_only.mpr (h.documents _ (List.mem_map_of_mem hmem))
  chunks := by
    intro c hc
    obtain ⟨hmem, rfl⟩ := mem_own hc
    exact mem_places_only (h.chunks c hmem)

theorem partitioned_only (h : s.Partitioned) : (s.only organizationId).Partitioned where
  toCoherent := coherent_only h.toCoherent
  cited t ht c hc := h.cited t (List.mem_of_mem_filter ht) c (List.mem_of_mem_filter hc)

theorem mem_projectIds {projectId : Uuid} (h : (projectId, organizationId) ∈ s.owners) :
    projectId ∈ s.projectIds := by
  obtain ⟨p, hp, hpair⟩ := List.mem_map.mp h
  exact List.mem_map.mpr ⟨p, hp, congrArg Prod.fst hpair⟩

/-- The constraints hold of the rows of one organization. -/
theorem constrained_only (h : s.Constrained) (hcoherent : s.Coherent) (hhoused : s.Housed) :
    (s.only organizationId).Constrained := by
  have hproject : ∀ {projectId}, (projectId, organizationId) ∈ s.owners →
      projectId ∈ (s.only organizationId).projectIds :=
    fun howner => mem_projectIds (mem_owners_only.mpr howner)
  refine ⟨keyed_only h.keyed, unique_only h.unique, ?_, ?_, ?_, ?_, ?_⟩
  · intro d hd
    obtain ⟨hmem, rfl⟩ := mem_own hd
    exact hproject (hcoherent.documents _ (List.mem_map_of_mem hmem))
  · intro c hc
    obtain ⟨hmem, rfl⟩ := mem_own hc
    obtain ⟨d, hd, hplace⟩ := List.mem_map.mp (mem_places_only (hcoherent.chunks c hmem))
    exact ⟨List.mem_map.mpr ⟨d, hd, congrArg Prod.fst hplace⟩,
      hproject (hcoherent.documents _ (hcoherent.chunks c hmem))⟩
  · intro t ht
    obtain ⟨hmem, rfl⟩ := mem_own ht
    exact hproject (hhoused.traces t hmem)
  · intro d hd
    obtain ⟨hmem, rfl⟩ := mem_own hd
    exact hproject (hhoused.datasets d hmem)
  · intro r hr
    obtain ⟨hmem, rfl⟩ := mem_own hr
    obtain ⟨d, hd, hid, hhome⟩ := hhoused.runs r hmem
    refine ⟨List.mem_map.mpr ⟨d, List.mem_filter.mpr ⟨hd, decide_eq_true ?_⟩, hid⟩, ?_⟩
    · exact congrArg Prod.snd hhome
    · have hin := hhoused.datasets d hd
      rw [hhome] at hin
      exact hproject hin

end Only

/-- The organization that an operation works for: the caller's, or that of the row it finds. -/
def Command.organization (s : Tables V K) : Command V → Option Uuid
  | .createProject principal .. => some principal.organizationId
  | .upload principal .. => some principal.organizationId
  | .createQuery principal .. => some principal.organizationId
  | .createDataset principal .. => some principal.organizationId
  | .createRun principal .. => some principal.organizationId
  | .runIngestion a _ => (s.documents.find? (·.id = a.documentId)).map (·.organizationId)
  | .embedDocument a _ => (s.documents.find? (·.id = a.documentId)).map (·.organizationId)
  | .execute a .. => (s.runs.find? (·.id = a.runId)).map (·.organizationId)

/-! ### Writing among the rows of one organization -/

section Rows

variable {α : Type} {owner : α → Uuid} {organizationId : Uuid} {rows new : List α} {f : α → α}

theorem filter_append_own (h : ∀ r ∈ new, owner r = organizationId) :
    (rows ++ new).filter (owner · = organizationId) =
      rows.filter (owner · = organizationId) ++ new := by
  rw [List.filter_append, List.filter_eq_self.mpr fun r hr => decide_eq_true (h r hr)]

theorem filter_append_others (h : ∀ r ∈ new, owner r ≠ organizationId) :
    (rows ++ new).filter (owner · = organizationId) = rows.filter (owner · = organizationId) := by
  have hnone : new.filter (owner · = organizationId) = [] :=
    List.filter_eq_nil_iff.mpr fun r hr hown => h r hr (of_decide_eq_true hown)
  rw [List.filter_append, hnone, List.append_nil]

theorem filter_map_own (hf : ∀ r, owner (f r) = owner r) :
    (rows.map f).filter (owner · = organizationId) =
      (rows.filter (owner · = organizationId)).map f := by
  rw [List.filter_map]
  exact congrArg (List.map f) (List.filter_congr fun r _ => by rw [Function.comp_apply, hf])

/-- Writes to rows of others leave the rows of the organization as they are. -/
theorem filter_map_others (hf : ∀ r, owner (f r) = owner r)
    (h : ∀ r ∈ rows, owner r = organizationId → f r = r) :
    (rows.map f).filter (owner · = organizationId) = rows.filter (owner · = organizationId) := by
  rw [filter_map_own hf]
  refine (List.map_congr_left fun r hr => ?_).trans (List.map_id _)
  exact h r (List.mem_of_mem_filter hr) (mem_own hr).2

theorem find?_own {p : α → Bool} {r : α} (h : rows.find? p = some r)
    (howner : owner r = organizationId) :
    (rows.filter (owner · = organizationId)).find? p = some r := by
  obtain ⟨hp, before, after, rfl, hbefore⟩ := List.find?_eq_some_iff_append.mp h
  refine List.find?_eq_some_iff_append.mpr ⟨hp, before.filter (owner · = organizationId),
    after.filter (owner · = organizationId), ?_, fun r' hr' =>
      hbefore r' (List.mem_of_mem_filter hr')⟩
  rw [List.filter_append]
  exact congrArg _ (List.filter_cons_of_pos (decide_eq_true howner))

end Rows

/-! ### Operations for the organization -/

section Own

variable {b : Backend V} {chunkIdFor : Uuid → ℕ → Uuid} {h : History (Tables V K)}
  {snapshot : ℕ → ℕ} {principal : Principal} {organizationId projectId : Uuid}
  {s : Tables V K} {now : ℤ}

theorem getProject_only (hs : s.Keyed) :
    getProject b (s.only principal.organizationId) principal projectId =
      getProject b s principal projectId :=
  (determined_getProject (I := Tables.Keyed) (fun _ => id) s _ hs (keyed_only hs)
    (agree_only _ s)).symm

theorem getProjectScope_only (hs : s.Keyed) :
    getProjectScope b (s.only principal.organizationId) principal projectId =
      getProjectScope b s principal projectId := by
  simp only [getProjectScope, getProject_only hs]

theorem getDataset_only (hs : s.Keyed) {datasetId : Uuid} :
    getDataset b (s.only principal.organizationId) principal datasetId =
      getDataset b s principal datasetId :=
  (determined_getDataset (I := Tables.Keyed) (fun _ => id) s _ hs (keyed_only hs)
    (agree_only _ s)).symm

/-- The documents of a project have its owner, in every state that has been. -/
theorem Inv.document_owner (hinv : Inv chunkIdFor h) (hs : s ∈ h.states)
    (hp : (projectId, organizationId) ∈ h.now.owners) {d : DocumentRecord} (hd : d ∈ s.documents)
    (hproject : d.projectId = projectId) : d.organizationId = organizationId := by
  subst hproject
  have howner := (hinv.coherent s hs).documents _ (List.mem_map_of_mem hd)
  exact hinv.now.keyed.owner_unique (hinv.owner_now hs howner) hp

/-- So have its chunks. -/
theorem Inv.chunk_owner (hinv : Inv chunkIdFor h) (hs : s ∈ h.states)
    (hp : (projectId, organizationId) ∈ h.now.owners) {c : ChunkRecord V} (hc : c ∈ s.chunks)
    (hproject : c.projectId = projectId) : c.organizationId = organizationId := by
  subst hproject
  have howner := (hinv.coherent s hs).documents _ ((hinv.coherent s hs).chunks c hc)
  exact hinv.now.keyed.owner_unique (hinv.owner_now hs howner) hp

/-- The chunks of a document have its owner. -/
theorem Inv.chunk_ofDocument (hinv : Inv chunkIdFor h) (hs : s ∈ h.states) {d : DocumentRecord}
    (hd : d ∈ h.now.documents) {c : ChunkRecord V} (hc : c ∈ s.chunks)
    (hdocument : c.documentId = d.id) : c.organizationId = d.organizationId := by
  have hplace := (hinv.grows s hs).places ((hinv.coherent s hs).chunks c hc)
  rw [ChunkRecord.place, hdocument] at hplace
  exact congrArg Prod.snd (hinv.now.keyed.place_unique hplace (List.mem_map_of_mem hd))

/-- A project of the organization has the same chunks among its rows. -/
theorem Inv.sameProject (hinv : Inv chunkIdFor h) (hs : s ∈ h.states)
    (hp : (projectId, organizationId) ∈ h.now.owners) :
    SameProject projectId s.chunks (s.only organizationId).chunks :=
  ⟨(hinv.coherent s hs).keyed.chunks, Table.chunks.perm_filter (agree_only organizationId s)
    (fun _ hc hproject => hinv.chunk_owner hs hp hc (of_decide_eq_true hproject))
    fun _ hc _ => (mem_own hc).2⟩

theorem createProject_only (payload : ProjectCreate) :
    (s.only principal.organizationId).createProject principal payload projectId now =
      (s.createProject principal payload projectId now).only principal.organizationId := by
  simp only [Tables.createProject, Tables.only]
  rw [filter_append_own]
  intro p hp
  rw [List.mem_singleton.mp hp]
  rfl

theorem Inv.upload_only (hinv : Inv chunkIdFor h) {a : UploadAttempt}
    (hs : h.now.upload b (h.seen snapshot) principal projectId a now = some s) :
    (h.now.only principal.organizationId).upload b
      (fun i => (h.seen snapshot i).only principal.organizationId) principal projectId a now =
        some (s.only principal.organizationId) := by
  have hkeyed := fun i => (hinv.coherent _ (h.seen_mem snapshot i)).keyed
  obtain ⟨projectId', hscope, hs⟩ := Option.bind_eq_some_iff.mp hs
  have howner := hinv.checked (toOption_eq_some.mp hscope)
  have hexisting : b.engine.scalar (·.id) (fun d => d.projectId = projectId' ∧
      (readAndHash a).toOption.map Prod.snd = some d.contentHash)
        ((h.seen snapshot 1).only principal.organizationId).documents =
      b.engine.scalar (·.id) (fun d => d.projectId = projectId' ∧
        (readAndHash a).toOption.map Prod.snd = some d.contentHash)
          (h.seen snapshot 1).documents := by
    refine (Engine.scalar_congr (hkeyed 1).documents (Table.documents.perm_filter
      (agree_only principal.organizationId (h.seen snapshot 1)) ?_ fun _ hd _ =>
        (mem_own hd).2)).symm
    intro d hd hselected
    exact hinv.document_owner (h.seen_mem snapshot 1) howner hd (of_decide_eq_true hselected).1
  refine Option.bind_eq_some_iff.mpr ⟨projectId', ?_, ?_⟩
  · rw [getProjectScope_only (hkeyed 0), hscope]
  · dsimp only at hs ⊢
    rw [hexisting]
    split at hs
    · obtain rfl := Option.some.inj hs
      simp only [Tables.only]
      rw [filter_append_own]
      · rfl
      · intro d hd
        rw [List.mem_singleton.mp hd]
        rfl
    · cases hs

theorem Inv.createQuery_only (hinv : Inv chunkIdFor h) {deps : TracedDeps}
    {embeddings : Option (EmbeddingPipeline V)} {request : QueryRequest} :
    (h.now.only principal.organizationId).createQuery b
      (fun i => (h.seen snapshot i).only principal.organizationId) principal deps embeddings
        request now =
      (h.now.createQuery b (h.seen snapshot) principal deps embeddings request now).only
        principal.organizationId := by
  have hkeyed := fun i => (hinv.coherent _ (h.seen_mem snapshot i)).keyed
  have hsaved : (createQueryTraced (queryDeps b principal (h.seen snapshot) embeddings deps)
      request).2 =
        (createQueryTraced (queryDeps b principal (fun i =>
          (h.seen snapshot i).only principal.organizationId) embeddings deps) request).2 := by
    refine congrArg Prod.snd (createQueryTraced_congr (getProjectScope_only (hkeyed 0)).symm ?_)
    intro project hproject
    have howner := hinv.checked hproject
    exact buildRetriever_congr (hinv.sameProject (h.seen_mem snapshot 1) howner)
      (hinv.sameProject (h.seen_mem snapshot 2) howner)
  simp only [Tables.createQuery]
  rw [← hsaved]
  simp only [Tables.only]
  rw [filter_append_own]
  intro t ht
  obtain ⟨saved, hsaved, rfl⟩ := List.mem_map.mp ht
  obtain ⟨-, -, howner, -⟩ := mem_createQueryTraced hsaved
  exact howner

theorem Inv.createDataset_only (hinv : Inv chunkIdFor h) {payload : DatasetCreate}
    {datasetId : Uuid} {itemId : ℕ → Uuid}
    (hs : h.now.createDataset b (h.seen snapshot) principal payload datasetId itemId now = some s) :
    (h.now.only principal.organizationId).createDataset b
      (fun i => (h.seen snapshot i).only principal.organizationId) principal payload datasetId
        itemId now = some (s.only principal.organizationId) := by
  obtain ⟨project, hproject, hs⟩ := Option.bind_eq_some_iff.mp hs
  obtain rfl := Option.some.inj hs
  refine Option.bind_eq_some_iff.mpr ⟨project, ?_, ?_⟩
  · rw [getProject_only (hinv.coherent _ (h.seen_mem snapshot 0)).keyed, hproject]
  · simp only [Tables.only]
    rw [filter_append_own]
    · rfl
    · intro d hd
      rw [List.mem_singleton.mp hd]
      rfl

theorem Inv.createRun_only (hinv : Inv chunkIdFor h) {payload : RunCreate} {runId : Uuid}
    (hs : h.now.createRun b (h.seen snapshot) principal payload runId now = some s) :
    (h.now.only principal.organizationId).createRun b
      (fun i => (h.seen snapshot i).only principal.organizationId) principal payload runId now =
        some (s.only principal.organizationId) := by
  have hkeyed := fun i => (hinv.coherent _ (h.seen_mem snapshot i)).keyed
  obtain ⟨checked, hchecked, hs⟩ := Option.bind_eq_some_iff.mp hs
  obtain ⟨dataset, hdataset, hs⟩ := Option.bind_eq_some_iff.mp hs
  obtain rfl := Option.some.inj hs
  refine Option.bind_eq_some_iff.mpr ⟨checked, ?_, Option.bind_eq_some_iff.mpr ⟨dataset, ?_, ?_⟩⟩
  · rw [getDataset_only (hkeyed 0), hchecked]
  · rw [getDataset_only (hkeyed 1), hdataset]
  · simp only [Tables.only]
    rw [filter_append_own]
    · rfl
    · intro r hr
      rw [List.mem_singleton.mp hr]
      rfl

theorem organizationId_setDocument (d : DocumentRecord) (document : Option Document)
    (row : DocumentRecord) :
    (if row.id = d.id ∧ document ≠ some row.toDocument then
      { row with toDocument := document.getD row.toDocument, updatedAt := now }
      else row).organizationId = row.organizationId := by
  split <;> rfl

theorem setDocument_only (d : DocumentRecord) (document : Option Document) :
    (s.only organizationId).setDocument d document now =
      (s.setDocument d document now).only organizationId := by
  simp only [Tables.setDocument, Tables.only]
  rw [filter_map_own (organizationId_setDocument d document)]

/-- What is stored of a document of the organization is among its rows. -/
theorem Inv.store_only (hinv : Inv chunkIdFor h) (hs : s ∈ h.states) {d : DocumentRecord}
    (hd : d ∈ h.now.documents) : (s.only d.organizationId).store d = s.store d := by
  have hchunks : (s.chunks.filter (·.organizationId = d.organizationId)).filter
      (·.documentId = d.id) = s.chunks.filter (·.documentId = d.id) := by
    rw [List.filter_filter]
    refine List.filter_congr fun c hc => ?_
    by_cases hdocument : c.documentId = d.id
    · simp [hdocument, hinv.chunk_ofDocument hs hd hc hdocument]
    · simp [hdocument]
  simp only [Tables.store, Tables.only, hchunks]

theorem Inv.ingest_only (hinv : Inv chunkIdFor h) {a : IngestAttempt} {d : DocumentRecord}
    (hd : h.now.documents.find? (·.id = a.documentId) = some d)
    (hs : h.now.ingest chunkIdFor a now = some s) :
    (h.now.only d.organizationId).ingest chunkIdFor a now = some (s.only d.organizationId) := by
  obtain ⟨d', hd', hs⟩ := Option.bind_eq_some_iff.mp hs
  obtain rfl := Option.some.inj (hd.symm.trans hd')
  obtain rfl := Option.some.inj hs
  refine Option.bind_eq_some_iff.mpr ⟨d, find?_own hd rfl, ?_⟩
  dsimp only
  rw [hinv.store_only List.mem_cons_self (List.mem_of_find?_eq_some hd), setDocument_only]
  simp only [Tables.only]
  rw [filter_append_own, List.filter_comm]
  · rfl
  · intro c hc
    obtain ⟨row, -, rfl⟩ := List.mem_map.mp hc
    rfl

theorem Inv.embed_only (hinv : Inv chunkIdFor h) {a : EmbedAttempt V} {d : DocumentRecord}
    (hd : h.now.documents.find? (·.id = a.documentId) = some d)
    (hs : h.now.embed (h.seen snapshot) a now = some s) :
    (h.now.only d.organizationId).embed (fun i => (h.seen snapshot i).only d.organizationId) a
      now = some (s.only d.organizationId) := by
  obtain ⟨d', hd', hs⟩ := Option.bind_eq_some_iff.mp hs
  obtain rfl := Option.some.inj (hd.symm.trans hd')
  obtain rfl := Option.some.inj hs
  have hmem := List.mem_of_find?_eq_some hd
  refine Option.bind_eq_some_iff.mpr ⟨d, find?_own hd rfl, ?_⟩
  dsimp only
  rw [hinv.store_only List.mem_cons_self hmem, hinv.store_only (h.seen_mem snapshot 0) hmem,
    setDocument_only]
  simp only [Tables.only]
  rw [filter_map_own fun c => congrArg (fun place => place.2.2) (setVector_fields _ c).1]
  rfl

theorem Inv.execute_only [Field K] [LinearOrder K] {log2 : ℕ → K} (hinv : Inv chunkIdFor h)
    (hh : Housing h) {a : ExecuteAttempt} {embeddings : Option (EmbeddingPipeline V)}
    {resultId : ℕ → Uuid} {times : Option ℤ × Option ℤ} {row : StoredRun K}
    (hrow : h.now.runs.find? (·.id = a.runId) = some row)
    (hs : h.now.execute b log2 (h.seen snapshot) a embeddings resultId times now = some s) :
    (h.now.only row.organizationId).execute b log2
      (fun i => (h.seen snapshot i).only row.organizationId) a embeddings resultId times now =
        some (s.only row.organizationId) := by
  obtain ⟨row', hrow', hs⟩ := Option.bind_eq_some_iff.mp hs
  obtain rfl := Option.some.inj (hrow.symm.trans hrow')
  obtain ⟨dataset, hdataset, hs⟩ := Option.bind_eq_some_iff.mp hs
  obtain ⟨left, hleft, hs⟩ := Option.bind_eq_some_iff.mp hs
  obtain rfl := Option.some.inj hs
  obtain ⟨d, hd, hid, hhome⟩ := hh.now.runs row (List.mem_of_find?_eq_some hrow)
  have hsame : dataset.id = row.datasetId := by simpa using List.find?_some hdataset
  obtain rfl := List.inj_on_of_nodup_map hinv.now.keyed.datasets hd
    (List.mem_of_find?_eq_some hdataset) (hid.trans hsame.symm)
  refine Option.bind_eq_some_iff.mpr ⟨row, find?_own hrow rfl,
    Option.bind_eq_some_iff.mpr ⟨d, find?_own hdataset (congrArg Prod.snd hhome),
      Option.bind_eq_some_iff.mpr ⟨left, ?_, ?_⟩⟩⟩
  · have howner := hh.now.datasets d hd
    rw [hhome] at howner
    refine (congrArg Prod.snd (Eq.symm ?_)).trans hleft
    refine @execute_congr K _ _ log2 { a with retriever := _ } _ row.toEvaluationRun (fun i => ?_) _
    dsimp only
    cases readConfig a.render a.defaultTopK row.config with
    | error e => rfl
    | ok config =>
        refine congrArg Except.ok (funext fun text => funext fun topK => ?_)
        exact buildRetriever_congr (hinv.sameProject (h.seen_mem snapshot (2 * i)) howner)
          (hinv.sameProject (h.seen_mem snapshot (2 * i + 1)) howner)
  · simp only [Tables.only]
    rw [filter_map_own]
    · rfl
    · intro other
      split <;> rfl

end Own

/-! ### Operations for others -/

section Others

variable {b : Backend V} {chunkIdFor : Uuid → ℕ → Uuid} {h : History (Tables V K)}
  {snapshot : ℕ → ℕ} {principal : Principal} {organizationId projectId : Uuid}
  {s : Tables V K} {now : ℤ} {d : DocumentRecord}

theorem createProject_others (hother : principal.organizationId ≠ organizationId)
    (payload : ProjectCreate) :
    (s.createProject principal payload projectId now).only organizationId =
      s.only organizationId := by
  simp only [Tables.createProject, Tables.only]
  rw [filter_append_others]
  intro p hp
  rw [List.mem_singleton.mp hp]
  exact hother

theorem upload_others (hother : principal.organizationId ≠ organizationId) {s' : Tables V K}
    {seen : ℕ → Tables V K} {a : UploadAttempt}
    (hs : s.upload b seen principal projectId a now = some s') :
    s'.only organizationId = s.only organizationId := by
  obtain ⟨projectId', -, hs⟩ := Option.bind_eq_some_iff.mp hs
  dsimp only at hs
  split at hs
  · obtain rfl := Option.some.inj hs
    simp only [Tables.only]
    rw [filter_append_others]
    intro d hd
    rw [List.mem_singleton.mp hd]
    exact hother
  · cases hs

theorem createQuery_others (hother : principal.organizationId ≠ organizationId)
    {seen : ℕ → Tables V K} {deps : TracedDeps} {embeddings : Option (EmbeddingPipeline V)}
    {request : QueryRequest} :
    (s.createQuery b seen principal deps embeddings request now).only organizationId =
      s.only organizationId := by
  simp only [Tables.createQuery, Tables.only]
  rw [filter_append_others]
  intro t ht
  obtain ⟨saved, hsaved, rfl⟩ := List.mem_map.mp ht
  obtain ⟨-, -, howner, -⟩ := mem_createQueryTraced hsaved
  exact fun hown => hother (howner.symm.trans hown)

theorem createDataset_others (hother : principal.organizationId ≠ organizationId)
    {seen : ℕ → Tables V K} {payload : DatasetCreate} {datasetId : Uuid} {itemId : ℕ → Uuid}
    {s' : Tables V K}
    (hs : s.createDataset b seen principal payload datasetId itemId now = some s') :
    s'.only organizationId = s.only organizationId := by
  obtain ⟨project, -, hs⟩ := Option.bind_eq_some_iff.mp hs
  obtain rfl := Option.some.inj hs
  simp only [Tables.only]
  rw [filter_append_others]
  intro d hd
  rw [List.mem_singleton.mp hd]
  exact hother

theorem createRun_others (hother : principal.organizationId ≠ organizationId)
    {seen : ℕ → Tables V K} {payload : RunCreate} {runId : Uuid} {s' : Tables V K}
    (hs : s.createRun b seen principal payload runId now = some s') :
    s'.only organizationId = s.only organizationId := by
  obtain ⟨checked, -, hs⟩ := Option.bind_eq_some_iff.mp hs
  obtain ⟨dataset, -, hs⟩ := Option.bind_eq_some_iff.mp hs
  obtain rfl := Option.some.inj hs
  simp only [Tables.only]
  rw [filter_append_others]
  intro r hr
  rw [List.mem_singleton.mp hr]
  exact hother

/-- The documents of the organization are not the one that a job for another works on. -/
theorem setDocument_others (hkeyed : s.Keyed) (hd : d ∈ s.documents)
    (hother : d.organizationId ≠ organizationId) (document : Option Document) :
    (s.setDocument d document now).documents.filter (·.organizationId = organizationId) =
      s.documents.filter (·.organizationId = organizationId) := by
  refine filter_map_others (organizationId_setDocument d document) fun row hrow hown => if_neg ?_
  rintro ⟨hid, -⟩
  obtain rfl := List.inj_on_of_nodup_map hkeyed.documents hrow hd hid
  exact hother hown

theorem Inv.ingest_others (hinv : Inv chunkIdFor h) {a : IngestAttempt}
    (hd : h.now.documents.find? (·.id = a.documentId) = some d)
    (hother : d.organizationId ≠ organizationId)
    (hs : h.now.ingest chunkIdFor a now = some s) :
    s.only organizationId = h.now.only organizationId := by
  obtain ⟨d', hd', hs⟩ := Option.bind_eq_some_iff.mp hs
  obtain rfl := Option.some.inj (hd.symm.trans hd')
  obtain rfl := Option.some.inj hs
  have hmem := List.mem_of_find?_eq_some hd
  have hchunks : (h.now.chunks.filter (·.documentId ≠ d.id)).filter
      (·.organizationId = organizationId) =
        h.now.chunks.filter (·.organizationId = organizationId) := by
    rw [List.filter_filter]
    refine List.filter_congr fun c hc => ?_
    by_cases hdocument : c.documentId = d.id
    · have howner := hinv.chunk_ofDocument List.mem_cons_self hmem hc hdocument
      simp [howner, hother]
    · simp [hdocument]
  simp only [Tables.only]
  rw [setDocument_others hinv.now.keyed hmem hother, filter_append_others, hchunks]
  · rfl
  · intro c hc
    obtain ⟨row, -, rfl⟩ := List.mem_map.mp hc
    exact hother

/-- The rows that an attempt at embedding writes to were chunks of its document. -/
theorem ids_written {a : EmbedAttempt V} {loaded : Store V} {row : ChunkRow V}
    (hrow : row ∈ Tables.written a loaded.chunks (perform (embedDocument a) loaded).2.chunks) :
    row.id ∈ loaded.chunks.map (·.id) := by
  have hids : (perform (embedDocument a) loaded).2.chunks.map (·.id) =
      loaded.chunks.map (·.id) := by
    rcases rows_embedDocument a loaded with ⟨_, _, -, hrows⟩ | ⟨-, hrows⟩
    · rw [hrows]
      exact ids_setEmbeddings loaded _
    · rw [hrows]
  rw [← hids]
  unfold Tables.written at hrow
  split at hrow
  · cases hrow
  · obtain ⟨rows, hrows, rfl⟩ := List.mem_map.mp hrow
    exact List.mem_map_of_mem (List.of_mem_zip (List.mem_of_mem_filter hrows)).2

theorem Inv.embed_others (hinv : Inv chunkIdFor h) (hids : NoCollision chunkIdFor h)
    {a : EmbedAttempt V} (hd : h.now.documents.find? (·.id = a.documentId) = some d)
    (hother : d.organizationId ≠ organizationId)
    (hs : h.now.embed (h.seen snapshot) a now = some s) :
    s.only organizationId = h.now.only organizationId := by
  obtain ⟨d', hd', hs⟩ := Option.bind_eq_some_iff.mp hs
  obtain rfl := Option.some.inj (hd.symm.trans hd')
  obtain rfl := Option.some.inj hs
  have hmem := List.mem_of_find?_eq_some hd
  have hseen := h.seen_mem snapshot 0
  simp only [Tables.only]
  rw [setDocument_others hinv.now.keyed hmem hother,
    filter_map_others fun c => congrArg (fun place => place.2.2) (setVector_fields _ c).1]
  · rfl
  · intro c hc hown
    have hnone : (Tables.written a ((h.seen snapshot 0).store d).chunks
        (perform (embedDocument a) { h.now.store d with
          chunks := ((h.seen snapshot 0).store d).chunks }).2.chunks).find? (·.id = c.id) =
            none := by
      refine List.find?_eq_none.mpr fun row hrow hsame => hother ?_
      -- A row of this id was a chunk of the document, so the chunk is one of its chunks.
      obtain ⟨loaded, hloaded, hid⟩ := List.mem_map.mp (ids_written hrow)
      obtain ⟨c', hc', rfl⟩ := List.mem_map.mp hloaded
      obtain ⟨hc', hdocument⟩ := List.mem_filter.mp hc'
      have hderived : chunkIdFor c'.documentId c'.ordinal = chunkIdFor c.documentId c.ordinal := by
        rw [← hinv.derived _ hseen c' hc', ← hinv.derived _ List.mem_cons_self c hc]
        exact hid.trans (of_decide_eq_true hsame)
      have hsamedoc := hids _ hseen h.now List.mem_cons_self c' hc' c hc hderived
      rw [← hown]
      exact (hinv.chunk_ofDocument List.mem_cons_self hmem hc
        (hsamedoc.symm.trans (of_decide_eq_true hdocument))).symm
    rw [Tables.setVector, hnone]

theorem execute_others [Field K] [LinearOrder K] {log2 : ℕ → K} (hkeyed : s.Keyed)
    {seen : ℕ → Tables V K} {a : ExecuteAttempt} {embeddings : Option (EmbeddingPipeline V)}
    {resultId : ℕ → Uuid} {times : Option ℤ × Option ℤ} {row : StoredRun K} {s' : Tables V K}
    (hrow : s.runs.find? (·.id = a.runId) = some row)
    (hother : row.organizationId ≠ organizationId)
    (hs : s.execute b log2 seen a embeddings resultId times now = some s') :
    s'.only organizationId = s.only organizationId := by
  obtain ⟨row', hrow', hs⟩ := Option.bind_eq_some_iff.mp hs
  obtain rfl := Option.some.inj (hrow.symm.trans hrow')
  obtain ⟨dataset, -, hs⟩ := Option.bind_eq_some_iff.mp hs
  obtain ⟨left, -, hs⟩ := Option.bind_eq_some_iff.mp hs
  obtain rfl := Option.some.inj hs
  simp only [Tables.only]
  rw [filter_map_others]
  · intro other
    split <;> rfl
  · intro other hmem hown
    refine if_neg fun hid => hother ?_
    obtain rfl :=
      List.inj_on_of_nodup_map hkeyed.runs hmem (List.mem_of_find?_eq_some hrow) hid
    exact hown

end Others

/-! ### Every run -/

section Runs

variable [Field K] [LinearOrder K] {b : Backend V} {log2 : ℕ → K} {chunkIdFor : Uuid → ℕ → Uuid}
  {h : History (Tables V K)} {organizationId : Uuid}

/-- **An operation for others leaves the rows of an organization as they are.** -/
theorem Inv.effect_others (hinv : Inv chunkIdFor h) (hids : NoCollision chunkIdFor h)
    {command : Command V} {snapshot : ℕ → ℕ} {s : Tables V K}
    (hs : Tenancy.effect b log2 chunkIdFor (h.seen snapshot) h.now command = some s)
    (hother : command.organization h.now ≠ some organizationId) :
    s.only organizationId = h.now.only organizationId := by
  have hprincipal : ∀ {principal : Principal},
      some principal.organizationId ≠ some organizationId →
        principal.organizationId ≠ organizationId := fun hne heq => hne (congrArg some heq)
  cases command with
  | createProject principal payload projectId now =>
      obtain rfl := Option.some.inj hs
      exact createProject_others (hprincipal hother) payload
  | upload principal projectId a now => exact upload_others (hprincipal hother) hs
  | createQuery principal deps embeddings request now =>
      obtain rfl := Option.some.inj hs
      exact createQuery_others (hprincipal hother)
  | createDataset principal payload datasetId itemId now =>
      exact createDataset_others (hprincipal hother) hs
  | createRun principal payload runId now => exact createRun_others (hprincipal hother) hs
  | runIngestion a now =>
      obtain ⟨d, hd, -⟩ := Option.bind_eq_some_iff.mp hs
      refine hinv.ingest_others hd (fun hown => hother ?_) hs
      rw [Command.organization, hd, Option.map_some, hown]
  | embedDocument a now =>
      obtain ⟨d, hd, -⟩ := Option.bind_eq_some_iff.mp hs
      refine hinv.embed_others hids hd (fun hown => hother ?_) hs
      rw [Command.organization, hd, Option.map_some, hown]
  | execute a embeddings resultId times now =>
      obtain ⟨row, hrow, -⟩ := Option.bind_eq_some_iff.mp hs
      refine execute_others hinv.now.keyed hrow (fun hown => hother ?_) hs
      rw [Command.organization, hrow, Option.map_some, hown]

/-- **An operation for the organization does among its rows what it does among all.** -/
theorem Inv.effect_only (hinv : Inv chunkIdFor h) (hh : Housing h) {command : Command V}
    {snapshot : ℕ → ℕ} {s : Tables V K}
    (hs : Tenancy.effect b log2 chunkIdFor (h.seen snapshot) h.now command = some s)
    (hown : command.organization h.now = some organizationId) :
    Tenancy.effect b log2 chunkIdFor (fun i => (h.seen snapshot i).only organizationId)
      (h.now.only organizationId) command = some (s.only organizationId) := by
  cases command with
  | createProject principal payload projectId now =>
      obtain rfl := Option.some.inj hown
      obtain rfl := Option.some.inj hs
      exact congrArg some (createProject_only payload)
  | upload principal projectId a now =>
      obtain rfl := Option.some.inj hown
      exact hinv.upload_only hs
  | createQuery principal deps embeddings request now =>
      obtain rfl := Option.some.inj hown
      obtain rfl := Option.some.inj hs
      exact congrArg some hinv.createQuery_only
  | createDataset principal payload datasetId itemId now =>
      obtain rfl := Option.some.inj hown
      exact hinv.createDataset_only hs
  | createRun principal payload runId now =>
      obtain rfl := Option.some.inj hown
      exact hinv.createRun_only hs
  | runIngestion a now =>
      obtain ⟨d, hd, rfl⟩ := Option.map_eq_some_iff.mp hown
      exact hinv.ingest_only hd hs
  | embedDocument a now =>
      obtain ⟨d, hd, rfl⟩ := Option.map_eq_some_iff.mp hown
      exact hinv.embed_only hd hs
  | execute a embeddings resultId times now =>
      obtain ⟨row, hrow, rfl⟩ := Option.map_eq_some_iff.mp hown
      exact hinv.execute_only hh hrow hs

/-- Every transaction unwinds. -/
theorem Inv.unwinds (hinv : Inv chunkIdFor h) (hh : Housing h) (hids : NoCollision chunkIdFor h)
    {e : Command V × (ℕ → ℕ)} {s : Tables V K} (hinv' : Inv chunkIdFor ⟨s, h.states⟩)
    (hh' : Housing ⟨s, h.states⟩)
    (hcommit : commit b log2 chunkIdFor e.1 (h.seen e.2) h.now = some s) :
    History.Unwinds (commit b log2 chunkIdFor) (Tables.only organizationId)
      (fun s command => command.organization s = some organizationId) h e s := by
  obtain ⟨s', heffect, hchecked⟩ := Option.bind_eq_some_iff.mp hcommit
  obtain ⟨hconstrained, rfl⟩ := Tables.checked_eq_some.mp hchecked
  constructor
  · intro hother
    exact hinv.effect_others hids heffect (of_decide_eq_false hother)
  · intro hown
    refine Option.bind_eq_some_iff.mpr ⟨_, hinv.effect_only hh heffect (of_decide_eq_true hown), ?_⟩
    exact Tables.checked_eq_some.mpr ⟨constrained_only hconstrained hinv'.now hh'.now, rfl⟩

/-- **Other organizations are not felt.**  Take any run of the operations, whatever each of their
statements sees, and an organization.  The operations for this organization alone, in the same
order, are a run as well, for something that their statements can see; it leads to the very rows
that the organization has, and every read of its principals gives the same response. -/
theorem others_unfelt (b : Backend V) (log2 : ℕ → K) (chunkIdFor : Uuid → ℕ → Uuid)
    {es : List (Command V × (ℕ → ℕ))} {h : History (Tables V K)}
    (hrun : run (History.step (commit b log2 chunkIdFor)) ⟨{}, []⟩ es = some h)
    (hids : NoCollision chunkIdFor h) (organizationId : Uuid) :
    ∃ es' h', es'.map Prod.fst = History.concerning (commit b log2 chunkIdFor)
        (fun s command => command.organization s = some organizationId) ⟨{}, []⟩ es ∧
      run (History.step (commit b log2 chunkIdFor)) ⟨{}, []⟩ es' = some h' ∧
      h'.now = h.now.only organizationId ∧
      ∀ principal : Principal, principal.organizationId = organizationId → ∀ read : Read V,
        respond b h'.now principal read = respond b h.now principal read := by
  have hall : Throughout (History.step (commit b log2 chunkIdFor))
      (fun h => Inv chunkIdFor h ∧ Housing h ∧ NoCollision chunkIdFor h) ⟨{}, []⟩ es := by
    refine throughout_iff_run.mpr fun pre m hpre hm => ⟨inv_of_run hm, housing_of_run hm, ?_⟩
    obtain ⟨rest, rfl⟩ := hpre
    obtain ⟨m', hm', hrest⟩ := run_append.mp hrun
    obtain rfl := Option.some.inj (hm.symm.trans hm')
    have hstates := History.states_subset_of_run hrest
    exact fun s hs s' hs' => hids s (hstates hs) s' (hstates hs')
  have hempty : History.Reflects (Tables.only (V := V) (K := K) organizationId)
      ⟨{}, []⟩ ⟨{}, []⟩ := by
    refine ⟨rfl, fun s hs => ?_⟩
    rw [List.mem_singleton.mp hs]
    exact List.mem_singleton_self _
  obtain ⟨es', h', hes', hrun', hreflects⟩ := History.exists_unwound
    (fun _ _ _ hh hh' hcommit => Inv.unwinds hh.1 hh.2.1 hh.2.2 hh'.1 hh'.2.1 hcommit)
    hall hrun hempty
  refine ⟨es', h', hes', hrun', hreflects.now, fun principal howner read => ?_⟩
  subst howner
  have hinv := inv_of_run hrun
  have hrelies : read.Relies h.now ∧ read.Relies (h.now.only principal.organizationId) := by
    cases read with
    | evidenceGraph traceId =>
        have hpartitioned := hinv.partitioned hids
        exact ⟨hpartitioned, partitioned_only hpartitioned⟩
    | _ => exact ⟨hinv.now, coherent_only hinv.now⟩
  rw [hreflects.now]
  exact (determined_respond read _ _ hrelies.1 hrelies.2 (agree_only _ h.now)).symm

end Runs

/-- The project of another organization made before, the three operations lead where they do. -/
theorem others_unfelt_sample : ∃ h es' h',
    run sampleStep ⟨{}, []⟩ (foreignCommand :: sampleCommands) = some h ∧
    h.now.projects.map (·.id) = [9, 3] ∧
    es'.length = 3 ∧ run sampleStep ⟨{}, []⟩ es' = some h' ∧
    h'.now = h.now.only (Principal.organizationId ⟨2, 1⟩) ∧ h'.now.projects.map (·.id) = [3] := by
  have hrun : ∃ h ∈ run sampleStep ⟨{}, []⟩ (foreignCommand :: sampleCommands),
      NoCollision sampleIds h ∧ h.now.projects.map (·.id) = [9, 3] ∧
      (h.now.only (Principal.organizationId ⟨2, 1⟩)).projects.map (·.id) = [3] := by
    decide +kernel
  obtain ⟨h, hrun, hids, hprojects, hown⟩ := hrun
  obtain ⟨es', h', hes', hrun', hnow, -⟩ := others_unfelt sampleBackend _ sampleIds hrun hids
    (Principal.organizationId ⟨2, 1⟩)
  have hlength : (History.concerning (commit sampleBackend (fun n => (Nat.log2 n : ℚ)) sampleIds)
      (fun s command => command.organization s = some (Principal.organizationId ⟨2, 1⟩)) ⟨{}, []⟩
        (foreignCommand :: sampleCommands)).length = 3 := by
    decide +kernel
  refine ⟨h, es', h', hrun, hprojects, ?_, hrun', hnow, hnow ▸ hown⟩
  rw [← List.length_map (f := Prod.fst), hes']
  exact hlength

end Tenancy
end EvidenceLab
