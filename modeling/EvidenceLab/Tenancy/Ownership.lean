/-
# Whose rows they are

No constraint of the database says that a document has the organization of its project, a
chunk that of its document, or that the chunks which a trace was answered from have the
trace's.  All that writes keeps it so (`inv_of_run`): a request checks its project against
the principal before, and a job copies what it finds in the row that it works on.

A project stays what it is and a document where it is, so what a transaction has read of
them remains true until it commits (`Grows`).  Chunks go and come again, and a trace names
them by their ids.  An id is derived from the document and the ordinal; so long as two
documents never share one (`NoCollision`), a chunk that a trace names is in the place of
the one that was retrieved, if there is one.
-/

import EvidenceLab.Reasoning.TracedRuns
import EvidenceLab.Ingest.Sequential
import EvidenceLab.Tenancy.Writers

namespace EvidenceLab
namespace Tenancy

open Text Data EvidenceLab.Core Retrieval Ingest Evaluation Reasoning Runs Session

variable {V K : Type}

/-! ### Owners and places -/

/-- A project, and whose it is. -/
def Project.owner (p : Project) : Uuid × Uuid := (p.id, p.organizationId)

/-- A document, its project, and whose it is. -/
def DocumentRecord.place (d : DocumentRecord) : Uuid × Uuid × Uuid :=
  (d.id, d.projectId, d.organizationId)

/-- The document of a chunk, its project, and whose it is. -/
def ChunkRecord.place (c : ChunkRecord V) : Uuid × Uuid × Uuid :=
  (c.documentId, c.projectId, c.organizationId)

namespace Tables

variable (s : Tables V K)

def owners : List (Uuid × Uuid) := s.projects.map Project.owner

def places : List (Uuid × Uuid × Uuid) := s.documents.map DocumentRecord.place

/-- The rows of a document and of a chunk say the same as the rows that they refer to. -/
structure Coherent : Prop where
  keyed : s.Keyed
  documents : ∀ place ∈ s.places, place.2 ∈ s.owners
  chunks : ∀ c ∈ s.chunks, c.place ∈ s.places

/-- Every chunk has the id that is derived for it. -/
def Derived (chunkIdFor : Uuid → ℕ → Uuid) : Prop :=
  ∀ c ∈ s.chunks, c.id = chunkIdFor c.documentId c.ordinal

/-- Projects and documents are still there, where they were. -/
structure Grows (s s' : Tables V K) : Prop where
  owners : s.owners ⊆ s'.owners
  places : s.places ⊆ s'.places

variable {s} {projectId documentId organizationId organizationId' : Uuid}

/-- A project has one owner. -/
theorem Keyed.owner_unique (h : s.Keyed) (h₁ : (projectId, organizationId) ∈ s.owners)
    (h₂ : (projectId, organizationId') ∈ s.owners) : organizationId = organizationId' := by
  obtain ⟨p, hp, hpair⟩ := List.mem_map.mp h₁
  obtain ⟨p', hp', hpair'⟩ := List.mem_map.mp h₂
  obtain ⟨hid, rfl⟩ := Prod.mk.inj hpair
  obtain ⟨hid', rfl⟩ := Prod.mk.inj hpair'
  rw [List.inj_on_of_nodup_map h.projects hp hp' (hid.trans hid'.symm)]

/-- A document has one place. -/
theorem Keyed.place_unique (h : s.Keyed) {x y : Uuid × Uuid}
    (h₁ : (documentId, x) ∈ s.places) (h₂ : (documentId, y) ∈ s.places) : x = y := by
  obtain ⟨d, hd, hpair⟩ := List.mem_map.mp h₁
  obtain ⟨d', hd', hpair'⟩ := List.mem_map.mp h₂
  obtain ⟨hid, rfl⟩ := Prod.mk.inj hpair
  obtain ⟨hid', rfl⟩ := Prod.mk.inj hpair'
  rw [List.inj_on_of_nodup_map h.documents hd hd' (hid.trans hid'.symm)]

/-- The documents of a project are its owner's. -/
theorem Coherent.document_owner (h : s.Coherent) (hp : (projectId, organizationId) ∈ s.owners)
    {d : DocumentRecord} (hd : d ∈ s.documents) (hproject : d.projectId = projectId) :
    d.organizationId = organizationId := by
  have howner := h.documents _ (List.mem_map_of_mem hd)
  subst hproject
  exact h.keyed.owner_unique howner hp

/-- So are its chunks. -/
theorem Coherent.chunk_owner (h : s.Coherent) (hp : (projectId, organizationId) ∈ s.owners)
    {c : ChunkRecord V} (hc : c ∈ s.chunks) (hproject : c.projectId = projectId) :
    c.organizationId = organizationId := by
  have howner := h.documents _ (h.chunks c hc)
  subst hproject
  exact h.keyed.owner_unique howner hp

theorem Grows.refl (s : Tables V K) : Grows s s := ⟨fun _ => id, fun _ => id⟩

theorem Grows.trans {s' s'' : Tables V K} (h : Grows s s') (h' : Grows s' s'') : Grows s s'' :=
  ⟨fun _ hx => h'.owners (h.owners hx), fun _ hx => h'.places (h.places hx)⟩

end Tables

/-! ### What the checks find -/

section Checks

variable {b : Backend V} {s : Tables V K} {principal : Principal} {projectId projectId' : Uuid}

@[simp] theorem orRaise_eq_ok {α : Type} {e : DomainError} {row : Option α} {r : α} :
    orRaise e row = .ok r ↔ row = some r := by
  cases row <;> simp [orRaise]

theorem of_getProject {p : Project} (h : getProject b s principal projectId = .ok p) :
    p ∈ s.projects ∧ p.id = projectId ∧ p.organizationId = principal.organizationId := by
  obtain ⟨hp, hselected⟩ := Engine.of_scalar (orRaise_eq_ok.mp h)
  exact ⟨hp, of_decide_eq_true hselected⟩

/-- A project that passes the check is the principal's. -/
theorem owner_of_getProjectScope (h : getProjectScope b s principal projectId = .ok projectId') :
    projectId' = projectId ∧ (projectId', principal.organizationId) ∈ s.owners := by
  obtain ⟨p, hp, hid⟩ := bind_eq_ok.mp h
  obtain rfl := Except.ok.inj hid
  obtain ⟨hmem, hproject, howner⟩ := of_getProject hp
  refine ⟨hproject, ?_⟩
  rw [← howner]
  exact List.mem_map_of_mem hmem

end Checks

/-! ### The invariant -/

variable {chunkIdFor : Uuid → ℕ → Uuid} {h : History (Tables V K)}

/-- The chunks that a trace was answered from were its organization's. -/
def Cited (h : History (Tables V K)) (traces : List StoredTrace) : Prop :=
  ∀ t ∈ traces, ∀ id ∈ t.row.retrievedChunkIds,
    ∃ s ∈ h.states, ∃ c ∈ s.chunks, c.id = id ∧ c.organizationId = t.organizationId

/-- What holds of a system and all its states. -/
structure Inv (chunkIdFor : Uuid → ℕ → Uuid) (h : History (Tables V K)) : Prop where
  coherent : ∀ s ∈ h.states, s.Coherent
  derived : ∀ s ∈ h.states, s.Derived chunkIdFor
  grows : ∀ s ∈ h.states, s.Grows h.now
  cited : Cited h h.now.traces

/-- What a transaction may make of the tables. -/
structure Keeps (chunkIdFor : Uuid → ℕ → Uuid) (h : History (Tables V K)) (s : Tables V K) :
    Prop where
  grows : h.now.Grows s
  documents : ∀ place ∈ s.places, place.2 ∈ s.owners
  chunks : ∀ c ∈ s.chunks, c.place ∈ s.places
  derived : s.Derived chunkIdFor
  cited : Cited h s.traces

theorem Inv.now (hinv : Inv chunkIdFor h) : h.now.Coherent := hinv.coherent _ List.mem_cons_self

/-- A transaction may leave the tables as they are. -/
theorem Inv.keeps (hinv : Inv chunkIdFor h) : Keeps chunkIdFor h h.now where
  grows := Tables.Grows.refl _
  documents := hinv.now.documents
  chunks := hinv.now.chunks
  derived := hinv.derived _ List.mem_cons_self
  cited := hinv.cited

/-- What a transaction has read of a project is still true. -/
theorem Inv.owner_now (hinv : Inv chunkIdFor h) {s : Tables V K} (hs : s ∈ h.states)
    {owner : Uuid × Uuid} (howner : owner ∈ s.owners) : owner ∈ h.now.owners :=
  (hinv.grows s hs).owners howner

/-- **The invariant after a transaction.** -/
theorem Keeps.inv {s : Tables V K} (hkeeps : Keeps chunkIdFor h s) (hinv : Inv chunkIdFor h)
    (hkeyed : s.Keyed) : Inv chunkIdFor ⟨s, h.states⟩ where
  coherent s' hs' := by
    rcases List.mem_cons.mp hs' with rfl | hs'
    · exact ⟨hkeyed, hkeeps.documents, hkeeps.chunks⟩
    · exact hinv.coherent s' hs'
  derived s' hs' := by
    rcases List.mem_cons.mp hs' with rfl | hs'
    · exact hkeeps.derived
    · exact hinv.derived s' hs'
  grows s' hs' := by
    rcases List.mem_cons.mp hs' with rfl | hs'
    · exact Tables.Grows.refl _
    · exact (hinv.grows s' hs').trans hkeeps.grows
  cited t ht id hid := by
    obtain ⟨s', hs', hc⟩ := hkeeps.cited t ht id hid
    exact ⟨s', List.mem_cons_of_mem _ hs', hc⟩

/-! ### Every operation -/

section Operations

variable {b : Backend V} {snapshot : ℕ → ℕ} {principal : Principal} {s : Tables V K} {now : ℤ}
  {projectId : Uuid}

theorem toOption_eq_some {ε α : Type} {x : Except ε α} {a : α} :
    x.toOption = some a ↔ x = .ok a := by
  cases x <;> simp [Except.toOption]

/-- A project that a transaction has checked is the principal's. -/
theorem Inv.checked (hinv : Inv chunkIdFor h) {i : ℕ} {projectId' : Uuid}
    (hscope : getProjectScope b (h.seen snapshot i) principal projectId = .ok projectId') :
    (projectId', principal.organizationId) ∈ h.now.owners :=
  hinv.owner_now (h.seen_mem snapshot i) (owner_of_getProjectScope hscope).2

/-- A new project. -/
theorem Inv.createProject (hinv : Inv chunkIdFor h) (payload : ProjectCreate) :
    Keeps chunkIdFor h (h.now.createProject principal payload projectId now) := by
  have howners : h.now.owners ⊆ (h.now.createProject principal payload projectId now).owners :=
    List.map_subset _ (List.subset_append_left _ _)
  refine ⟨⟨howners, fun _ => id⟩, ?_, hinv.now.chunks, hinv.keeps.derived, hinv.cited⟩
  intro place hplace
  exact howners (hinv.now.documents place hplace)

/-- A new document, in a project of the principal. -/
theorem Inv.upload (hinv : Inv chunkIdFor h) {a : UploadAttempt}
    (hs : h.now.upload b (h.seen snapshot) principal projectId a now = some s) :
    Keeps chunkIdFor h s := by
  obtain ⟨projectId', hscope, hs⟩ := Option.bind_eq_some_iff.mp hs
  have howner := hinv.checked (toOption_eq_some.mp hscope)
  dsimp only at hs
  split at hs
  · obtain rfl := Option.some.inj hs
    rename_i document _ _ _
    have hplaces : h.now.places ⊆
        ({ h.now with documents := h.now.documents ++
          [Tables.uploaded principal projectId' document now] } : Tables V K).places :=
      List.map_subset _ (List.subset_append_left _ _)
    refine ⟨⟨fun _ => id, hplaces⟩, ?_, fun c hc => hplaces (hinv.now.chunks c hc),
      hinv.keeps.derived, hinv.cited⟩
    intro place hplace
    obtain ⟨d, hd, rfl⟩ := List.mem_map.mp hplace
    rcases List.mem_append.mp hd with hd | hd
    · exact hinv.now.documents _ (List.mem_map_of_mem hd)
    · rw [List.mem_singleton.mp hd]
      exact howner
  · cases hs

/-- A new trace, of what was found in a project of the principal. -/
theorem Inv.createQuery (hinv : Inv chunkIdFor h) {deps : TracedDeps}
    {embeddings : Option (EmbeddingPipeline V)} {request : QueryRequest} :
    Keeps chunkIdFor h
      (h.now.createQuery b (h.seen snapshot) principal deps embeddings request now) := by
  refine ⟨⟨fun _ => id, fun _ => id⟩, hinv.now.documents, hinv.now.chunks, hinv.keeps.derived, ?_⟩
  intro t ht id hid
  rcases List.mem_append.mp ht with ht | ht
  · exact hinv.cited t ht id hid
  · obtain ⟨saved, hsaved, rfl⟩ := List.mem_map.mp ht
    obtain ⟨project, hproject, howner, -, hretrieved⟩ := mem_createQueryTraced hsaved
    obtain ⟨evidence, hevidence, hid⟩ := hretrieved id hid
    obtain ⟨-, hscope⟩ := owner_of_getProjectScope hproject
    -- The project was the principal's when it was checked, so it is in every state.
    have hfound : ∀ i, (∃ c ∈ (h.seen snapshot i).chunks, c.projectId = project ∧ c.id = id) →
        ∃ s ∈ h.states, ∃ c ∈ s.chunks, c.id = id ∧ c.organizationId = saved.organizationId := by
      rintro i ⟨c, hc, hcproject, hcid⟩
      have hseen := h.seen_mem snapshot i
      refine ⟨_, hseen, c, hc, hcid, ?_⟩
      have hc' := (hinv.coherent _ hseen).documents _ ((hinv.coherent _ hseen).chunks c hc)
      subst hcproject
      rw [howner]
      exact hinv.now.keyed.owner_unique (hinv.owner_now hseen hc')
        (hinv.owner_now (h.seen_mem snapshot 0) hscope)
    have hkeyed : ∀ i, ((h.seen snapshot i).chunks.map (·.id)).Nodup :=
      fun i => (hinv.coherent _ (h.seen_mem snapshot i)).keyed.chunks
    rcases found_of_buildRetriever (hkeyed 1) (hkeyed 2) hevidence id hid with hc | hc
    · exact hfound 1 hc
    · exact hfound 2 hc

/-- A new dataset. -/
theorem Inv.createDataset (hinv : Inv chunkIdFor h) {payload : DatasetCreate} {datasetId : Uuid}
    {itemId : ℕ → Uuid}
    (hs : h.now.createDataset b (h.seen snapshot) principal payload datasetId itemId now = some s) :
    Keeps chunkIdFor h s := by
  obtain ⟨project, -, hs⟩ := Option.bind_eq_some_iff.mp hs
  obtain rfl := Option.some.inj hs
  exact ⟨⟨fun _ => id, fun _ => id⟩, hinv.now.documents, hinv.now.chunks, hinv.keeps.derived,
    hinv.cited⟩

/-- A new run. -/
theorem Inv.createRun (hinv : Inv chunkIdFor h) {payload : RunCreate} {runId : Uuid}
    (hs : h.now.createRun b (h.seen snapshot) principal payload runId now = some s) :
    Keeps chunkIdFor h s := by
  obtain ⟨checked, -, hs⟩ := Option.bind_eq_some_iff.mp hs
  obtain ⟨dataset, -, hs⟩ := Option.bind_eq_some_iff.mp hs
  obtain rfl := Option.some.inj hs
  exact ⟨⟨fun _ => id, fun _ => id⟩, hinv.now.documents, hinv.now.chunks, hinv.keeps.derived,
    hinv.cited⟩

/-- An attempt at a run. -/
theorem Inv.execute [Field K] [LinearOrder K] {log2 : ℕ → K} (hinv : Inv chunkIdFor h)
    {a : ExecuteAttempt} {embeddings : Option (EmbeddingPipeline V)} {resultId : ℕ → Uuid}
    {times : Option ℤ × Option ℤ}
    (hs : h.now.execute b log2 (h.seen snapshot) a embeddings resultId times now = some s) :
    Keeps chunkIdFor h s := by
  obtain ⟨row, -, hs⟩ := Option.bind_eq_some_iff.mp hs
  obtain ⟨dataset, -, hs⟩ := Option.bind_eq_some_iff.mp hs
  obtain ⟨left, -, hs⟩ := Option.bind_eq_some_iff.mp hs
  obtain rfl := Option.some.inj hs
  exact ⟨⟨fun _ => id, fun _ => id⟩, hinv.now.documents, hinv.now.chunks, hinv.keeps.derived,
    hinv.cited⟩

/-- A job that leaves the document its id leaves the documents in their places. -/
theorem places_setDocument (s : Tables V K) {d : DocumentRecord} {document : Option Document}
    (hid : document.map (·.id) = some d.id) (now : ℤ) :
    (s.setDocument d document now).places = s.places := by
  rw [Tables.places, Tables.setDocument, List.map_map]
  refine List.map_congr_left fun row _ => ?_
  obtain ⟨document', rfl, hid'⟩ := Option.map_eq_some_iff.mp hid
  rw [Function.comp_apply]
  split
  · rename_i hrow
    simp only [DocumentRecord.place, Option.getD_some, hid', hrow.1]
  · rfl

/-- An attempt at ingestion: the chunks of its document, of the document's owner. -/
theorem Inv.ingest (hinv : Inv chunkIdFor h) {a : IngestAttempt}
    (hs : h.now.ingest chunkIdFor a now = some s) : Keeps chunkIdFor h s := by
  obtain ⟨d, hd, hs⟩ := Option.bind_eq_some_iff.mp hs
  obtain rfl := Option.some.inj hs
  have hmem := List.mem_of_find?_eq_some hd
  obtain ⟨hid, hrows⟩ :=
    rechunked_runIngestion { a with chunkIdFor } (show (h.now.store d).document = _ from rfl)
  have hplaces := places_setDocument h.now hid now
  refine ⟨⟨fun _ => id, hplaces ▸ fun _ => id⟩, ?_, ?_, ?_, hinv.cited⟩
  · intro place hplace
    exact hinv.now.documents place (hplaces ▸ hplace)
  · intro c hc
    show c.place ∈ (h.now.setDocument d _ now).places
    rw [hplaces]
    rcases List.mem_append.mp hc with hc | hc
    · exact hinv.now.chunks c (List.mem_of_mem_filter hc)
    · obtain ⟨row, -, rfl⟩ := List.mem_map.mp hc
      exact List.mem_map_of_mem hmem
  · intro c hc
    rcases List.mem_append.mp hc with hc | hc
    · exact hinv.keeps.derived c (List.mem_of_mem_filter hc)
    · obtain ⟨row, hrow, rfl⟩ := List.mem_map.mp hc
      rcases hrows with hsame | ⟨chunks, hnew⟩
      · rw [hsame] at hrow
        obtain ⟨c', hc', rfl⟩ := List.mem_map.mp hrow
        obtain ⟨hc', hdocument⟩ := List.mem_filter.mp hc'
        show c'.id = chunkIdFor d.id c'.ordinal
        rw [← of_decide_eq_true hdocument]
        exact hinv.keeps.derived c' hc'
      · rw [hnew] at hrow
        obtain ⟨chunk, -, rfl⟩ := List.mem_map.mp hrow
        rfl

/-- The columns that no attempt at embedding writes. -/
theorem setVector_fields (rows : List (ChunkRow V)) (c : ChunkRecord V) :
    (Tables.setVector rows c).place = c.place ∧ (Tables.setVector rows c).id = c.id ∧
      (Tables.setVector rows c).ordinal = c.ordinal := by
  unfold Tables.setVector
  split <;> exact ⟨rfl, rfl, rfl⟩

/-- An attempt at embedding. -/
theorem Inv.embed (hinv : Inv chunkIdFor h) {a : EmbedAttempt V}
    (hs : h.now.embed (h.seen snapshot) a now = some s) : Keeps chunkIdFor h s := by
  obtain ⟨d, hd, hs⟩ := Option.bind_eq_some_iff.mp hs
  obtain rfl := Option.some.inj hs
  set loaded : Store V :=
    { h.now.store d with chunks := ((h.seen snapshot 0).store d).chunks } with hloaded
  have hid := (changed_embedDocument a (show loaded.document = _ from rfl)).1
  have hplaces := places_setDocument h.now hid now
  refine ⟨⟨fun _ => id, hplaces ▸ fun _ => id⟩, ?_, ?_, ?_, hinv.cited⟩
  · intro place hplace
    exact hinv.now.documents place (hplaces ▸ hplace)
  · intro c hc
    show c.place ∈ (h.now.setDocument d _ now).places
    obtain ⟨c', hc', rfl⟩ := List.mem_map.mp hc
    rw [hplaces, (setVector_fields _ c').1]
    exact hinv.now.chunks c' hc'
  · intro c hc
    obtain ⟨c', hc', rfl⟩ := List.mem_map.mp hc
    obtain ⟨hplace, hcid, hordinal⟩ := setVector_fields
      (Tables.written a loaded.chunks (perform (embedDocument a) loaded).2.chunks) c'
    have hdocument := congrArg Prod.fst hplace
    simp only [ChunkRecord.place] at hdocument
    rw [hcid, hordinal, hdocument]
    exact hinv.keeps.derived c' hc'

end Operations

/-! ### Every run -/

/-- Before anything is written. -/
theorem inv_init : Inv chunkIdFor (⟨{}, []⟩ : History (Tables V K)) := by
  have hempty : ∀ s ∈ (⟨{}, []⟩ : History (Tables V K)).states, s = {} := by
    intro s hs
    exact List.mem_singleton.mp hs
  refine ⟨?_, ?_, ?_, fun t ht => absurd ht List.not_mem_nil⟩
  · intro s hs
    rw [hempty s hs]
    exact ⟨by constructor <;> exact List.nodup_nil, fun _ hplace => absurd hplace List.not_mem_nil,
      fun _ hc => absurd hc List.not_mem_nil⟩
  · intro s hs
    rw [hempty s hs]
    exact fun _ hc => absurd hc List.not_mem_nil
  · intro s hs
    rw [hempty s hs]
    exact Tables.Grows.refl _

variable [Field K] [LinearOrder K] {b : Backend V} {log2 : ℕ → K}

/-- What any operation makes of the tables is what a transaction may make of them. -/
theorem Inv.effect (hinv : Inv chunkIdFor h) {command : Command V} {snapshot : ℕ → ℕ}
    {s : Tables V K} (hs : effect b log2 chunkIdFor (h.seen snapshot) h.now command = some s) :
    Keeps chunkIdFor h s := by
  cases command with
  | createProject principal payload projectId now =>
      obtain rfl := Option.some.inj hs
      exact hinv.createProject payload
  | upload principal projectId a now => exact hinv.upload hs
  | createQuery principal deps embeddings request now =>
      obtain rfl := Option.some.inj hs
      exact hinv.createQuery
  | createDataset principal payload datasetId itemId now => exact hinv.createDataset hs
  | createRun principal payload runId now => exact hinv.createRun hs
  | runIngestion a now => exact hinv.ingest hs
  | embedDocument a now => exact hinv.embed hs
  | execute a embeddings resultId times now => exact hinv.execute hs

/-- **One transaction keeps the invariant.** -/
theorem Inv.step (hinv : Inv chunkIdFor h) {h' : History (Tables V K)}
    {e : Command V × (ℕ → ℕ)} (hstep : h.step (commit b log2 chunkIdFor) e = some h') :
    Inv chunkIdFor h' := by
  obtain ⟨s, hcommit, rfl⟩ := History.step_eq_some.mp hstep
  obtain ⟨s', heffect, hchecked⟩ := Option.bind_eq_some_iff.mp hcommit
  obtain ⟨hconstrained, rfl⟩ := Tables.checked_eq_some.mp hchecked
  exact (hinv.effect heffect).inv hinv hconstrained.keyed

/-- **Whatever is written, in whatever order.** -/
theorem inv_of_run {es : List (Command V × (ℕ → ℕ))}
    (hrun : run (History.step (commit b log2 chunkIdFor)) ⟨{}, []⟩ es = some h) :
    Inv chunkIdFor h :=
  invariant_of_run (fun _ _ _ hinv hstep => Inv.step hinv hstep) inv_init hrun

omit [Field K] [LinearOrder K]

/-- No id was derived for chunks of two documents that were ever stored. -/
def NoCollision (chunkIdFor : Uuid → ℕ → Uuid) (h : History (Tables V K)) : Prop :=
  ∀ s ∈ h.states, ∀ s' ∈ h.states, ∀ c ∈ s.chunks, ∀ c' ∈ s'.chunks,
    chunkIdFor c.documentId c.ordinal = chunkIdFor c'.documentId c'.ordinal →
      c.documentId = c'.documentId

/-- No row refers to a row of another organization, by a key or by an id in a list. -/
structure Tables.Partitioned (s : Tables V K) : Prop extends s.Coherent where
  cited : ∀ t ∈ s.traces, ∀ c ∈ s.chunks, c.id ∈ t.row.retrievedChunkIds →
    c.organizationId = t.organizationId

/-- **The tables are partitioned among the organizations.** -/
theorem Inv.partitioned (hinv : Inv chunkIdFor h) (hids : NoCollision chunkIdFor h) :
    h.now.Partitioned where
  toCoherent := hinv.now
  cited t ht c hc hid := by
    obtain ⟨s, hs, c', hc', hid', howner⟩ := hinv.cited t ht c.id hid
    have hnow : h.now ∈ h.states := List.mem_cons_self
    have hdocument : c'.documentId = c.documentId := by
      refine hids s hs h.now hnow c' hc' c hc ?_
      rw [← hinv.derived s hs c' hc', ← hinv.derived h.now hnow c hc, hid']
    have hplace' : c'.place ∈ h.now.places :=
      (hinv.grows s hs).places ((hinv.coherent s hs).chunks c' hc')
    rw [ChunkRecord.place, hdocument] at hplace'
    have hsame := hinv.now.keyed.place_unique hplace' (hinv.now.chunks c hc)
    rw [← howner]
    exact (congrArg Prod.snd hsame).symm

end Tenancy
end EvidenceLab
