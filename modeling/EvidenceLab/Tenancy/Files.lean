/-
# The database and the object store

The bytes of an upload go into the object store first, and their row into the database after.
A job finds the row, and fetches the bytes by the key that the row has.  The two are written
apart, in any order with whatever else happens; a `Site` is both.

A key holds the id of its document, which is drawn at random, so no file is ever written over.
Therefore each row has its file as it was uploaded, and each chunk is quoted from the file of
its document, in every state there has been (`sound_of_run`).  The program deletes no file, but a
store can; then an ingestion finds nothing, and what was quoted stays quoted from what was there.
-/

import EvidenceLab.Ingest.Quotations
import EvidenceLab.Tenancy.Ownership

namespace EvidenceLab
namespace Tenancy

open Text Data EvidenceLab.Core Retrieval Ingest Evaluation Reasoning Runs Session

variable {V K : Type}

/-! ### Sites -/

/-- What a deployment of the program brings with it: the database, the libraries that read a
PDF and hash a file, the ids of chunks, and what the object store raises for a missing key. -/
structure Deployment (V K : Type) where
  backend : Backend V
  log2 : ℕ → K
  chunkIdFor : Uuid → ℕ → Uuid
  pypdf : List UInt8 → Except Exc PdfFile
  hexdigest : List UInt8 → Str
  objectNotFound : Str → DomainError

/-- The database with its past, and the object store: what has been put into it, and the keys that
have been deleted since. -/
structure Site (V K : Type) where
  db : History (Tables V K) := ⟨{}, []⟩
  objects : Dict Str (List UInt8) := Dict.empty
  deleted : List Str := []

/-- What happens: an upload stores its file, a file is deleted, or a transaction commits. -/
inductive Action (V : Type)
  | put (projectId : Uuid) (a : UploadAttempt)
  | delete (key : Str)
  | transact (command : Command V) (snapshot : ℕ → ℕ)

namespace Site

section Answers

variable (dep : Deployment V K) (site : Site V K)

/-- What is under a key. -/
def stored (key : Str) : Option (List UInt8) :=
  if key ∈ site.deleted then none else site.objects.get? key

/-- `storage.get`, of the file of a document. -/
def fetch (documentId : Uuid) : Except Exc (List UInt8) :=
  match site.db.now.documents.find? (·.id = documentId) with
  | none => .error .crash
  | some d => (site.stored d.storageKey).elim
      (.error (.domain (dep.objectNotFound d.storageKey))) .ok

/-- The file that an upload has read, under its key. -/
def object (projectId : Uuid) (a : UploadAttempt) : Option (Str × List UInt8) :=
  (readAndHash a).toOption.map fun file => (storageKeyOf projectId a.documentId, file.1)

/-- What a command is answered from outside the database.  An upload commits when its file
is stored; where the object store answers an ingestion, it answers with what is stored. -/
def answered : Command V → Option (Command V)
  | .upload principal projectId a now =>
      let a := { a with hexdigest := dep.hexdigest }
      if (object projectId a).any fun file => site.objects.get? file.1 = some file.2 then
        some (.upload principal projectId a now)
      else none
  | .runIngestion a now =>
      some (.runIngestion { a with
        pypdf := dep.pypdf
        payload := a.payload >>= fun _ => site.fetch dep a.documentId } now)
  | command => some command

end Answers

/-- One of them, `uuid4` drawing ids that no file has been stored for. -/
def step [Field K] [LinearOrder K] (dep : Deployment V K) (site : Site V K) :
    Action V → Option (Site V K)
  | .put projectId a => do
      let (key, payload) ← object projectId a
      if site.objects.get? key = none then
        some { site with
          objects := site.objects.set key payload
          deleted := site.deleted.filter (· ≠ key) }
      else none
  | .delete key => some { site with deleted := key :: site.deleted }
  | .transact command snapshot => do
      let command ← site.answered dep command
      let db ← site.db.step (commit dep.backend dep.log2 dep.chunkIdFor) (command, snapshot)
      return { site with db }

end Site

/-! ### Rows and their files -/

/-- What the row of a document says of its file, and where that is. -/
structure Filing extends Origin where
  storageKey : Str

def DocumentRecord.filing (d : DocumentRecord) : Filing := ⟨d.origin, d.storageKey⟩

def Tables.filings (s : Tables V K) : List Filing := s.documents.map DocumentRecord.filing

/-- The passage of a row. -/
def ChunkRecord.quotation (c : ChunkRecord V) : Quotation := c.toChunk.quotation

namespace Site

variable (dep : Deployment V K) (site : Site V K)

/-- The file has been stored, and it has the hash and the size that the row says. -/
def Filed (f : Filing) : Prop :=
  ∃ data, site.objects.get? f.storageKey = some data ∧ f.contentHash = dep.hexdigest data ∧
    f.sizeBytes = data.length

/-- The passage is quoted from the file that has been stored. -/
def Quotes (f : Filing) (q : Quotation) : Prop :=
  ∃ data, site.objects.get? f.storageKey = some data ∧ q.From dep.pypdf f.mimeType data

/-- Every chunk is quoted from the file of its document. -/
def Quoted (s : Tables V K) : Prop :=
  ∀ c ∈ s.chunks, ∃ f ∈ s.filings, f.id = c.documentId ∧ site.Quotes dep f c.quotation

/-- What holds of a site in every state. -/
structure Sound : Prop where
  inv : Inv dep.chunkIdFor site.db
  filed : ∀ f ∈ site.db.now.filings, site.Filed dep f
  kept : ∀ s ∈ site.db.states, s.filings ⊆ site.db.now.filings
  quoted : ∀ s ∈ site.db.states, site.Quoted dep s

/-- What a transaction makes of the rows and their files. -/
structure Files (s : Tables V K) : Prop where
  kept : site.db.now.filings ⊆ s.filings
  filed : ∀ f ∈ s.filings, site.Filed dep f
  quoted : site.Quoted dep s

end Site

/-! ### What a file keeps -/

section Put

variable {dep : Deployment V K} {site : Site V K} {f : Filing} {key : Str} {payload : List UInt8}

/-- To store a file under a new key leaves every other file. -/
theorem get?_put (hfresh : site.objects.get? key = none) {key' : Str} {data : List UInt8}
    (h : site.objects.get? key' = some data) :
    (site.objects.set key payload).get? key' = some data := by
  rw [Dict.get?_set, if_neg ?_, h]
  rintro rfl
  cases hfresh.symm.trans h

theorem Site.get?_of_stored (h : site.stored key = some payload) :
    site.objects.get? key = some payload := by
  unfold Site.stored at h
  split_ifs at h
  exact h

/-- A file that is stored leaves the site sound. -/
theorem Site.Sound.put (hs : site.Sound dep) (hfresh : site.objects.get? key = none)
    (deleted : List Str) :
    ({ site with objects := site.objects.set key payload, deleted } : Site V K).Sound dep where
  inv := hs.inv
  filed f hf := by
    obtain ⟨data, hdata, hrow⟩ := hs.filed f hf
    exact ⟨data, get?_put hfresh hdata, hrow⟩
  kept := hs.kept
  quoted s hmem c hc := by
    obtain ⟨f, hf, hid, data, hdata, hquoted⟩ := hs.quoted s hmem c hc
    exact ⟨f, hf, hid, data, get?_put hfresh hdata, hquoted⟩

end Put

/-! ### Every operation -/

section Operations

variable {dep : Deployment V K} {site : Site V K} {s : Tables V K} {now : ℤ}

/-- A transaction that writes neither documents nor chunks. -/
theorem Site.Sound.unwritten (hs : site.Sound dep)
    (hdocuments : s.documents = site.db.now.documents) (hchunks : s.chunks = site.db.now.chunks) :
    site.Files dep s := by
  have hfilings : s.filings = site.db.now.filings :=
    congrArg (List.map DocumentRecord.filing) hdocuments
  refine ⟨hfilings ▸ fun _ => id, hfilings ▸ hs.filed, ?_⟩
  intro c hc
  rw [hfilings]
  exact hs.quoted _ List.mem_cons_self c (hchunks ▸ hc)

/-- A quotation stays one while the rows of the documents stay. -/
theorem Site.Quoted.of_subset {s s' : Tables V K} {c : ChunkRecord V}
    (h : ∃ f ∈ s.filings, f.id = c.documentId ∧ site.Quotes dep f c.quotation)
    (hsub : s.filings ⊆ s'.filings) :
    ∃ f ∈ s'.filings, f.id = c.documentId ∧ site.Quotes dep f c.quotation := by
  obtain ⟨f, hf, hquotes⟩ := h
  exact ⟨f, hsub hf, hquotes⟩

/-- The row of an upload has its file. -/
theorem Site.filed_of_object {projectId : Uuid} {a : UploadAttempt} {o : Origin}
    (hfile : (object projectId { a with hexdigest := dep.hexdigest }).any
      fun file => site.objects.get? file.1 = some file.2)
    (ho : UploadAttempt.Registers { a with hexdigest := dep.hexdigest } o) :
    site.Filed dep ⟨o, storageKeyOf projectId o.id⟩ := by
  obtain ⟨payload, contentHash, hread, rfl⟩ := ho
  simp only [object, hread, Except.toOption, Option.map_some, Option.any_some,
    decide_eq_true_eq] at hfile
  refine ⟨payload, hfile, ?_, rfl⟩
  -- The hash is that of the bytes, for the file was read to its end.
  simp only [readAndHash, bind_eq_ok] at hread
  obtain ⟨payload', -, hread⟩ := hread
  split at hread
  · cases hread
  · split at hread
    · cases hread
    · cases hread
      rfl

/-- A new document comes with its file. -/
theorem Site.Sound.upload (hs : site.Sound dep) {principal : Principal} {projectId : Uuid}
    {a : UploadAttempt} {seen : ℕ → Tables V K}
    (hfile : (object projectId { a with hexdigest := dep.hexdigest }).any
      fun file => site.objects.get? file.1 = some file.2)
    (hup : site.db.now.upload dep.backend seen principal projectId
      { a with hexdigest := dep.hexdigest } now = some s) : site.Files dep s := by
  obtain ⟨projectId', hscope, hrow⟩ := Option.bind_eq_some_iff.mp hup
  obtain ⟨rfl, -⟩ := owner_of_getProjectScope (toOption_eq_some.mp hscope)
  dsimp only at hrow
  split at hrow
  · obtain rfl := Option.some.inj hrow
    rename_i document hnone hdocument
    have hregisters := registers_createFromUpload _ (by rw [hnone]; rfl) hdocument
    have hsub : site.db.now.filings ⊆ Tables.filings { site.db.now with
        documents := site.db.now.documents ++
          [Tables.uploaded principal projectId' document now] } :=
      List.map_subset _ (List.subset_append_left _ _)
    refine ⟨hsub, ?_, fun c hc =>
      Quoted.of_subset (hs.quoted _ List.mem_cons_self c hc) hsub⟩
    intro f hf
    obtain ⟨d, hd, rfl⟩ := List.mem_map.mp hf
    rcases List.mem_append.mp hd with hd | hd
    · exact hs.filed _ (List.mem_map_of_mem hd)
    · rw [List.mem_singleton.mp hd]
      exact filed_of_object hfile hregisters
  · cases hrow

/-- A job that leaves what the upload said of a document leaves the rows and their files. -/
theorem filings_setDocument (now : ℤ) (hkeyed : s.Keyed) {d : DocumentRecord} (hd : d ∈ s.documents)
    {document : Option Document} (horigin : document.map Document.origin = some d.origin) :
    (s.setDocument d document now).filings = s.filings := by
  rw [Tables.filings, Tables.setDocument, List.map_map]
  refine List.map_congr_left fun row hrow => ?_
  obtain ⟨document', rfl, horigin⟩ := Option.map_eq_some_iff.mp horigin
  rw [Function.comp_apply]
  split
  · rename_i hcond
    rw [List.inj_on_of_nodup_map hkeyed.documents hrow hd hcond.1]
    exact congrArg (Filing.mk · d.storageKey) (Option.some.inj horigin)
  · rfl

/-- The chunks of an ingestion are quoted from the file that it was given. -/
theorem Site.Sound.ingest (hs : site.Sound dep) {a : IngestAttempt}
    (hingest : site.db.now.ingest dep.chunkIdFor { a with
      pypdf := dep.pypdf
      payload := a.payload >>= fun _ => site.fetch dep a.documentId } now = some s) :
    site.Files dep s := by
  obtain ⟨d, hd, hingest⟩ := Option.bind_eq_some_iff.mp hingest
  obtain rfl := Option.some.inj hingest
  have hmem := List.mem_of_find?_eq_some hd
  set a' : IngestAttempt := { a with
    pypdf := dep.pypdf
    payload := a.payload >>= fun _ => site.fetch dep a.documentId
    chunkIdFor := dep.chunkIdFor } with ha'
  set store := site.db.now.store d with hstore
  have hfilings := filings_setDocument now hs.inv.now.keyed hmem
    (origin_runIngestion a' store)
  have hnow := hs.quoted _ List.mem_cons_self
  refine ⟨hfilings ▸ fun _ => id, fun f hf => hs.filed f (hfilings ▸ hf), ?_⟩
  intro c hc
  show ∃ f ∈ (site.db.now.setDocument d _ now).filings, _
  rw [hfilings]
  rcases List.mem_append.mp hc with hc | hc
  · exact hnow c (List.mem_of_mem_filter hc)
  · obtain ⟨row, hrow, rfl⟩ := List.mem_map.mp hc
    rcases leaves_runIngestion a' (show store.document = some d.toDocument from rfl) with
      ⟨-, chunks, pageCount, houtput, hrows, -⟩ | ⟨-, hsame, -⟩
    · rw [hrows] at hrow
      obtain ⟨chunk, hchunk, rfl⟩ := List.mem_map.mp hrow
      obtain ⟨data, hpayload, hquoted⟩ := quoted_of_output houtput hchunk
      refine ⟨d.filing, List.mem_map_of_mem hmem, rfl, data, ?_, hquoted⟩
      obtain ⟨-, -, hfetch⟩ := bind_eq_ok.mp hpayload
      rw [fetch, hd] at hfetch
      dsimp only at hfetch
      cases hobject : site.stored d.storageKey with
      | none => rw [hobject] at hfetch; cases hfetch
      | some data' =>
          rw [hobject] at hfetch
          exact (get?_of_stored hobject).trans (congrArg some (Except.ok.inj hfetch))
    · rw [hsame] at hrow
      obtain ⟨c', hc', rfl⟩ := List.mem_map.mp hrow
      obtain ⟨hc', hdocument⟩ := List.mem_filter.mp hc'
      obtain ⟨f, hf, hid, hquotes⟩ := hnow c' hc'
      exact ⟨f, hf, hid.trans (of_decide_eq_true hdocument), hquotes⟩

/-- An attempt at embedding writes to no passage. -/
theorem quotation_setVector (rows : List (ChunkRow V)) (c : ChunkRecord V) :
    (Tables.setVector rows c).quotation = c.quotation ∧
      (Tables.setVector rows c).documentId = c.documentId := by
  unfold Tables.setVector
  split <;> exact ⟨rfl, rfl⟩

theorem Site.Sound.embed (hs : site.Sound dep) {seen : ℕ → Tables V K} {a : EmbedAttempt V}
    (hembed : site.db.now.embed seen a now = some s) : site.Files dep s := by
  obtain ⟨d, hd, hembed⟩ := Option.bind_eq_some_iff.mp hembed
  obtain rfl := Option.some.inj hembed
  have hmem := List.mem_of_find?_eq_some hd
  have hfilings := filings_setDocument now hs.inv.now.keyed hmem
    (origin_embedDocument a { site.db.now.store d with chunks := ((seen 0).store d).chunks })
  refine ⟨hfilings ▸ fun _ => id, fun f hf => hs.filed f (hfilings ▸ hf), ?_⟩
  intro c hc
  show ∃ f ∈ (site.db.now.setDocument d _ now).filings, _
  rw [hfilings]
  obtain ⟨c', hc', rfl⟩ := List.mem_map.mp hc
  rw [(quotation_setVector _ c').1, (quotation_setVector _ c').2]
  exact hs.quoted _ List.mem_cons_self c' hc'

end Operations

/-! ### Every run -/

section Runs

variable [Field K] [LinearOrder K] {dep : Deployment V K} {site site' : Site V K}

/-- A transaction may make of the tables what the files allow. -/
theorem Site.Sound.effect (hs : site.Sound dep) {command command' : Command V}
    (hanswered : site.answered dep command = some command') {seen : ℕ → Tables V K}
    {s : Tables V K} (heffect : Tenancy.effect dep.backend dep.log2 dep.chunkIdFor seen site.db.now
      command' = some s) : site.Files dep s := by
  cases command with
  | createProject principal payload projectId now =>
      obtain rfl := Option.some.inj hanswered
      obtain rfl := Option.some.inj heffect
      exact hs.unwritten rfl rfl
  | upload principal projectId a now =>
      simp only [Site.answered] at hanswered
      split at hanswered
      · obtain rfl := Option.some.inj hanswered
        exact hs.upload ‹_› heffect
      · cases hanswered
  | createQuery principal deps embeddings request now =>
      obtain rfl := Option.some.inj hanswered
      obtain rfl := Option.some.inj heffect
      exact hs.unwritten rfl rfl
  | createDataset principal payload datasetId itemId now =>
      obtain rfl := Option.some.inj hanswered
      obtain ⟨project, -, heffect⟩ := Option.bind_eq_some_iff.mp heffect
      obtain rfl := Option.some.inj heffect
      exact hs.unwritten rfl rfl
  | createRun principal payload runId now =>
      obtain rfl := Option.some.inj hanswered
      obtain ⟨checked, -, heffect⟩ := Option.bind_eq_some_iff.mp heffect
      obtain ⟨dataset, -, heffect⟩ := Option.bind_eq_some_iff.mp heffect
      obtain rfl := Option.some.inj heffect
      exact hs.unwritten rfl rfl
  | runIngestion a now =>
      obtain rfl := Option.some.inj hanswered
      exact hs.ingest heffect
  | embedDocument a now =>
      obtain rfl := Option.some.inj hanswered
      exact hs.embed heffect
  | execute a embeddings resultId times now =>
      obtain rfl := Option.some.inj hanswered
      obtain ⟨row, -, heffect⟩ := Option.bind_eq_some_iff.mp heffect
      obtain ⟨dataset, -, heffect⟩ := Option.bind_eq_some_iff.mp heffect
      obtain ⟨left, -, heffect⟩ := Option.bind_eq_some_iff.mp heffect
      obtain rfl := Option.some.inj heffect
      exact hs.unwritten rfl rfl

/-- **Whatever happens next, the site stays sound.** -/
theorem Site.Sound.step (hs : site.Sound dep) {action : Action V}
    (hstep : site.step dep action = some site') : site'.Sound dep := by
  cases action with
  | put projectId a =>
      obtain ⟨file, -, hstep⟩ := Option.bind_eq_some_iff.mp hstep
      dsimp only at hstep
      split at hstep
      · obtain rfl := Option.some.inj hstep
        exact hs.put ‹_› _
      · cases hstep
  | delete key =>
      obtain rfl := Option.some.inj hstep
      exact ⟨hs.inv, hs.filed, hs.kept, hs.quoted⟩
  | transact command snapshot =>
      obtain ⟨command', hanswered, hstep⟩ := Option.bind_eq_some_iff.mp hstep
      obtain ⟨db, hdb, hstep⟩ := Option.bind_eq_some_iff.mp hstep
      obtain rfl := Option.some.inj hstep
      obtain ⟨s, hcommit, rfl⟩ := History.step_eq_some.mp hdb
      obtain ⟨s', heffect, hchecked⟩ := Option.bind_eq_some_iff.mp hcommit
      obtain ⟨-, rfl⟩ := Tables.checked_eq_some.mp hchecked
      have hfiles := hs.effect hanswered heffect
      refine ⟨hs.inv.step hdb, hfiles.filed, ?_, ?_⟩
      · intro s hmem
        rcases List.mem_cons.mp hmem with rfl | hmem
        · exact fun _ => id
        · exact fun f hf => hfiles.kept (hs.kept s hmem hf)
      · intro s hmem
        rcases List.mem_cons.mp hmem with rfl | hmem
        · exact hfiles.quoted
        · exact hs.quoted s hmem

omit [Field K] [LinearOrder K] in
/-- Before anything happens. -/
theorem Site.sound_init : ({} : Site V K).Sound dep where
  inv := inv_init
  filed f hf := absurd hf List.not_mem_nil
  kept s hs := by
    rw [List.mem_singleton.mp hs]
    exact fun _ => id
  quoted s hs := by
    rw [List.mem_singleton.mp hs]
    exact fun c hc => absurd hc List.not_mem_nil

/-- **Every site that can be reached is sound.** -/
theorem Site.sound_of_run {actions : List (Action V)}
    (hrun : run (Site.step dep) {} actions = some site) : site.Sound dep :=
  invariant_of_run (fun _ _ _ hs hstep => Site.Sound.step hs hstep) Site.sound_init hrun

end Runs

end Tenancy
end EvidenceLab
