/-
# One operation after the other

A sequence of operations on a document, each of them a program, is a run of the jobs in
which one job is at work at a time (`leads_of_run`).  So a stored embedding can only come
to a text that it is not of when jobs overlap: `embedding_of_run`.
-/

import EvidenceLab.Ingest.Alone
import EvidenceLab.Ingest.Lifecycle
import EvidenceLab.Ingest.Rows

namespace EvidenceLab
namespace Ingest

open Text Data EvidenceLab.Core Runs Session

variable {V : Type}

/-! ### What the programs do to the rows -/

/-- The rows after an attempt at ingestion: what they were, or those of some chunks. -/
def IngestAttempt.Rechunked (a : IngestAttempt) (d : Document) (s : Store V)
    (rows : List (ChunkRow V)) : Prop :=
  rows = s.chunks ∨ ∃ chunks, rows = chunkRows (a.chunkIdFor d.id) chunks

/-- The rows after an attempt at embedding: what they were, or with the vectors that the
provider has returned for the texts of those that were pending. -/
def EmbedAttempt.Embedded (a : EmbedAttempt V) (s : Store V) (rows : List (ChunkRow V)) : Prop :=
  rows = s.chunks ∨ ∃ modelId vectors,
    pendingChunks modelId s.chunks ≠ [] ∧
    vectors.length = (pendingChunks modelId s.chunks).length ∧
    a.embedTexts ((pendingChunks modelId s.chunks).map (·.text)) = .ok vectors ∧
    rows = (s.setEmbeddings modelId ((pendingChunks modelId s.chunks).zip vectors)).chunks

section Programs

variable {s : Store V} {d : Document}

/-- An ingestion attempt. -/
theorem rechunked_runIngestion (a : IngestAttempt) (hd : s.document = some d) :
    s.Changed (a.Rechunked d s) (perform (runIngestion a) s).2 := by
  have hid : ∀ document : Option Document,
      document.map (·.id) = (document.map Document.facts).map (·.1) := by
    intro document
    rw [Option.map_map]
    rfl
  rcases leaves_runIngestion a hd with ⟨-, chunks, pageCount, -, hrows, hfacts⟩ | ⟨-, hrows, hfacts⟩
  · refine ⟨?_, Or.inr ⟨chunks, hrows⟩⟩
    rw [hid, hfacts, hd]
    rfl
  · refine ⟨?_, Or.inl hrows⟩
    rw [hid, hfacts, ← hid]

/-- An embedding attempt. -/
theorem embedded_embedDocument (a : EmbedAttempt V) (hd : s.document = some d) :
    s.Changed (a.Embedded s) (perform (embedDocument a) s).2 := by
  obtain ⟨hid, hrows⟩ := changed_embedDocument a hd
  refine ⟨hid, ?_⟩
  rcases hrows with ⟨modelId, vectors, hwritten, hrows⟩ | ⟨-, hrows⟩
  · obtain ⟨-, -, -, -, hpending, hvectors, hlen, -⟩ := hwritten
    exact Or.inr ⟨modelId, vectors, hpending, hlen, hvectors, hrows⟩
  · exact Or.inl hrows

end Programs

/-! ### One job at a time -/

open Jobs

/-- No job is running, and the rows of the document are those of its store; what the
provider has returned is as `answer` says. -/
structure Matches {Slot : Type} (documentId : Uuid) (answer : Str → V → Prop) (l : Life V)
    (s : Jobs Slot V) : Prop where
  quiet : s.Quiet
  distinct : s.Distinct
  answered : ∀ p ∈ s.returned, answer p.1 p.2
  rows : (∀ d, l.store.document = some d → d.id = documentId) → s.view = l.store.chunks

/-- The primary key of the chunk rows. -/
def Life.Keyed (l : Life V) : Prop := (l.store.chunks.map (·.id)).Nodup

/-- The operations of one deployment: the ids of chunks are derived in one way, and the
provider answers as `answer` says. -/
def Operation.Deployed (chunkIdFor : Uuid → ℕ → Uuid) (answer : Str → V → Prop) :
    Operation V → Prop
  | .upload _ => True
  | .runIngestion a => a.chunkIdFor = chunkIdFor
  | .embedDocument a => ∀ texts vectors, a.embedTexts texts = .ok vectors →
      ∀ p ∈ texts.zip vectors, answer p.1 p.2

section Steps

variable {Slot : Type} {chunkIdFor : Uuid → ℕ → Uuid} {documentId : Uuid}
  {answer : Str → V → Prop} {l l' : Life V} {s : Jobs Slot V}

/-- Chunks whose rows have different ids do not clash. -/
theorem pairwise_not_clash {chunks : List Chunk}
    (hids : ((chunkRows (chunkIdFor documentId) chunks : List (ChunkRow V)).map (·.id)).Nodup) :
    chunks.Pairwise fun a b => ¬ Clash (chunkIdFor documentId) a b := by
  rw [chunkRows, List.map_map] at hids
  refine (List.pairwise_map.mp hids).imp fun hne hclash => ?_
  rcases hclash with h | h
  · exact hne h
  · exact hne (congrArg (chunkIdFor documentId) h)

/-- An operation that leaves the rows as they are is matched by no step at all. -/
theorem Matches.of_chunks_eq (h : Matches documentId answer l s)
    (hdoc : (∀ d, l'.store.document = some d → d.id = documentId) →
      ∀ d, l.store.document = some d → d.id = documentId)
    (hchunks : l'.store.chunks = l.store.chunks) : Matches documentId answer l' s where
  quiet := h.quiet
  distinct := h.distinct
  answered := h.answered
  rows hid := (h.rows (hdoc hid)).trans hchunks.symm

theorem id_of_changed {st st' : Store V} {p : List (ChunkRow V) → Prop} (h : st.Changed p st')
    (hid : ∀ d, st'.document = some d → d.id = documentId) :
    ∀ d, st.document = some d → d.id = documentId := by
  intro d hd
  obtain ⟨d', hd', heq⟩ := Option.map_eq_some_iff.mp (h.1.trans (congrArg _ hd))
  exact heq.symm.trans (hid d' hd')

/-- Nor is there a step to match an operation on another document. -/
theorem Matches.of_other (h : Matches documentId answer l s) {p : List (ChunkRow V) → Prop}
    {d : Document} (hchanged : l.store.Changed p l'.store) (hd : l.store.document = some d)
    (hdoc : d.id ≠ documentId) : Matches documentId answer l' s where
  quiet := h.quiet
  distinct := h.distinct
  answered := h.answered
  rows hid := absurd (id_of_changed hchanged hid d hd) hdoc

/-- An upload is matched by no step at all. -/
theorem Matches.upload (h : Matches documentId answer l s) (a : UploadAttempt)
    (hstep : l.step (.upload a) = some l') : Matches documentId answer l' s := by
  obtain rfl := Option.some.inj hstep
  rcases committed_of_wp (wp_createFromUpload a l.store) with hs | ⟨document, -, hs⟩
  · rw [hs]
    exact h
  · rw [hs]
    refine h.of_chunks_eq (fun hid d hd => hid d ?_) rfl
    simp only [hd]
    rfl

variable [Fintype Slot] [DecidableEq Slot]

/-- An ingestion attempt is matched by an ingestion, or by no step at all. -/
theorem Matches.runIngestion (h : Matches documentId answer l s) (slot : Slot) (a : IngestAttempt)
    (ha : a.chunkIdFor = chunkIdFor) (hstep : l.step (.runIngestion a) = some l')
    (hkeyed : l'.Keyed) :
    ∃ events s', Leads (Jobs.step (chunkIdFor documentId)) Fresh s events s' ∧
      Matches documentId answer l' s' := by
  obtain rfl := Option.some.inj hstep
  cases hd : l.store.document with
  | none =>
      rcases perform_of_wp (wp_runIngestion_of_none a hd) with ⟨_, _, -, h'⟩ | ⟨_, t, hp, ht⟩
      · exact h'.elim
      · refine ⟨[], s, .nil s, ?_⟩
        rw [hp, ht]
        exact h.of_chunks_eq id rfl
  | some d =>
      have hchanged := rechunked_runIngestion a hd
      by_cases hdoc : d.id = documentId
      · rcases hchanged.2 with hsame | ⟨chunks, hrows⟩
        · exact ⟨[], s, .nil s, h.of_chunks_eq (id_of_changed hchanged) hsame⟩
        · rw [ha, hdoc] at hrows
          rw [Life.Keyed, hrows] at hkeyed
          obtain ⟨s', hleads, hquiet, hdistinct, hview, hreturned⟩ :=
            leads_ingestion h.quiet slot (pairwise_not_clash hkeyed)
          refine ⟨_, s', hleads, hquiet, hdistinct, hreturned ▸ h.answered, fun _ => ?_⟩
          rw [hview, hrows]
      · exact ⟨[], s, .nil s, h.of_other hchanged hd hdoc⟩

/-- An embedding attempt is matched by an embedding job, or by no step at all. -/
theorem Matches.embedDocument (h : Matches documentId answer l s) (slot : Slot) (a : EmbedAttempt V)
    (ha : Operation.Deployed chunkIdFor answer (.embedDocument a))
    (hstep : l.step (.embedDocument a) = some l') :
    ∃ events s', Leads (Jobs.step (chunkIdFor documentId)) Fresh s events s' ∧
      Matches documentId answer l' s' := by
  obtain rfl := Option.some.inj hstep
  cases hd : l.store.document with
  | none =>
      rcases perform_of_wp (wp_embedDocument_of_none a hd) with ⟨_, _, -, h'⟩ | ⟨_, t, hp, ht⟩
      · exact h'.elim
      · refine ⟨[], s, .nil s, ?_⟩
        rw [hp, ht]
        exact h.of_chunks_eq id rfl
  | some d =>
      have hchanged := embedded_embedDocument a hd
      by_cases hdoc : d.id = documentId
      · rcases hchanged.2 with hsame | ⟨modelId, vectors, hpending, hlen, hvectors, hrows⟩
        · exact ⟨[], s, .nil s, h.of_chunks_eq (id_of_changed hchanged) hsame⟩
        · have hview : s.view = l.store.chunks :=
            h.rows fun d' hd' => Option.some.inj (hd'.symm.trans hd) ▸ hdoc
          rw [← hview] at hpending hlen hvectors hrows
          obtain ⟨s', hleads, hquiet, hdistinct, hview', hreturned⟩ :=
            leads_embedding h.quiet h.distinct slot hpending hlen l.store.document
          refine ⟨_, s', hleads, hquiet, hdistinct, ?_, fun _ => ?_⟩
          · intro p hp
            rw [hreturned] at hp
            rcases List.mem_append.mp hp with hold | hnew
            · exact h.answered p hold
            · exact ha _ _ hvectors p hnew
          · rw [hview', hrows, hview]
      · exact ⟨[], s, .nil s, h.of_other hchanged hd hdoc⟩

end Steps

/-- **Operations one after the other** are jobs one after the other: for every sequence
of them that keeps the primary key there is a run of jobs in one slot, all of whose steps are
fresh, that ends with no job running and with the rows that the operations leave. -/
theorem leads_of_run {Slot : Type} [Fintype Slot] [DecidableEq Slot] (slot : Slot)
    (chunkIdFor : Uuid → ℕ → Uuid) (documentId : Uuid) (answer : Str → V → Prop)
    {ops : List (Operation V)} (hops : ∀ op ∈ ops, op.Deployed chunkIdFor answer)
    (hkeyed : Throughout Life.step Life.Keyed {} ops) {l : Life V}
    (hrun : run Life.step {} ops = some l) :
    ∃ (events : List (Slot × Event V)) (s : Jobs Slot V),
      Leads (Jobs.step (chunkIdFor documentId)) Fresh {} events s ∧
      Matches documentId answer l s := by
  have hinit : Matches documentId answer {} ({} : Jobs Slot V) :=
    ⟨fun _ => rfl, ⟨List.nodup_nil, List.nodup_nil⟩, fun _ hp => absurd hp List.not_mem_nil,
      fun _ => rfl⟩
  refine leads_of_simulation ?_ hinit (every_of_throughout hops hkeyed) hrun
  rintro l s op l' hmatches ⟨hop, hkeyed'⟩ hstep
  cases op with
  | upload a => exact ⟨[], s, .nil s, hmatches.upload a hstep⟩
  | runIngestion a => exact hmatches.runIngestion slot a hop hstep (hkeyed' l' hstep)
  | embedDocument a => exact hmatches.embedDocument slot a hop hstep

/-- **Embeddings belong to their texts when nothing overlaps.**  After every sequence of
operations that keeps the primary key, the embedding of a stored chunk is one that the
provider has returned for the chunk's own text. -/
theorem embedding_of_run (chunkIdFor : Uuid → ℕ → Uuid) (answer : Str → V → Prop)
    {ops : List (Operation V)} (hops : ∀ op ∈ ops, op.Deployed chunkIdFor answer)
    (hkeyed : Throughout Life.step Life.Keyed {} ops) {l : Life V}
    (hrun : run Life.step {} ops = some l) :
    ∀ row ∈ l.store.chunks, ∀ vector ∈ row.embedding, answer row.text vector := by
  obtain ⟨documentId, hdoc⟩ : ∃ documentId, ∀ d, l.store.document = some d → d.id = documentId := by
    cases l.store.document with
    | none => exact ⟨0, fun _ h => by cases h⟩
    | some d => exact ⟨d.id, fun d' h => by rw [Option.some.inj h]⟩
  obtain ⟨events, s, hleads, hmatches⟩ :=
    leads_of_run () chunkIdFor documentId answer hops hkeyed hrun
  have hbelongs : s.Belongs := (inv_init.throughout hleads.every).last hleads.run
  intro row hrow vector hvector
  rw [← hmatches.rows hdoc] at hrow
  obtain ⟨stored, hstored, rfl⟩ := List.mem_map.mp hrow
  exact hmatches.answered _ (hbelongs stored hstored vector hvector)

end Ingest
end EvidenceLab
