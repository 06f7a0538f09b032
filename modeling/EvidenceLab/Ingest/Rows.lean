/-
# What attempts do to the rows

An attempt at ingestion that gets to its last commit replaces the rows of the chunks, and
the counts with them; any other leaves all of these as they were, wherever it fails
(`leaves_runIngestion`).

What an attempt at embedding leaves in the rows is exactly `EmbedAttempt.RowsAfter`: if
it writes, every pending row has the vector that came back at its place, and every
other row is as it was; if it does not write, nothing has changed
(`changed_embedDocument`).
-/

import EvidenceLab.Ingest.Attempts

namespace EvidenceLab
namespace Ingest

open Text Data EvidenceLab.Core Runs Session

variable {V : Type}

/-! ### What is kept -/

section Kept

variable {P : Store V → Prop} {t : Txn (Store V)} {d : Document}

/-- A failure handler keeps what a failed document does not break. -/
theorem wp_recordFailure_of_kept {replies : AmendReplies Exc} {code : ErrorCode}
    {message : String} (hd : t.committed.document = some d) (h : P t.committed)
    (hfailed : P (t.committed.updateDocument (Document.fail code message))) :
    wp (recordFailure replies code message) (fun _ t' => P t'.committed)
      (fun _ t' => P t'.committed) t := by
  refine wp_mono (wp_amend hd) ?_ ?_
  · rintro _ _ ⟨-, rfl⟩
    exact hfailed
  · rintro _ t' (⟨-, heq⟩ | ⟨-, heq⟩)
    · exact heq ▸ hfailed
    · exact heq ▸ h

/-- To read a document back changes nothing. -/
theorem wp_readBack_of_kept {a : IngestAttempt} (h : P t.committed) :
    wp (readBack a) (fun _ t => P t.committed) (fun _ t => P t.committed) t := by
  simp only [readBack, wp_bind, wp_getDocument]
  refine ⟨fun _ => ?_, fun _ _ => h⟩
  split <;> exact h

end Kept

/-! ### Ingestion -/

/-- What an ingestion reads of a document, and the counts. -/
def Document.facts (d : Document) : Uuid × String × Option Str × Option ℕ × ℕ :=
  (d.id, d.mimeType, d.filename, d.pageCount, d.chunkCount)

/-- The rows and the counts are as they were. -/
def Store.Same (s s' : Store V) : Prop :=
  s'.chunks = s.chunks ∧ s'.document.map Document.facts = s.document.map Document.facts

namespace IngestAttempt

variable (a : IngestAttempt) (d : Document)

/-- The chunks that an attempt makes, and the number of pages. -/
def output : Except Exc (List Chunk × Option ℕ) := do
  let payload ← a.payload
  let parsed ← parseAs a.pypdf d.mimeType payload d.filename
  let chunker ← RecursiveCharacterChunker.init a.chunkSizeChars a.chunkOverlapChars none
  return (chunker.chunk parsed, parsed.pageCount)

/-- The attempt begins, gets to its last commit, and that is carried out. -/
def Succeeds : Prop := a.lookup = none ∧ a.Completes d

/-- The rows and the counts are those of the chunks that the attempt makes. -/
def Rewrites (s' : Store V) : Prop :=
  ∃ chunks pageCount, a.output d = .ok (chunks, pageCount) ∧
    s'.chunks = chunkRows (a.chunkIdFor d.id) chunks ∧
    s'.document.map Document.facts = some (d.id, d.mimeType, d.filename, pageCount, chunks.length)

/-- All or nothing. -/
def Leaves (s s' : Store V) : Prop :=
  (a.Succeeds d ∧ a.Rewrites d s') ∨ (¬ a.Succeeds d ∧ s.Same s')

end IngestAttempt

section Ingestion

variable {a : IngestAttempt} {s s' : Store V} {d d' : Document}

theorem Store.Same.updateDocument (h : s.Same s') {f : Document → Document}
    (hf : ∀ d, (f d).facts = d.facts) : s.Same (s'.updateDocument f) := by
  refine ⟨h.1, ?_⟩
  rw [← h.2, Store.document_updateDocument, Option.map_map]
  exact congrFun (congrArg Option.map (funext hf)) s'.document

theorem IngestAttempt.Leaves.updateDocument (h : a.Leaves d s s') {f : Document → Document}
    (hf : ∀ d, (f d).facts = d.facts) : a.Leaves d s (s'.updateDocument f) := by
  refine h.imp (And.imp_right ?_) (And.imp_right fun hsame => hsame.updateDocument hf)
  rintro ⟨chunks, pageCount, houtput, hrows, hfacts⟩
  refine ⟨chunks, pageCount, houtput, hrows, ?_⟩
  rw [← hfacts, Store.document_updateDocument, Option.map_map]
  exact congrFun (congrArg Option.map (funext hf)) s'.document

/-- The stages of an attempt that gets to its last commit. -/
theorem IngestAttempt.stages_eq_ok :
    a.stages d = .ok () ↔ ∃ payload parsed chunker, a.payload = .ok payload ∧
      parseAs a.pypdf d.mimeType payload d.filename = .ok parsed ∧
      a.chunkingCommit.raised = none ∧
      RecursiveCharacterChunker.init a.chunkSizeChars a.chunkOverlapChars none = .ok chunker ∧
      a.delete = none := by
  have hreply : ∀ answer : Option Exc, reply answer = .ok () ↔ answer = none := by
    intro answer
    cases answer <;> simp [reply]
  simp only [stages, bind_eq_ok, hreply]
  constructor
  · rintro ⟨payload, hpayload, parsed, hparsed, -, hchunking, chunker, hchunker, hdelete⟩
    exact ⟨payload, parsed, chunker, hpayload, hparsed, hchunking, hchunker, hdelete⟩
  · rintro ⟨payload, parsed, chunker, hpayload, hparsed, hchunking, hchunker, hdelete⟩
    exact ⟨payload, hpayload, parsed, hparsed, (), hchunking, chunker, hchunker, hdelete⟩

theorem Store.Same.of_stopped (h : a.Stopped s s') : s.Same s' := by
  have hsame : s.Same s := ⟨rfl, rfl⟩
  rcases h with ⟨-, rfl⟩ | ⟨-, status, -, rfl⟩
  · exact hsame
  · exact hsame.updateDocument fun _ => rfl

theorem IngestAttempt.Rewrites.of_finished (h : a.Finished d s') : a.Rewrites d s' := by
  obtain ⟨payload, parsed, chunker, hpayload, hparsed, hchunker, rfl⟩ := h
  have houtput : a.output d = .ok (chunker.chunk parsed, parsed.pageCount) :=
    bind_eq_ok.mpr ⟨payload, hpayload, bind_eq_ok.mpr ⟨parsed, hparsed,
      bind_eq_ok.mpr ⟨chunker, hchunker, rfl⟩⟩⟩
  exact ⟨_, _, houtput, rfl, rfl⟩

/-- The `try` of an ingestion, and the rows. -/
theorem wp_ingest_leaves (a : IngestAttempt) (hlook : a.lookup = none)
    (hd : s.document = some d) :
    wp (ingest a d) (fun _ t => a.Leaves d s t.committed) (fun _ t => a.Leaves d s t.committed)
      ⟨s, s⟩ := by
  have hfinished : ∀ {s'}, a.Completes d → a.Finished d s' → a.Leaves d s s' :=
    fun hc h => Or.inl ⟨⟨hlook, hc⟩, .of_finished h⟩
  refine wp_mono (wp_ingest_ends a hd) ?_ ?_
  · rintro _ t ⟨hc, -, h⟩
    exact hfinished hc h
  · rintro e t ⟨-, ⟨hnc, h⟩ | ⟨hc, h⟩⟩
    · exact Or.inr ⟨fun hsucceeds => hnc hsucceeds.2, .of_stopped h⟩
    · exact hfinished hc h

/-- What an attempt leaves has a document. -/
theorem IngestAttempt.Leaves.exists_document (h : a.Leaves d s s') (hd : s.document = some d) :
    ∃ d', s'.document = some d' := by
  rcases h with ⟨-, _, _, -, -, hfacts⟩ | ⟨-, -, hfacts⟩
  · obtain ⟨d', hd', -⟩ := Option.map_eq_some_iff.mp hfacts
    exact ⟨d', hd'⟩
  · obtain ⟨d', hd', -⟩ := Option.map_eq_some_iff.mp (hfacts.trans (congrArg _ hd))
    exact ⟨d', hd'⟩

/-- **An attempt changes all or nothing.** -/
theorem leaves_runIngestion (a : IngestAttempt) (hd : s.document = some d) :
    a.Leaves d s (perform (runIngestion a) s).2 := by
  refine committed_of_wp (P := a.Leaves d s) ?_
  simp only [runIngestion, wp_bind, wp_getDocument, hd, wp_handling]
  constructor
  · intro hlook
    refine wp_mono (wp_ingest_leaves a hlook hd) (fun _ _ => wp_readBack_of_kept) ?_
    intro e t ht
    obtain ⟨d', hd'⟩ := ht.exists_document hd
    have hrecord : ∀ code message, wp (recordFailure a.failure code message)
        (fun _ t' => a.Leaves d s t'.committed) (fun _ t' => a.Leaves d s t'.committed) t :=
      fun code message => wp_recordFailure_of_kept hd' ht (ht.updateDocument fun _ => rfl)
    unfold ingestHandler
    split
    · exact wp_mono (hrecord _ _) (fun _ _ => wp_readBack_of_kept) fun _ _ => id
    · split
      · simp only [wp_bind]
        exact wp_mono (hrecord _ _) (fun _ _ => id) fun _ _ => id
      · exact ht
  · intro e hlook
    refine Or.inr ⟨?_, rfl, rfl⟩
    rintro ⟨hlook', -⟩
    cases hlook.symm.trans hlook'

/-- An attempt that returns a completed document has succeeded. -/
theorem succeeds_of_completed (hd : s.document = some d)
    (h : (perform (runIngestion a) s).1 = .ok d') (hstatus : d'.ingestionStatus = .completed) :
    a.Succeeds d := by
  have hreadBack : ∀ {t : Txn (Store V)} {P : Document → Prop}, t.working = t.committed →
      t.committed.Has P → wp (readBack a) (fun d' _ => P d') (fun _ _ => True) t := by
    rintro t P hwork ⟨d', hd', hP⟩
    simp only [readBack, wp_bind, wp_getDocument, hwork, hd', wp_pure]
    exact ⟨fun _ => hP, fun _ _ => trivial⟩
  have hwp : wp (runIngestion a)
      (fun d' _ => d'.ingestionStatus = .completed → a.Succeeds d) (fun _ _ => True) ⟨s, s⟩ := by
    simp only [runIngestion, wp_bind, wp_getDocument, hd, wp_handling]
    refine ⟨fun hlook => wp_mono (wp_ingest a hd) ?_ ?_, fun _ _ => trivial⟩
    · rintro _ t ⟨hc, hwork, hcompleted⟩
      exact wp_mono (hreadBack hwork hcompleted) (fun _ _ _ _ => ⟨hlook, hc⟩) fun _ _ _ => trivial
    · rintro e t ⟨he, hleft⟩
      refine wp_mono (wp_ingestHandler hlook hd he hleft) ?_ fun _ _ _ => trivial
      rintro _ t' ⟨-, hwork, hfailed⟩
      refine wp_mono (hreadBack hwork hfailed) ?_ fun _ _ _ => trivial
      intro d' _ hf hcompleted
      cases hf.1.symm.trans hcompleted
  rcases perform_of_wp hwp with ⟨d'', t, hp, hsucceeds⟩ | ⟨e, t, hp, -⟩
  · rw [hp] at h
    cases h
    exact hsucceeds hstatus
  · rw [hp] at h
    cases h

end Ingestion

/-! ### Embedding -/

/-- The document has kept its id, and the rows are as `p` says. -/
def Store.Changed (p : List (ChunkRow V) → Prop) (s s' : Store V) : Prop :=
  s'.document.map (·.id) = s.document.map (·.id) ∧ p s'.chunks

namespace EmbedAttempt

variable (a : EmbedAttempt V) (s : Store V)

/-- What an attempt writes, if it writes: the name of the model, and a vector for each
pending row. -/
def Written (modelId : String) (vectors : List V) : Prop :=
  a.lookup = none ∧ s.document ≠ none ∧ a.pipeline = .ok modelId ∧ a.select = none ∧
    pendingChunks modelId s.chunks ≠ [] ∧
    a.embedTexts ((pendingChunks modelId s.chunks).map (·.text)) = .ok vectors ∧
    vectors.length = (pendingChunks modelId s.chunks).length ∧ a.finalCommit.Lands

/-- The rows that an attempt leaves. -/
def RowsAfter (rows : List (ChunkRow V)) : Prop :=
  (∃ modelId vectors, a.Written s modelId vectors ∧
    rows = (s.setEmbeddings modelId ((pendingChunks modelId s.chunks).zip vectors)).chunks) ∨
  ((∀ modelId vectors, ¬ a.Written s modelId vectors) ∧ rows = s.chunks)

end EmbedAttempt

section Embedding

variable {a : EmbedAttempt V} {s s' : Store V} {d : Document} {p : List (ChunkRow V) → Prop}

theorem Store.Changed.updateDocument (h : s.Changed p s') {f : Document → Document}
    (hf : ∀ d, (f d).id = d.id) : s.Changed p (s'.updateDocument f) := by
  refine ⟨?_, h.2⟩
  rw [← h.1, Store.document_updateDocument, Option.map_map]
  exact congrFun (congrArg Option.map (funext hf)) s'.document

/-- An attempt that writes nothing leaves the rows as they are. -/
theorem changed_of_not_written (h : ∀ modelId vectors, ¬ a.Written s modelId vectors) :
    s.Changed (a.RowsAfter s) s := ⟨rfl, Or.inr ⟨h, rfl⟩⟩

/-- An attempt with vectors to write writes, if its commit is carried out. -/
theorem EmbedAttempt.Written.writes {modelId : String} {vectors : List V}
    (h : a.Written s modelId vectors) : a.Writes s := by
  obtain ⟨hlook, -, hmodel, hselect, hpending, hvectors, hlen, hlands⟩ := h
  exact ⟨hlook, Embeds.stages ⟨hmodel, hselect, hpending, hvectors, hlen⟩, hlands⟩

/-- What is committed over the rows. -/
theorem EmbedAttempt.WritesOver.changed (h : a.WritesOver s s') (hlook : a.lookup = none)
    (hd : s.document = some d) : s.Changed (a.RowsAfter s) s' := by
  obtain ⟨modelId, vectors, ⟨hmodel, hselect, hpending, hvectors, hlen⟩, hlands, rfl⟩ := h
  have hdoc : s.document ≠ none := by
    rw [hd]
    exact Option.some_ne_none d
  have hwritten : a.Written s modelId vectors :=
    ⟨hlook, hdoc, hmodel, hselect, hpending, hvectors, hlen, hlands⟩
  exact Store.Changed.updateDocument ⟨rfl, Or.inl ⟨modelId, vectors, hwritten, rfl⟩⟩ fun _ => rfl

/-- The `try` of an attempt. -/
theorem wp_embed_written (hlook : a.lookup = none) (hd : s.document = some d) :
    wp (embed a) (fun _ t => s.Changed (a.RowsAfter s) t.committed)
      (fun _ t => s.Changed (a.RowsAfter s) t.committed) ⟨s, s⟩ := by
  have hsame : ∀ {s'}, ¬ a.Writes s → s' = s → s.Changed (a.RowsAfter s) s' := by
    rintro _ hnot rfl
    exact changed_of_not_written fun _ _ h => hnot h.writes
  refine wp_mono (wp_embed a) ?_ ?_
  · rintro n t (⟨-, hnot, hs⟩ | ⟨-, h⟩)
    · exact hsame hnot hs
    · exact h.changed hlook hd
  · rintro e t (⟨hnot, hs⟩ | ⟨-, h⟩)
    · exact hsame hnot hs
    · exact h.changed hlook hd

/-- An attempt, on a document that is there. -/
theorem wp_embedDocument_written (a : EmbedAttempt V) (hd : s.document = some d) :
    wp (embedDocument a) (fun _ t => s.Changed (a.RowsAfter s) t.committed)
      (fun _ t => s.Changed (a.RowsAfter s) t.committed) ⟨s, s⟩ := by
  simp only [embedDocument, wp_bind, wp_getDocument, hd, wp_handling]
  constructor
  · intro hlook
    refine wp_mono (wp_embed_written hlook hd) (fun _ _ => id) ?_
    intro e t ht
    unfold embedHandler
    split
    · simp only [wp_bind]
      obtain ⟨d', hd', -⟩ := Option.map_eq_some_iff.mp (ht.1.trans (congrArg _ hd))
      refine wp_mono (wp_recordFailure_of_kept (P := s.Changed (a.RowsAfter s)) hd' ht ?_)
        (fun _ _ => id) fun _ _ => id
      exact ht.updateDocument fun _ => rfl
    · exact ht
  · intro e hlook
    refine changed_of_not_written ?_
    rintro modelId vectors ⟨hlook', -⟩
    cases hlook.symm.trans hlook'

/-- **An attempt at embedding keeps the document its id, and leaves these rows.** -/
theorem changed_embedDocument (a : EmbedAttempt V) (hd : s.document = some d) :
    s.Changed (a.RowsAfter s) (perform (embedDocument a) s).2 :=
  committed_of_wp (wp_embedDocument_written a hd)

/-- The rows after an attempt at embedding. -/
theorem rows_embedDocument (a : EmbedAttempt V) (s : Store V) :
    a.RowsAfter s (perform (embedDocument a) s).2.chunks := by
  cases hd : s.document with
  | some d => exact (changed_embedDocument a hd).2
  | none =>
      refine Or.inr ⟨fun modelId vectors h => h.2.1 hd, ?_⟩
      exact committed_of_wp (P := fun s' => s'.chunks = s.chunks)
        (wp_mono (wp_embedDocument_of_none a hd) (fun _ _ => False.elim)
          fun _ t h => congrArg Store.chunks h)

end Embedding

end Ingest
end EvidenceLab
