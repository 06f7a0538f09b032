/-
# What an attempt leaves behind

The status and the error code that an upload, an ingestion attempt or an embedding
attempt leaves a document with, for every answer its calls can give.  An ingestion
commits before and between its stages, so what it leaves depends on how far it got and
on whether its failure handler did its work (`wp_runIngestion`); an embedding attempt
clears the error code and leaves the status (`wp_embedDocument`).
-/

import EvidenceLab.Ingest.Pipeline

namespace EvidenceLab
namespace Ingest

open Text Data EvidenceLab.Core Runs Session

variable {V : Type}

/-! ### What a document can look like -/

/-- Ingested, with no error. -/
def Document.Completed (d : Document) : Prop := d.ingestionStatus = .completed ∧ d.errorCode = none

/-- Failed, with the code of the error. -/
def Document.Failed (d : Document) : Prop := d.ingestionStatus = .failed ∧ d.errorCode ≠ none

/-- Uploaded, with no error. -/
def Document.Waiting (d : Document) : Prop := d.ingestionStatus = .pending ∧ d.errorCode = none

/-- Between two stages of an ingestion. -/
def Document.Midway (d : Document) : Prop :=
  d.ingestionStatus = .parsing ∨ d.ingestionStatus = .chunking

/-- The document `d` with its error cleared. -/
def Document.ClearedFrom (d d' : Document) : Prop :=
  d'.ingestionStatus = d.ingestionStatus ∧ d'.errorCode = none

/-- The store has a document, and it is like this. -/
def Store.Has (p : Document → Prop) (s : Store V) : Prop := ∃ d, s.document = some d ∧ p d

theorem completed_complete (pageCount : Option ℕ) (chunkCount : ℕ) (d : Document) :
    (d.complete pageCount chunkCount).Completed := ⟨rfl, rfl⟩

theorem failed_fail (code : ErrorCode) (message : String) (d : Document) :
    (d.fail code message).Failed := ⟨rfl, Option.some_ne_none _⟩

/-! ### How far an attempt gets -/

namespace IngestAttempt

variable (a : IngestAttempt) (document : Document)

/-- What happens between the first commit and the last. -/
def stages : Except Exc Unit := do
  let payload ← a.payload
  let _ ← parseAs a.pypdf document.mimeType payload document.filename
  reply a.chunkingCommit.raised
  let _ ← RecursiveCharacterChunker.init a.chunkSizeChars a.chunkOverlapChars none
  reply a.delete

/-- What happens in the `try`. -/
def outcome : Except Exc Unit := do
  reply a.startCommit.raised
  a.stages document
  reply a.finalCommit.raised

/-- The attempt gets to its last commit, and that is carried out. -/
def Completes : Prop :=
  a.startCommit.raised = none ∧ a.stages document = .ok () ∧ a.finalCommit.Lands

/-- The attempt is abandoned: it begins and its first commit is carried out, but
neither its last one nor the one of the failure handler is. -/
def Abandoned : Prop :=
  a.lookup = none ∧ a.startCommit.Lands ∧ ¬ a.Completes document ∧
    ∀ e, a.outcome document = .error e → ¬ (e.isException ∧ a.failure.Recorded)

end IngestAttempt

namespace EmbedAttempt

variable (a : EmbedAttempt V) (s : Store V)

/-- What happens before the commit: how many chunks are to be written. -/
def stages : Except Exc ℕ := do
  let modelId ← a.pipeline
  reply a.select
  let pending := pendingChunks modelId s.chunks
  if pending.isEmpty then return 0
  else
    let vectors ← a.embedTexts (pending.map (·.text))
    if vectors.length ≠ pending.length then throw (.domain mismatchedEmbeddings)
    else return pending.length

/-- The attempt has chunks to write, and its commit is carried out. -/
def Writes : Prop := a.lookup = none ∧ (∃ n, 0 < n ∧ a.stages s = .ok n) ∧ a.finalCommit.Lands

/-- The attempt writes, and its failure handler does not write after it. -/
def Clears : Prop :=
  a.Writes s ∧ ∀ e, a.finalCommit.raised = some e → e.domain? ≠ none → ¬ a.failure.Recorded

end EmbedAttempt

/-! ### What the programs leave behind -/

section Programs

variable {s : Store V} {d : Document} {t : Txn (Store V)}

theorem wp_getDocument {Q : Option Document → Txn (Store V) → Prop} {R : Exc → Txn (Store V) → Prop}
    {answer : Option Exc} : wp (getDocument answer) Q R t ↔
      (answer = none → Q t.working.document t) ∧ ∀ e, answer = some e → R e t := by
  simp only [getDocument, wp_bind, wp_await, wp_current, wp_pure]

/-- A failure handler whose commit is carried out leaves the document failed; any other
raises, and leaves what was there. -/
theorem wp_recordFailure (replies : AmendReplies Exc) (code : ErrorCode) (message : String)
    (hd : t.committed.document = some d) :
    wp (recordFailure replies code message)
      (fun _ t' => replies.Recorded ∧ t'.working = t'.committed ∧ t'.committed.Has Document.Failed)
      (fun _ t' => (replies.Recorded ∧ t'.committed.Has Document.Failed) ∨
        (¬ replies.Recorded ∧ t'.committed = t.committed)) t := by
  have hfailed : (t.committed.updateDocument (Document.fail code message)).Has Document.Failed :=
    ⟨d.fail code message, by rw [Store.document_updateDocument, hd]; rfl,
      failed_fail code message d⟩
  refine wp_mono (wp_amend hd) ?_ ?_
  · rintro _ _ ⟨hrec, rfl⟩
    exact ⟨hrec, rfl, hfailed⟩
  · rintro _ t' (⟨hrec, heq⟩ | hsame)
    · exact Or.inl ⟨hrec, heq ▸ hfailed⟩
    · exact Or.inr hsame

/-- What the `try` of an ingestion that raises leaves of the store `s`. -/
def IngestAttempt.Left (a : IngestAttempt) (s : Store V) (d : Document) (s' : Store V) : Prop :=
  (¬ a.startCommit.Lands ∧ s' = s) ∨
  (a.startCommit.Lands ∧ ¬ a.Completes d ∧ s'.Has Document.Midway) ∨
  (a.Completes d ∧ s'.Has Document.Completed)

/-- A stage that raises is what the attempt ends with. -/
theorem IngestAttempt.outcome_of_stages {a : IngestAttempt} {e : Exc}
    (hstart : a.startCommit.raised = none) (h : a.stages d = .error e) :
    a.outcome d = .error e := by
  simp only [outcome, hstart, reply, h]
  rfl

/-- The store `s` with this status of the document. -/
def Store.setStatus (status : IngestionStatus) (s : Store V) : Store V :=
  s.updateDocument fun d => { d with ingestionStatus := status }

theorem Store.setStatus_setStatus (status status' : IngestionStatus) (s : Store V) :
    (s.setStatus status).setStatus status' = s.setStatus status' := by
  simp only [setStatus, updateDocument, Option.map_map]
  rfl

theorem Store.midway_setStatus (hd : s.document = some d) {status : IngestionStatus}
    (h : status = .parsing ∨ status = .chunking) : (s.setStatus status).Has Document.Midway :=
  ⟨{ d with ingestionStatus := status }, by rw [setStatus, document_updateDocument, hd]; rfl, h⟩

/-- What an ingestion that does not get to its last commit leaves of the store `s`. -/
def IngestAttempt.Stopped (a : IngestAttempt) (s s' : Store V) : Prop :=
  (¬ a.startCommit.Lands ∧ s' = s) ∨
  (a.startCommit.Lands ∧ ∃ status : IngestionStatus, (status = .parsing ∨ status = .chunking) ∧
    s' = s.setStatus status)

/-- What the last commit of an ingestion writes. -/
def IngestAttempt.Finished (a : IngestAttempt) (d : Document) (s' : Store V) : Prop :=
  ∃ payload parsed chunker, a.payload = .ok payload ∧
    parseAs a.pypdf d.mimeType payload d.filename = .ok parsed ∧
    RecursiveCharacterChunker.init a.chunkSizeChars a.chunkOverlapChars none = .ok chunker ∧
    s' = { document := some ((Document.complete parsed.pageCount (chunker.chunk parsed).length)
             { d with ingestionStatus := .chunking })
           chunks := chunkRows (a.chunkIdFor d.id) (chunker.chunk parsed) }

/-- A stage that raises leaves the document as the commit before it made it. -/
theorem IngestAttempt.stopped_of_stages {a : IngestAttempt} {s : Store V} {e : Exc}
    {status : IngestionStatus} (hstart : a.startCommit.raised = none)
    (hlands : a.startCommit.Lands) (hstatus : status = .parsing ∨ status = .chunking)
    (h : a.stages d = .error e) : a.outcome d = .error e ∧
      ((¬ a.Completes d ∧ a.Stopped s (s.setStatus status)) ∨
        (a.Completes d ∧ a.Finished d (s.setStatus status))) := by
  refine ⟨outcome_of_stages hstart h, Or.inl ⟨?_, Or.inr ⟨hlands, status, hstatus, rfl⟩⟩⟩
  rintro ⟨-, hstages, -⟩
  cases h.symm.trans hstages

/-- A first commit that raises leaves the document as it was, or in the status it writes. -/
theorem IngestAttempt.stopped_of_startCommit {a : IngestAttempt} {s : Store V} {e : Exc}
    (h : a.startCommit.raised = some e) : a.outcome d = .error e ∧ ¬ a.Completes d ∧
      a.Stopped s (if a.startCommit.Lands then s.setStatus .parsing else s) := by
  refine ⟨by simp [outcome, h, reply, bind, Except.bind], ?_, ?_⟩
  · rintro ⟨h', -⟩
    cases h.symm.trans h'
  · by_cases hlands : a.startCommit.Lands
    · rw [if_pos hlands]
      exact Or.inr ⟨hlands, _, Or.inl rfl, rfl⟩
    · rw [if_neg hlands]
      exact Or.inl ⟨hlands, rfl⟩

/-- A last commit that raises leaves what it writes, or the document in the status before. -/
theorem IngestAttempt.ended_of_finalCommit {a : IngestAttempt} {s s' : Store V} {e : Exc}
    (hstart : a.startCommit.raised = none) (hlands : a.startCommit.Lands)
    (hstages : a.stages d = .ok ()) (hfinished : a.Finished d s')
    (h : a.finalCommit.raised = some e) : a.outcome d = .error e ∧
      ((¬ a.Completes d ∧
          a.Stopped s (if a.finalCommit.Lands then s' else s.setStatus .chunking)) ∨
        (a.Completes d ∧
          a.Finished d (if a.finalCommit.Lands then s' else s.setStatus .chunking))) := by
  refine ⟨by simp [outcome, hstart, hstages, h, reply, bind, Except.bind], ?_⟩
  by_cases hlands' : a.finalCommit.Lands
  · rw [if_pos hlands']
    exact Or.inr ⟨⟨hstart, hstages, hlands'⟩, hfinished⟩
  · rw [if_neg hlands']
    exact Or.inl ⟨fun h => hlands' h.2.2, Or.inr ⟨hlands, _, Or.inr rfl, rfl⟩⟩

/-- What the last commit writes, over the document between two stages. -/
theorem IngestAttempt.finished {a : IngestAttempt} (hd : s.document = some d) {payload : List UInt8}
    {parsed : ParsedDocument} {chunker : RecursiveCharacterChunker}
    (hpayload : a.payload = .ok payload)
    (hparsed : parseAs a.pypdf d.mimeType payload d.filename = .ok parsed)
    (hchunker : RecursiveCharacterChunker.init a.chunkSizeChars a.chunkOverlapChars none =
      .ok chunker) :
    a.Finished d (Store.updateDocument
      (Document.complete parsed.pageCount (chunker.chunk parsed).length)
      { s.setStatus .chunking with
        chunks := ([] : List (ChunkRow V)) ++
          chunkRows (a.chunkIdFor d.id) (chunker.chunk parsed) }) := by
  refine ⟨payload, parsed, chunker, hpayload, hparsed, hchunker, ?_⟩
  simp only [Store.setStatus, Store.updateDocument, hd, Option.map_some, List.nil_append]

/-- The `try` of an ingestion: it stops at a status, or its last commit is carried out. -/
theorem wp_ingest_ends (a : IngestAttempt) (hd : s.document = some d) :
    wp (ingest a d)
      (fun _ t => a.Completes d ∧ t.working = t.committed ∧ a.Finished d t.committed)
      (fun e t => a.outcome d = .error e ∧
        ((¬ a.Completes d ∧ a.Stopped s t.committed) ∨
          (a.Completes d ∧ a.Finished d t.committed))) ⟨s, s⟩ := by
  simp only [ingest, wp_bind, setDocument, wp_change, wp_commit, wp_ask, wp_await,
    apply_ite Txn.committed]
  have hchunking : ((s.updateDocument fun d =>
      { d with ingestionStatus := .parsing }).updateDocument fun d =>
      { d with ingestionStatus := .chunking }) = s.setStatus .chunking :=
    s.setStatus_setStatus .parsing .chunking
  constructor
  · intro hstart hlands
    have hstops : ∀ {e : Exc} (status : IngestionStatus), status = .parsing ∨ status = .chunking →
        a.stages d = .error e → a.outcome d = .error e ∧
          ((¬ a.Completes d ∧ a.Stopped s (s.setStatus status)) ∨
            (a.Completes d ∧ a.Finished d (s.setStatus status))) :=
      fun _ hstatus => IngestAttempt.stopped_of_stages hstart hlands hstatus
    refine ⟨?_, fun e h => hstops .parsing (Or.inl rfl) (by
      simp [IngestAttempt.stages, h, bind, Except.bind])⟩
    intro payload hpayload
    refine ⟨?_, fun e h => hstops .parsing (Or.inl rfl) (by
      simp [IngestAttempt.stages, hpayload, h, bind, Except.bind])⟩
    intro parsed hparsed
    simp only [hchunking]
    constructor
    · intro hchunk _
      refine ⟨?_, fun e h => hstops .chunking (Or.inr rfl) (by
        simp [IngestAttempt.stages, hpayload, hparsed, hchunk, reply, h, bind, Except.bind])⟩
      intro chunker hchunker
      refine ⟨?_, fun e h => hstops .chunking (Or.inr rfl) (by
        simp [IngestAttempt.stages, hpayload, hparsed, hchunk, hchunker, reply, h, bind,
          Except.bind])⟩
      intro hdelete
      have hstages : a.stages d = .ok () := by
        simp [IngestAttempt.stages, hpayload, hparsed, hchunk, hchunker, hdelete, reply, bind,
          Except.bind]
      have hfinished := IngestAttempt.finished hd hpayload hparsed hchunker
      constructor
      · intro _ hlands'
        exact ⟨⟨hstart, hstages, hlands'⟩, trivial, hfinished⟩
      · intro e hfinal
        exact IngestAttempt.ended_of_finalCommit hstart hlands hstages hfinished hfinal
    · intro e h
      have hraises : a.stages d = .error e := by
        simp [IngestAttempt.stages, hpayload, hparsed, h, reply, bind, Except.bind]
      split
      · exact hstops .chunking (Or.inr rfl) hraises
      · exact hstops .parsing (Or.inl rfl) hraises
  · intro e h
    obtain ⟨houtcome, hstopped⟩ := IngestAttempt.stopped_of_startCommit h
    exact ⟨houtcome, Or.inl hstopped⟩

theorem IngestAttempt.Finished.completed {a : IngestAttempt} {s' : Store V}
    (h : a.Finished d s') : s'.Has Document.Completed := by
  obtain ⟨_, _, _, -, -, -, rfl⟩ := h
  exact ⟨_, rfl, completed_complete ..⟩

/-- The `try` of an ingestion, and the statuses. -/
theorem wp_ingest (a : IngestAttempt) (hd : s.document = some d) :
    wp (ingest a d)
      (fun _ t => a.Completes d ∧ t.working = t.committed ∧ t.committed.Has Document.Completed)
      (fun e t => a.outcome d = .error e ∧ a.Left s d t.committed) ⟨s, s⟩ := by
  refine wp_mono (wp_ingest_ends a hd) ?_ ?_
  · rintro _ t ⟨hc, hwork, hfinished⟩
    exact ⟨hc, hwork, hfinished.completed⟩
  · rintro e t ⟨he, ⟨hnc, hstopped⟩ | ⟨hc, hfinished⟩⟩
    · rcases hstopped with hsame | ⟨hlands, status, hstatus, hs'⟩
      · exact ⟨he, Or.inl hsame⟩
      · exact ⟨he, Or.inr (Or.inl ⟨hlands, hnc, hs' ▸ Store.midway_setStatus hd hstatus⟩)⟩
    · exact ⟨he, Or.inr (Or.inr ⟨hc, hfinished.completed⟩)⟩

/-- What an ingestion that raises leaves of the store `s`. -/
def IngestAttempt.Raised (a : IngestAttempt) (s : Store V) (d : Document) (s' : Store V) : Prop :=
  (¬ a.Abandoned d ∧ (s' = s ∨ s'.Has Document.Failed ∨ s'.Has Document.Completed)) ∨
  (a.Abandoned d ∧ s'.Has Document.Midway)

/-- What is left and not recorded stays as it is left. -/
theorem IngestAttempt.Left.raised {a : IngestAttempt} {s' : Store V} {e : Exc}
    (h : a.Left s d s') (hlook : a.lookup = none) (he : a.outcome d = .error e)
    (hnot : ¬ (e.isException ∧ a.failure.Recorded)) : a.Raised s d s' := by
  rcases h with ⟨hlands, rfl⟩ | ⟨hlands, hnc, hmid⟩ | ⟨hc, hcompleted⟩
  · exact Or.inl ⟨fun h => hlands h.2.1, Or.inl rfl⟩
  · refine Or.inr ⟨⟨hlook, hlands, hnc, ?_⟩, hmid⟩
    intro e' he'
    rwa [← Except.error.inj (he.symm.trans he')]
  · exact Or.inl ⟨fun h => h.2.2.1 hc, Or.inr (Or.inr hcompleted)⟩

/-- The handlers of an ingestion. -/
theorem wp_ingestHandler {a : IngestAttempt} {e : Exc} (hlook : a.lookup = none)
    (hd : s.document = some d) (he : a.outcome d = .error e) (hleft : a.Left s d t.committed) :
    wp (ingestHandler a e)
      (fun _ t' => ¬ a.Abandoned d ∧ t'.working = t'.committed ∧ t'.committed.Has Document.Failed)
      (fun _ t' => a.Raised s d t'.committed) t := by
  obtain ⟨d', hd'⟩ : ∃ d', t.committed.document = some d' := by
    rcases hleft with ⟨-, h⟩ | ⟨-, -, d', h, -⟩ | ⟨-, d', h, -⟩
    · exact ⟨d, h ▸ hd⟩
    · exact ⟨d', h⟩
    · exact ⟨d', h⟩
  -- An exception that is recorded is not abandoned, whatever is done with it then.
  have hrecorded : e.isException = true → a.failure.Recorded → ¬ a.Abandoned d :=
    fun hexc hrec h => h.2.2.2 e he ⟨hexc, hrec⟩
  have hraise : ∀ {t' : Txn (Store V)}, e.isException = true →
      (a.failure.Recorded ∧ t'.committed.Has Document.Failed) ∨
        (¬ a.failure.Recorded ∧ t'.committed = t.committed) → a.Raised s d t'.committed := by
    rintro t' hexc (⟨hrec, hfailed⟩ | ⟨hnrec, heq⟩)
    · exact Or.inl ⟨hrecorded hexc hrec, Or.inr (Or.inl hfailed)⟩
    · rw [heq]
      exact hleft.raised hlook he fun h => hnrec h.2
  unfold ingestHandler
  cases hdom : e.domain? with
  | some x =>
      have hexc := Exc.isException_of_domain? hdom
      refine wp_mono (wp_recordFailure _ _ _ hd') ?_ ?_
      · rintro _ t' ⟨hrec, hwork, hfailed⟩
        exact ⟨hrecorded hexc hrec, hwork, hfailed⟩
      · intro _ t' h
        exact hraise hexc h
  | none =>
      by_cases hexc : e.isException = true
      · simp only [if_pos hexc, wp_bind]
        refine wp_mono (wp_recordFailure _ _ _ hd') ?_ ?_
        · rintro _ t' ⟨hrec, -, hfailed⟩
          exact hraise hexc (Or.inl ⟨hrec, hfailed⟩)
        · intro _ t' h
          exact hraise hexc h
      · simp only [if_neg hexc, wp_raise]
        exact hleft.raised hlook he fun h => hexc h.1

/-- What the document read back is: the one that was committed last. -/
theorem wp_readBack {a : IngestAttempt} (hna : ¬ a.Abandoned d) (hwork : t.working = t.committed)
    {d' : Document} (hd' : t.committed.document = some d') (hcf : d'.Completed ∨ d'.Failed) :
    wp (readBack a)
      (fun d' t => ¬ a.Abandoned d ∧ t.committed.document = some d' ∧ (d'.Completed ∨ d'.Failed))
      (fun _ t => a.Raised s d t.committed) t := by
  simp only [readBack, wp_bind, wp_getDocument, hwork, hd', wp_pure]
  refine ⟨fun _ => ⟨hna, trivial, hcf⟩, fun _ _ => Or.inl ⟨hna, Or.inr ?_⟩⟩
  rcases hcf with h | h
  · exact Or.inr ⟨d', hd', h⟩
  · exact Or.inl ⟨d', hd', h⟩

/-- **An ingestion attempt** returns a document that it completed or failed, and is
then not abandoned; if it raises, the store is as it was, or the document is failed or
completed, unless the attempt is abandoned: then it is left between two stages. -/
theorem wp_runIngestion (a : IngestAttempt) (hd : s.document = some d) :
    wp (runIngestion a)
      (fun d' t => ¬ a.Abandoned d ∧ t.committed.document = some d' ∧ (d'.Completed ∨ d'.Failed))
      (fun _ t => a.Raised s d t.committed) ⟨s, s⟩ := by
  simp only [runIngestion, wp_bind, wp_getDocument, hd]
  constructor
  · intro hlook
    simp only [wp_handling]
    refine wp_mono (wp_ingest a hd) ?_ ?_
    · rintro _ t ⟨hc, hwork, d', hd', h⟩
      exact wp_readBack (fun h => h.2.2.1 hc) hwork hd' (Or.inl h)
    · rintro e t ⟨he, hleft⟩
      refine wp_mono (wp_ingestHandler hlook hd he hleft) ?_ fun _ _ => id
      rintro _ t' ⟨hna, hwork, d', hd', h⟩
      exact wp_readBack hna hwork hd' (Or.inr h)
  · intro e h
    refine Or.inl ⟨?_, Or.inl rfl⟩
    rintro ⟨h', -⟩
    cases h.symm.trans h'

/-- What an embedding attempt leaves of the store `s`. -/
def EmbedAttempt.Ended (a : EmbedAttempt V) (s : Store V) (d : Document) (s' : Store V) : Prop :=
  (¬ a.Clears s ∧ (s' = s ∨ s'.Has Document.Failed)) ∨ (a.Clears s ∧ s'.Has d.ClearedFrom)

/-- The attempt has these vectors to write. -/
def EmbedAttempt.Embeds (a : EmbedAttempt V) (s : Store V) (modelId : String) (vectors : List V) :
    Prop :=
  a.pipeline = .ok modelId ∧ a.select = none ∧ pendingChunks modelId s.chunks ≠ [] ∧
    a.embedTexts ((pendingChunks modelId s.chunks).map (·.text)) = .ok vectors ∧
    vectors.length = (pendingChunks modelId s.chunks).length

theorem EmbedAttempt.Embeds.stages {a : EmbedAttempt V} {modelId : String} {vectors : List V}
    (h : a.Embeds s modelId vectors) : ∃ n, 0 < n ∧ a.stages s = .ok n := by
  obtain ⟨hmodel, hselect, hpending, hvectors, hlen⟩ := h
  refine ⟨_, List.length_pos_iff.mpr hpending, ?_⟩
  simp only [EmbedAttempt.stages, hmodel, hselect, reply, bind, Except.bind, hvectors,
    if_neg (List.isEmpty_iff.not.mpr hpending), if_neg (not_not.mpr hlen)]
  rfl

/-- What an embedding attempt that writes commits over the store `s`. -/
def EmbedAttempt.WritesOver (a : EmbedAttempt V) (s s' : Store V) : Prop :=
  ∃ modelId vectors, a.Embeds s modelId vectors ∧ a.finalCommit.Lands ∧
    s' = (s.setEmbeddings modelId ((pendingChunks modelId s.chunks).zip vectors)).updateDocument
      fun d => { d with errorCode := none, errorMessage := none }

/-- The `try` of an embedding attempt. -/
theorem wp_embed (a : EmbedAttempt V) :
    wp (embed a)
      (fun n t => (n = 0 ∧ ¬ a.Writes s ∧ t.committed = s) ∨
        (a.finalCommit.raised = none ∧ a.WritesOver s t.committed))
      (fun e t => (¬ a.Writes s ∧ t.committed = s) ∨
        (a.finalCommit.raised = some e ∧ a.WritesOver s t.committed)) ⟨s, s⟩ := by
  -- An attempt whose stages raise does not write.
  have hraises : ∀ e, a.stages s = .error e → ¬ a.Writes s := by
    rintro e h ⟨-, ⟨n, -, h'⟩, -⟩
    cases h.symm.trans h'
  simp only [embed, wp_bind, wp_ask, wp_await, wp_current]
  refine ⟨?_, fun e h => Or.inl ⟨hraises e (by
    simp [EmbedAttempt.stages, h, bind, Except.bind]), trivial⟩⟩
  intro modelId hmodel
  refine ⟨?_, fun e h => Or.inl ⟨hraises e (by
    simp [EmbedAttempt.stages, hmodel, h, reply, bind, Except.bind]), trivial⟩⟩
  intro hselect
  by_cases hpending : (pendingChunks modelId s.chunks).isEmpty = true
  · simp only [if_pos hpending, wp_pure]
    refine Or.inl ⟨trivial, ?_, trivial⟩
    rintro ⟨-, ⟨n, hn, h⟩, -⟩
    have hzero : a.stages s = .ok 0 := by
      simp only [EmbedAttempt.stages, hmodel, hselect, reply, bind, Except.bind, if_pos hpending]
      rfl
    have := Except.ok.inj (hzero.symm.trans h)
    omega
  · simp only [if_neg hpending, wp_bind, wp_ask]
    refine ⟨?_, fun e h => Or.inl ⟨hraises e (by
      simp only [EmbedAttempt.stages, hmodel, hselect, reply, bind, Except.bind, if_neg hpending,
        h]), trivial⟩⟩
    intro vectors hvectors
    by_cases hlen : vectors.length ≠ (pendingChunks modelId s.chunks).length
    · simp only [if_pos hlen, wp_raise]
      refine Or.inl ⟨hraises (.domain mismatchedEmbeddings) ?_, trivial⟩
      simp only [EmbedAttempt.stages, hmodel, hselect, reply, bind, Except.bind, if_neg hpending,
        hvectors, if_pos hlen]
      rfl
    · have hembeds : a.Embeds s modelId vectors :=
        ⟨hmodel, hselect, List.isEmpty_iff.not.mp hpending, hvectors, not_not.mp hlen⟩
      simp only [if_neg hlen, setDocument, wp_bind, wp_change, wp_commit, wp_pure]
      constructor
      · intro hdone hlands
        exact Or.inr ⟨hdone, modelId, vectors, hembeds, hlands, rfl⟩
      · intro e hraised
        by_cases hlands : a.finalCommit.Lands
        · rw [if_pos hlands]
          exact Or.inr ⟨hraised, modelId, vectors, hembeds, hlands, rfl⟩
        · rw [if_neg hlands]
          exact Or.inl ⟨fun h => hlands h.2.2, rfl⟩

/-- An attempt that writes clears the error, and leaves the status. -/
theorem EmbedAttempt.WritesOver.cleared {a : EmbedAttempt V} {s' : Store V}
    (h : a.WritesOver s s') (hlook : a.lookup = none) (hd : s.document = some d) :
    a.Writes s ∧ s'.Has d.ClearedFrom := by
  obtain ⟨modelId, vectors, hembeds, hlands, rfl⟩ := h
  refine ⟨⟨hlook, hembeds.stages, hlands⟩, { d with errorCode := none, errorMessage := none }, ?_,
    rfl, rfl⟩
  rw [Store.document_updateDocument, Store.setEmbeddings, hd]
  rfl

/-- What the `try` of an embedding attempt that raises leaves of the store `s`. -/
def EmbedAttempt.Left (a : EmbedAttempt V) (s : Store V) (d : Document) (e : Exc) (s' : Store V) :
    Prop :=
  (¬ a.Writes s ∧ s' = s) ∨ (a.Writes s ∧ a.finalCommit.raised = some e ∧ s'.Has d.ClearedFrom)

/-- What is left and not recorded stays as it is left. -/
theorem EmbedAttempt.Left.ended {a : EmbedAttempt V} {s' : Store V} {e : Exc}
    (h : a.Left s d e s') (hnot : e.domain? ≠ none → ¬ a.failure.Recorded) : a.Ended s d s' := by
  rcases h with ⟨hnw, hs⟩ | ⟨hw, hraised, hcleared⟩
  · exact Or.inl ⟨fun h => hnw h.1, Or.inl hs⟩
  · refine Or.inr ⟨⟨hw, ?_⟩, hcleared⟩
    intro e' he'
    rwa [← Option.some.inj (hraised.symm.trans he')]

/-- An attempt whose failure is recorded does not clear the error. -/
theorem EmbedAttempt.Left.not_clears {a : EmbedAttempt V} {s' : Store V} {e : Exc}
    (h : a.Left s d e s') (hdom : e.domain? ≠ none) (hrec : a.failure.Recorded) :
    ¬ a.Clears s := by
  rintro ⟨hw, hnot⟩
  rcases h with ⟨hnw, -⟩ | ⟨-, hraised, -⟩
  · exact hnw hw
  · exact hnot e hraised hdom hrec

/-- The handler of an embedding attempt. -/
theorem wp_embedHandler {a : EmbedAttempt V} {e : Exc} (hd : s.document = some d)
    (hleft : a.Left s d e t.committed) :
    wp (embedHandler a e) (fun n t' => (n ≠ 0 → a.Clears s) ∧ a.Ended s d t'.committed)
      (fun _ t' => a.Ended s d t'.committed) t := by
  obtain ⟨d', hd'⟩ : ∃ d', t.committed.document = some d' := by
    rcases hleft with ⟨-, h⟩ | ⟨-, -, d', h, -⟩
    · exact ⟨d, h ▸ hd⟩
    · exact ⟨d', h⟩
  unfold embedHandler
  cases hdom : e.domain? with
  | none => exact hleft.ended fun h => absurd hdom h
  | some x =>
      have hrecorded : a.failure.Recorded → ¬ a.Clears s :=
        hleft.not_clears (by rw [hdom]; exact Option.some_ne_none x)
      simp only [wp_bind]
      refine wp_mono (wp_recordFailure _ _ _ hd') ?_ ?_
      · rintro _ t' ⟨hrec, -, hfailed⟩
        exact Or.inl ⟨hrecorded hrec, Or.inr hfailed⟩
      · rintro _ t' (⟨hrec, hfailed⟩ | ⟨hnrec, heq⟩)
        · exact Or.inl ⟨hrecorded hrec, Or.inr hfailed⟩
        · rw [heq]
          exact hleft.ended fun _ => hnrec

/-- **An embedding attempt** leaves the store as it was, or the document failed, or,
when it writes, the document with its error cleared and its status as it was.  An
attempt that returns a number of chunks other than `0` wrote them. -/
theorem wp_embedDocument (a : EmbedAttempt V) (hd : s.document = some d) :
    wp (embedDocument a) (fun n t => (n ≠ 0 → a.Clears s) ∧ a.Ended s d t.committed)
      (fun _ t => a.Ended s d t.committed) ⟨s, s⟩ := by
  simp only [embedDocument, wp_bind, wp_getDocument, hd]
  constructor
  · intro hlook
    simp only [wp_handling]
    refine wp_mono (wp_embed a) ?_ ?_
    · rintro n t (⟨hn, hnw, hs⟩ | ⟨hdone, hover⟩)
      · exact ⟨fun h => absurd hn h, Or.inl ⟨fun h => hnw h.1, Or.inl hs⟩⟩
      · obtain ⟨hw, hcleared⟩ := hover.cleared hlook hd
        have hclears : a.Clears s := ⟨hw, fun e he => by cases hdone.symm.trans he⟩
        exact ⟨fun _ => hclears, Or.inr ⟨hclears, hcleared⟩⟩
    · rintro e t (⟨hnw, hs⟩ | ⟨hraised, hover⟩)
      · exact wp_embedHandler hd (Or.inl ⟨hnw, hs⟩)
      · obtain ⟨hw, hcleared⟩ := hover.cleared hlook hd
        exact wp_embedHandler hd (Or.inr ⟨hw, hraised, hcleared⟩)
  · intro e h
    refine Or.inl ⟨?_, Or.inl rfl⟩
    rintro ⟨⟨h', -⟩, -⟩
    cases h.symm.trans h'

/-- What an upload leaves of the store `s`: that, or with a pending document if there
was none. -/
def Uploaded (s s' : Store V) : Prop :=
  s' = s ∨ ∃ document : Document, document.Waiting ∧
    s' = { s with document := s.document <|> some document }

/-- An upload. -/
theorem wp_createFromUpload (a : UploadAttempt) (s : Store V) :
    wp (createFromUpload a) (fun _ t => Uploaded s t.committed) (fun _ t => Uploaded s t.committed)
      ⟨s, s⟩ := by
  have hsame : Uploaded s s := Or.inl rfl
  have hregister : ∀ payload contentHash, wp (registerDocument a payload contentHash)
      (fun _ t => Uploaded s t.committed) (fun _ t => Uploaded s t.committed) ⟨s, s⟩ := by
    intro payload contentHash
    simp only [registerDocument, wp_bind, wp_await, wp_change, wp_commit, wp_pure]
    refine ⟨fun _ => ⟨fun _ _ => Or.inr ⟨_, ⟨rfl, rfl⟩, rfl⟩, ?_⟩, fun _ _ => hsame⟩
    intro e _
    split
    · exact Or.inr ⟨_, ⟨rfl, rfl⟩, rfl⟩
    · exact hsame
  unfold createFromUpload
  by_cases hmime : a.mimeType ∉ a.allowedMimeTypes
  · rw [if_pos hmime]
    exact hsame
  · simp only [if_neg hmime, wp_bind, wp_ask, wp_getDocument]
    refine ⟨fun file _ => ⟨fun _ => ?_, fun _ _ => hsame⟩, fun _ _ => hsame⟩
    cases s.document.filter (·.contentHash = file.2) with
    | some existing => exact hsame
    | none => exact hregister file.1 file.2

/-- An attempt on a document that is not there changes nothing. -/
theorem wp_runIngestion_of_none (a : IngestAttempt) (hd : s.document = none) :
    wp (runIngestion a) (fun _ _ => False) (fun _ t => t.committed = s) ⟨s, s⟩ := by
  simp only [runIngestion, wp_bind, wp_getDocument, hd, wp_raise]
  exact ⟨fun _ => trivial, fun _ _ => trivial⟩

theorem wp_embedDocument_of_none (a : EmbedAttempt V) (hd : s.document = none) :
    wp (embedDocument a) (fun _ _ => False) (fun _ t => t.committed = s) ⟨s, s⟩ := by
  simp only [embedDocument, wp_bind, wp_getDocument, hd, wp_raise]
  exact ⟨fun _ => trivial, fun _ _ => trivial⟩

end Programs

end Ingest
end EvidenceLab
