/-
# The life of a document

Runs of uploads, ingestion attempts and embedding attempts on one document, one after
the other.  Two of their ends break what the status and error columns promise: an
ingestion that is abandoned between two stages, and an embedding attempt that clears
the error of a document that has failed.  `sound_throughout_iff` says that there are
no others.
-/

import EvidenceLab.Ingest.Attempts
import EvidenceLab.Runs.System

namespace EvidenceLab
namespace Ingest

open Text Data EvidenceLab.Core Runs Session

variable {V : Type}

/-! ### Runs -/

/-- A store with whether the latest attempt at ingestion, and the latest one at
embedding, succeeded. -/
structure Life (V : Type) where
  store : Store V := {}
  ingested : Bool := false
  embedded : Bool := false

/-- The operations on a document. -/
inductive Operation (V : Type)
  | upload (a : UploadAttempt)
  | runIngestion (a : IngestAttempt)
  | embedDocument (a : EmbedAttempt V)

/-- An ingestion has succeeded when it returns a completed document, as the worker
judges it. -/
def ingestionSucceeded : Except Exc Document → Bool
  | .ok document => document.ingestionStatus = .completed
  | .error _ => false

/-- An embedding attempt has succeeded when it returns and was not skipped. -/
def embeddingSucceeded : Except Exc ℕ → Bool
  | .ok embedded => embedded ≠ 0
  | .error _ => false

/-- One operation, from no job running to no job running. -/
def Life.step (l : Life V) : Operation V → Option (Life V)
  | .upload a => some { l with store := (perform (createFromUpload a) l.store).2 }
  | .runIngestion a =>
      let r := perform (runIngestion a) l.store
      some { l with store := r.2, ingested := ingestionSucceeded r.1 }
  | .embedDocument a =>
      let r := perform (embedDocument a) l.store
      some { l with store := r.2, embedded := embeddingSucceeded r.1 }

/-- What the columns of a document promise when no job is running. -/
def Life.Sound (l : Life V) : Prop :=
  ∀ d ∈ l.store.document,
    d.ingestionStatus ∈ [.pending, .completed, .failed] ∧
    (d.ingestionStatus = .failed ↔ d.errorCode ≠ none) ∧
    (l.ingested → l.embedded → d.ingestionStatus = .completed)

instance : DecidablePred (Life.Sound (V := V)) :=
  fun l => inferInstanceAs (Decidable (∀ d ∈ l.store.document, _ ∧ _ ∧ (_ → _ → _)))

/-- The operation is not an ingestion that is abandoned, nor an embedding attempt that
clears the error of a document that has failed. -/
def Life.Fine (l : Life V) (op : Operation V) : Prop :=
  ∀ d, l.store.document = some d →
    match op with
    | .upload _ => True
    | .runIngestion a => ¬ a.Abandoned d
    | .embedDocument a => ¬ (a.Clears l.store ∧ d.ingestionStatus = .failed)

/-- The invariant of the runs whose operations are fine. -/
structure Life.Inv (l : Life V) : Prop where
  not_ingested : l.store.document = none → l.ingested = false
  settled : ∀ d, l.store.document = some d → d.Waiting ∨ d.Completed ∨ d.Failed
  completed : ∀ d, l.store.document = some d → l.ingested = true →
    d.Completed ∨ (d.Failed ∧ l.embedded = false)

theorem Life.Inv.sound {l : Life V} (h : l.Inv) : l.Sound := by
  intro d hd
  have hlast : l.ingested → l.embedded → d.ingestionStatus = .completed := by
    intro hi he
    rcases h.completed d hd hi with hc | ⟨-, hne⟩
    · exact hc.1
    · cases he.symm.trans hne
  rcases h.settled d hd with ⟨hs, hc⟩ | ⟨hs, hc⟩ | ⟨hs, hc⟩
  · exact ⟨by simp [hs], by simp [hs, hc], hlast⟩
  · exact ⟨by simp [hs], by simp [hs, hc], hlast⟩
  · exact ⟨by simp [hs], by simp [hs, hc], hlast⟩

/-! ### Steps -/

section Steps

variable {l l' : Life V}

/-- Without a document the operation is fine, and there is nothing to be unsound. -/
theorem Life.inv_of_none (hd : l.store.document = none) (hi : l.ingested = false) : l.Inv where
  not_ingested _ := hi
  settled _ h := by cases hd.symm.trans h
  completed _ h := by cases hd.symm.trans h

/-- With a document the invariant is about that one. -/
theorem Life.inv_of_some {d : Document} (hd : l.store.document = some d)
    (hsettled : d.Waiting ∨ d.Completed ∨ d.Failed)
    (hcompleted : l.ingested = true → d.Completed ∨ (d.Failed ∧ l.embedded = false)) : l.Inv where
  not_ingested h := by cases h.symm.trans hd
  settled _ h := Option.some.inj (hd.symm.trans h) ▸ hsettled
  completed _ h := Option.some.inj (hd.symm.trans h) ▸ hcompleted

theorem Life.fine_of_none {op : Operation V} (hd : l.store.document = none) : l.Fine op :=
  fun _ h => by cases hd.symm.trans h

/-- A document that is between two stages is not sound. -/
theorem Life.not_sound_of_midway (h : l.store.Has Document.Midway) : ¬ l.Sound := by
  intro hs
  obtain ⟨d, hd, hmid⟩ := h
  have := (hs d hd).1
  rcases hmid with h | h <;> simp [h] at this

/-- An upload keeps the invariant. -/
theorem Life.Inv.upload (h : l.Inv) (a : UploadAttempt) (hstep : l.step (.upload a) = some l') :
    l'.Inv := by
  obtain rfl := Option.some.inj hstep
  rcases committed_of_wp (wp_createFromUpload a l.store) with hs | ⟨document, hwaiting, hs⟩
  · rw [hs]
    exact h
  · rw [hs]
    cases hd : l.store.document with
    | some d => exact Life.inv_of_some rfl (h.settled d hd) (h.completed d hd)
    | none =>
        refine Life.inv_of_some rfl (Or.inl hwaiting) fun hi => ?_
        cases (h.not_ingested hd).symm.trans hi

/-- An ingestion attempt keeps the invariant unless it is abandoned, and then the
document is not sound. -/
theorem Life.Inv.runIngestion (h : l.Inv) (a : IngestAttempt)
    (hstep : l.step (.runIngestion a) = some l') :
    (l.Fine (.runIngestion a) → l'.Inv) ∧ (l'.Sound → l.Fine (.runIngestion a)) := by
  obtain rfl := Option.some.inj hstep
  cases hd : l.store.document with
  | none =>
      rcases perform_of_wp (wp_runIngestion_of_none a hd) with ⟨_, _, -, h'⟩ | ⟨_, t, hp, ht⟩
      · exact h'.elim
      · rw [hp, ht]
        exact ⟨fun _ => Life.inv_of_none hd rfl, fun _ => Life.fine_of_none hd⟩
  | some d =>
      have hfine : ¬ a.Abandoned d → l.Fine (.runIngestion a) := by
        intro hna d' hd'
        rwa [← Option.some.inj (hd.symm.trans hd')]
      rcases perform_of_wp (wp_runIngestion a hd) with ⟨d', t, hp, hna, hd', hcf⟩ | ⟨e, t, hp, hr⟩
      · rw [hp]
        refine ⟨fun _ => Life.inv_of_some hd' (Or.inr hcf) ?_, fun _ => hfine hna⟩
        intro hsucc
        have hs : d'.ingestionStatus = .completed := by simpa [ingestionSucceeded] using hsucc
        rcases hcf with hc | ⟨hf, -⟩
        · exact Or.inl hc
        · cases hs.symm.trans hf
      · rw [hp]
        rcases hr with ⟨hna, hleft⟩ | ⟨ha, hmid⟩
        · refine ⟨fun _ => ?_, fun _ => hfine hna⟩
          rcases hleft with hs | ⟨d', hd', hf⟩ | ⟨d', hd', hc⟩
          · exact Life.inv_of_some (hs ▸ hd) (h.settled d hd) fun h => by cases h
          · exact Life.inv_of_some hd' (Or.inr (Or.inr hf)) fun h => by cases h
          · exact Life.inv_of_some hd' (Or.inr (Or.inl hc)) fun h => by cases h
        · exact ⟨fun hf => absurd ha (hf d hd), fun hs => absurd hs (Life.not_sound_of_midway hmid)⟩

/-- An embedding attempt keeps the invariant unless it clears the error of a failed
document, and then the document is not sound. -/
theorem Life.Inv.embedDocument (h : l.Inv) (a : EmbedAttempt V)
    (hstep : l.step (.embedDocument a) = some l') :
    (l.Fine (.embedDocument a) → l'.Inv) ∧ (l'.Sound → l.Fine (.embedDocument a)) := by
  obtain rfl := Option.some.inj hstep
  cases hd : l.store.document with
  | none =>
      rcases perform_of_wp (wp_embedDocument_of_none a hd) with ⟨_, _, -, h'⟩ | ⟨_, t, hp, ht⟩
      · exact h'.elim
      · rw [hp, ht]
        exact ⟨fun _ => Life.inv_of_none hd (h.not_ingested hd), fun _ => Life.fine_of_none hd⟩
  | some d =>
      have hend : ∀ (embedded : Bool) (s : Store V), (embedded = true → a.Clears l.store) →
          a.Ended l.store d s →
          (l.Fine (.embedDocument a) → ({ l with store := s, embedded } : Life V).Inv) ∧
          (({ l with store := s, embedded } : Life V).Sound → l.Fine (.embedDocument a)) := by
        intro embedded s hsucc hended
        rcases hended with ⟨hnc, hs⟩ | ⟨hc, d', hd', hstatus, hcode⟩
        · -- Nothing was written, so this attempt has not succeeded.
          have hemb : embedded = false := Bool.eq_false_iff.mpr fun h => hnc (hsucc h)
          refine ⟨fun _ => ?_, fun _ d' _ h => hnc h.1⟩
          rcases hs with rfl | ⟨d', hd', hf⟩
          · refine Life.inv_of_some hd (h.settled d hd) fun hi => ?_
            rcases h.completed d hd hi with hdc | ⟨hdf, -⟩
            · exact Or.inl hdc
            · exact Or.inr ⟨hdf, hemb⟩
          · exact Life.inv_of_some hd' (Or.inr (Or.inr hf)) fun _ => Or.inr ⟨hf, hemb⟩
        · refine ⟨fun hfine => ?_, fun hsound => ?_⟩
          · have hnf : ¬ d.Failed := fun hf => hfine d hd ⟨hc, hf.1⟩
            refine Life.inv_of_some hd' ?_ fun hi => ?_
            · rcases h.settled d hd with hw | hdc | hf
              · exact Or.inl ⟨hstatus.trans hw.1, hcode⟩
              · exact Or.inr (Or.inl ⟨hstatus.trans hdc.1, hcode⟩)
              · exact absurd hf hnf
            · rcases h.completed d hd hi with hdc | ⟨hf, -⟩
              · exact Or.inl ⟨hstatus.trans hdc.1, hcode⟩
              · exact absurd hf hnf
          · rintro d'' hd'' ⟨-, hfailed⟩
            rw [← Option.some.inj (hd.symm.trans hd'')] at hfailed
            exact (hsound d' hd').2.1.mp (hstatus.trans hfailed) hcode
      rcases perform_of_wp (wp_embedDocument a hd) with
        ⟨n, t, hp, hsucc, hended⟩ | ⟨e, t, hp, hended⟩
      · rw [hp]
        exact hend _ _ (fun hn => hsucc (by simpa [embeddingSucceeded] using hn)) hended
      · rw [hp]
        exact hend _ _ (fun hn => by cases hn) hended

end Steps

/-! ### Every run -/

/-- **The life of a document.**  In a run of uploads, ingestion attempts and embedding
attempts that starts with nothing stored, whatever the calls of every attempt answer,
the document is sound in every state reached iff no ingestion is abandoned and no
embedding attempt clears the error of a failed document. -/
theorem sound_throughout_iff (ops : List (Operation V)) :
    Throughout Life.step Life.Sound {} ops ↔ Every Life.step Life.Fine {} ops := by
  refine throughout_iff_every (I := Life.Inv) (Life.inv_of_none rfl rfl) ?_ ?_
    fun _ => Life.Inv.sound
  · intro l op l' hl hstep hfine
    cases op with
    | upload a => exact hl.upload a hstep
    | runIngestion a => exact (hl.runIngestion a hstep).1 hfine
    | embedDocument a => exact (hl.embedDocument a hstep).1 hfine
  · intro l op l' hl hstep hsound
    cases op with
    | upload a => exact fun _ _ => trivial
    | runIngestion a => exact (hl.runIngestion a hstep).2 hsound
    | embedDocument a => exact (hl.embedDocument a hstep).2 hsound

/-- An upload of the text `a`. -/
def sampleUpload : UploadAttempt where
  mimeType := "text/plain"
  filename := none
  stream := .ok [0x61]
  allowedMimeTypes := ["text/plain"]
  maxUploadBytes := 1024
  documentId := 7
  hexdigest := fun _ => []
  lookup := none
  stored := none
  finalCommit := .done

/-- An ingestion of it in which every call answers. -/
def sampleIngest : IngestAttempt where
  documentId := 7
  chunkSizeChars := 1000
  chunkOverlapChars := 100
  pypdf := fun _ => .error .pdfReadError
  chunkIdFor := fun _ ordinal => Fin.ofNat _ ordinal
  lookup := none
  startCommit := .done
  payload := .ok [0x61]
  chunkingCommit := .done
  delete := none
  finalCommit := .done
  failure := ⟨none, none, .done⟩
  refresh := none

/-- An embedding attempt on it, by what the provider answers. -/
def sampleEmbed (embedTexts : List Str → Except Exc (List ℕ)) : EmbedAttempt ℕ where
  documentId := 7
  lookup := none
  pipeline := .ok "mistral-embed"
  select := none
  embedTexts := embedTexts
  finalCommit := .done
  failure := ⟨none, none, .done⟩

/-- The provider is down once, and then answers. -/
def sampleOperations : List (Operation ℕ) :=
  [.upload sampleUpload, .runIngestion sampleIngest,
    .embedDocument (sampleEmbed fun _ =>
      .error (.domain (providerError "unavailable" .modelUnavailable "mistral" true))),
    .embedDocument (sampleEmbed fun texts => .ok (texts.map List.length))]

/-- The document is failed and has no error code after an embedding attempt that
succeeded where an earlier one failed. -/
theorem sound_throughout_fails : ¬ Throughout Life.step Life.Sound {} sampleOperations := by
  decide +kernel

end Ingest
end EvidenceLab
