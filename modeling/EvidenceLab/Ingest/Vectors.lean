/-
# The vectors that are written

An attempt at embedding that writes gives every pending row the vector that came back at
its place, and leaves every other row as it was (`rows_embedDocument`).  The adapter
restores the order of a response from its indices, so a provider that labels its answers
gives the vectors of the batch in order, however it permutes them
(`parseEmbeddings_of_labels`).  Batches, vectors and rows then line up: every pending row
gets the vector of its own text (`embedDocument_assigns`).
-/

import EvidenceLab.Data.Sorting
import EvidenceLab.Ingest.Batching
import EvidenceLab.Ingest.Rows
import EvidenceLab.Providers.Alignment

namespace EvidenceLab
namespace Ingest

open Text Data EvidenceLab.Core Runs Session Providers

variable {V : Type}

/-! ### Rows and vectors line up -/

theorem mem_pendingChunks {modelId : String} {rows : List (ChunkRow V)} {row : ChunkRow V} :
    row ∈ pendingChunks modelId rows ↔ row ∈ rows ∧ row.Pending modelId = true :=
  (List.mergeSort_perm _ _).mem_iff.trans List.mem_filter

/-- The row with a vector of its own text, if it is pending. -/
def ChunkRow.assigned (modelId : String) (vector : Str → V) (row : ChunkRow V) : ChunkRow V :=
  if row.Pending modelId then
    { row with embedding := some (vector row.text), embeddingModel := some modelId }
  else row

/-- A row is found among the pending ones by its id iff it is one of them. -/
theorem find?_pendingChunks {modelId : String} {rows : List (ChunkRow V)}
    (hids : (rows.map (·.id)).Nodup) {row : ChunkRow V} (hrow : row ∈ rows) :
    (pendingChunks modelId rows).find? (·.id = row.id) =
      if row.Pending modelId then some row else none := by
  cases hfind : (pendingChunks modelId rows).find? (·.id = row.id) with
  | some found =>
      obtain ⟨hfound, hpending⟩ := mem_pendingChunks.mp (List.mem_of_find?_eq_some hfind)
      have hid : found.id = row.id := by simpa using List.find?_some hfind
      obtain rfl := List.inj_on_of_nodup_map hids hfound hrow hid
      rw [if_pos hpending]
  | none =>
      rw [if_neg]
      intro hpending
      have hno := List.find?_eq_none.mp hfind row (mem_pendingChunks.mpr ⟨hrow, hpending⟩)
      simp at hno

/-- Rows that are not pending are left alone. -/
theorem map_assigned_of_pendingChunks_eq_nil {modelId : String} {rows : List (ChunkRow V)}
    (h : pendingChunks modelId rows = []) (vector : Str → V) :
    rows.map (ChunkRow.assigned modelId vector) = rows := by
  refine (List.map_congr_left ?_).trans (List.map_id _)
  intro row hrow
  rw [ChunkRow.assigned, if_neg, id]
  intro hpending
  have hmem := mem_pendingChunks.mpr ⟨hrow, hpending⟩
  rw [h] at hmem
  exact absurd hmem List.not_mem_nil

/-- **Vectors in the order of the pending rows** come to the rows they are of. -/
theorem chunks_setEmbeddings {modelId : String} {vector : Str → V} {s : Store V}
    (hids : (s.chunks.map (·.id)).Nodup) :
    (s.setEmbeddings modelId ((pendingChunks modelId s.chunks).zip
      (((pendingChunks modelId s.chunks).map (·.text)).map vector))).chunks =
      s.chunks.map (ChunkRow.assigned modelId vector) := by
  refine List.map_congr_left ?_
  intro row hrow
  have hzip : (pendingChunks modelId s.chunks).zip
      (((pendingChunks modelId s.chunks).map (·.text)).map vector) =
      (pendingChunks modelId s.chunks).map fun r => (r, vector r.text) := by
    rw [List.map_map]
    exact List.map_prod_left_eq_zip.symm
  rw [hzip, List.find?_map]
  have hfind : (pendingChunks modelId s.chunks).find? (·.id = row.id) =
      if row.Pending modelId then some row else none := find?_pendingChunks hids hrow
  simp only [Function.comp_def, hfind, ChunkRow.assigned]
  split_ifs <;> rfl

/-! ### Through the pipeline -/

/-- `MistralEmbeddingModel` as the model of a pipeline; `http n batch` is what becomes of
the requests of its `n`-th call. -/
def mistralModel (m : MistralEmbeddingModel) (hmax : 0 < m.maxBatchSize)
    (http : ℕ → List Str → ℕ → HttpOutcome) : EmbeddingModel (List Float64) where
  modelId := m.modelId
  dimensions := m.dimensions
  maxBatchSize := m.maxBatchSize
  embed := fun n batch => m.embed batch (http n batch)
  maxBatchSize_pos := hmax

/-- An attempt that embeds through a pipeline. -/
def EmbedAttempt.through (a : EmbedAttempt V) (p : BatchedEmbeddingPipeline V) : EmbedAttempt V :=
  { a with
    pipeline := .ok p.model.modelId
    embedTexts := fun texts => (p.embedTexts texts).1 }

/-- The provider answers every batch of the texts with a response that labels their
vectors. -/
def Answers (m : MistralEmbeddingModel) (vector : Str → List Float64)
    (http : ℕ → List Str → ℕ → HttpOutcome) (texts : List Str) : Prop :=
  ∀ n batch, batch ≠ [] → (∀ text ∈ batch, text ∈ texts) → batch.length ≤ m.maxBatchSize →
    ∃ payload, post m.maxRetries .embeddingFailed (http n batch) = .ok payload ∧
      m.Labels vector batch payload

section Pipeline

variable {m : MistralEmbeddingModel} {vector : Str → List Float64}
  {http : ℕ → List Str → ℕ → HttpOutcome} {texts : List Str}

/-- A call is answered with the vectors of its batch. -/
theorem Answers.embed (h : Answers m vector http texts) (n : ℕ) {batch : List Str}
    (hne : batch ≠ []) (hmem : ∀ text ∈ batch, text ∈ texts)
    (hlen : batch.length ≤ m.maxBatchSize) :
    m.embed batch (http n batch) = .ok (batch.map vector) := by
  obtain ⟨payload, hpost, hlabels⟩ := h n batch hne hmem hlen
  exact MistralEmbeddingModel.embedWith_of_labels hpost hlen hlabels

/-- **The pipeline gives every text its own vector**, whatever the size of the batches. -/
theorem embedTexts_of_answers {hmax : 0 < m.maxBatchSize} (h : Answers m vector http texts)
    {p : BatchedEmbeddingPipeline (List Float64)} (hp : p.model = mistralModel m hmax http) :
    p.embedTexts texts = (.ok (texts.map vector),
      (batches p.batchSize texts).map fun batch => (batch, true)) := by
  have hbatch : ∀ n, ∀ batch ∈ batches p.batchSize texts,
      p.model.embed n batch = .ok (batch.map vector) := by
    intro n batch hbatch
    obtain ⟨hne, hlen, hmem⟩ := mem_batches p.batchSize_pos hbatch
    have hle : p.batchSize ≤ m.maxBatchSize := by
      have hle := p.batchSize_le
      rwa [hp] at hle
    rw [hp]
    exact h.embed n hne hmem (hlen.trans hle)
  rw [BatchedEmbeddingPipeline.embedTexts, embedBatches_ok hbatch,
    flatten_batches p.batchSize_pos]

end Pipeline

/-- The calls of the database of an attempt that assigns vectors go through. -/
def EmbedAttempt.Goes (a : EmbedAttempt V) (s : Store V) : Prop :=
  a.lookup = none ∧ s.document ≠ none ∧ a.select = none ∧ a.finalCommit.Lands

section Attempt

variable {p : BatchedEmbeddingPipeline V} {a : EmbedAttempt V} {s : Store V} {vector : Str → V}

/-- An attempt that goes through assigns what the pipeline gives. -/
theorem chunks_of_goes (hids : (s.chunks.map (·.id)).Nodup)
    (hembed : (p.embedTexts ((pendingChunks p.model.modelId s.chunks).map (·.text))).1 =
      .ok (((pendingChunks p.model.modelId s.chunks).map (·.text)).map vector))
    (hgoes : a.Goes s) :
    (perform (embedDocument (a.through p)) s).2.chunks =
      s.chunks.map (ChunkRow.assigned p.model.modelId vector) := by
  obtain ⟨hlook, hdoc, hselect, hlands⟩ := hgoes
  have hpipeline : (a.through p).pipeline = .ok p.model.modelId := rfl
  have hvectors : (a.through p).embedTexts
      ((pendingChunks p.model.modelId s.chunks).map (·.text)) =
        .ok (((pendingChunks p.model.modelId s.chunks).map (·.text)).map vector) := hembed
  rcases rows_embedDocument (a.through p) s with
    ⟨modelId, vectors, ⟨-, -, hmodel, -, -, hvectors', -, -⟩, hrows⟩ | ⟨hno, hrows⟩
  · cases hpipeline.symm.trans hmodel
    cases hvectors.symm.trans hvectors'
    rw [hrows, chunks_setEmbeddings hids]
  · by_cases hpending : pendingChunks p.model.modelId s.chunks = []
    · rw [hrows, map_assigned_of_pendingChunks_eq_nil hpending]
    · refine absurd ⟨hlook, hdoc, hpipeline, hselect, hpending, hvectors, ?_, hlands⟩ (hno _ _)
      rw [List.length_map, List.length_map]

/-- Any other attempt changes no row. -/
theorem chunks_of_not_goes (hno : ¬ a.Goes s) :
    (perform (embedDocument (a.through p)) s).2.chunks = s.chunks := by
  rcases rows_embedDocument (a.through p) s with ⟨_, _, h, -⟩ | ⟨-, h⟩
  · exact absurd ⟨h.1, h.2.1, h.2.2.2.1, h.2.2.2.2.2.2.2⟩ hno
  · exact h

end Attempt

/-- **Every pending chunk gets the vector of its own text.**  With a provider that labels
its answers, whatever the sizes of the batches and the orders of the responses, the
pipeline gives the vectors that embedding each text alone gives; no batch is larger than
the provider accepts, and every text is sent once.  An attempt whose calls of the
database go through assigns these vectors to the pending rows and changes no other, and
any other attempt changes none. -/
theorem embedDocument_assigns (m : MistralEmbeddingModel) (hmax : 0 < m.maxBatchSize)
    {batchSize : ℤ} (hsize : 1 ≤ batchSize) (vector : Str → List Float64)
    (http : ℕ → List Str → ℕ → HttpOutcome) (a : EmbedAttempt (List Float64))
    (s : Store (List Float64)) (hids : (s.chunks.map (·.id)).Nodup)
    (hanswers : Answers m vector http ((pendingChunks m.modelId s.chunks).map (·.text))) :
    ∃ p, BatchedEmbeddingPipeline.init (mistralModel m hmax http) batchSize = .ok p ∧
      let texts := (pendingChunks m.modelId s.chunks).map (·.text)
      (p.embedTexts texts).1 = .ok (texts.map vector) ∧
      (∀ text ∈ texts, ∀ n, m.embed [text] (http n [text]) = .ok [vector text]) ∧
      (∀ call ∈ (p.embedTexts texts).2, call.1.length ≤ m.maxBatchSize) ∧
      ((p.embedTexts texts).2.map Prod.fst).flatten = texts ∧
      (a.lookup = none ∧ s.document ≠ none ∧ a.select = none ∧ a.finalCommit.Lands →
        (perform (embedDocument (a.through p)) s).2.chunks =
          s.chunks.map (ChunkRow.assigned m.modelId vector)) ∧
      (¬ (a.lookup = none ∧ s.document ≠ none ∧ a.select = none ∧ a.finalCommit.Lands) →
        (perform (embedDocument (a.through p)) s).2.chunks = s.chunks) := by
  obtain ⟨p, hp, hmodel⟩ := exists_init (mistralModel m hmax http) hsize
  have hembed := embedTexts_of_answers hanswers hmodel
  have hid : p.model.modelId = m.modelId := by
    rw [hmodel]
    rfl
  refine ⟨p, hp, ?_, ?_, ?_, ?_, ?_, chunks_of_not_goes⟩
  · rw [hembed]
  · intro text htext n
    refine hanswers.embed n (List.cons_ne_nil _ _) ?_ hmax
    intro text' htext'
    rw [List.mem_singleton.mp htext']
    exact htext
  · intro call hcall
    rw [hembed] at hcall
    obtain ⟨batch, hbatch, rfl⟩ := List.mem_map.mp hcall
    have hle : p.batchSize ≤ m.maxBatchSize := by
      have hle := p.batchSize_le
      rwa [hmodel] at hle
    exact (mem_batches p.batchSize_pos hbatch).2.1.trans hle
  · have hfst : ((batches p.batchSize ((pendingChunks m.modelId s.chunks).map (·.text))).map
        fun batch => (batch, true)).map Prod.fst =
        batches p.batchSize ((pendingChunks m.modelId s.chunks).map (·.text)) := by
      rw [List.map_map]
      exact List.map_id _
    rw [hembed, hfst, flatten_batches p.batchSize_pos]
  · rw [← hid] at hembed ⊢
    exact chunks_of_goes hids (congrArg Prod.fst hembed)

/-- The response of a provider that embeds a text as its length, its items last first. -/
def lengthsPayload (batch : List Str) : Json :=
  .dict [(dataKey, .list (batch.zipIdx.map fun text => Json.dict [(indexKey, .int text.2),
    (embeddingKey, .list [.float (.ofRat text.1.length)])]).reverse)]

/-- Its answers label the vectors. -/
theorem answers_lengths (m : MistralEmbeddingModel) (hm : m.dimensions = 1) (texts : List Str) :
    Answers m (fun text => [.ofRat text.length])
      (fun _ batch _ => .response 200 (.ok (lengthsPayload batch))) texts := by
  intro n batch _ _ _
  refine ⟨lengthsPayload batch, ?_, _, _, rfl, List.reverse_perm _, ?_⟩
  · unfold post
    cases (m.maxRetries - 1).toNat <;> rfl
  · rw [List.forall₂_map_right_iff]
    exact List.forall₂_same.mpr fun text _ => ⟨rfl, rfl, hm.symm⟩

/-- Three rows, one of them embedded, and two texts a batch. -/
theorem embedDocument_assigns_sample :
    let m : MistralEmbeddingModel :=
      { dimensions := 1, maxBatchSize := 2, floatOfStr := fun _ => none }
    let row (n : ℕ) (text : Str) : ChunkRow (List Float64) :=
      { text, ordinal := n, tokenCount := 1, id := Fin.ofNat _ n }
    let document : Document :=
      { id := 7, contentHash := [], filename := none, mimeType := "text/plain", sizeBytes := 4 }
    let s : Store (List Float64) :=
      { document := some document,
        chunks := [row 0 [0x61], row 1 [0x61, 0x62],
          { row 2 [0x63] with embedding := some [.nan], embeddingModel := some m.modelId }] }
    let a : EmbedAttempt (List Float64) :=
      { documentId := 7, lookup := none, pipeline := .ok m.modelId, select := none,
        embedTexts := fun _ => .ok [], finalCommit := .done, failure := ⟨none, none, .done⟩ }
    ∃ p, BatchedEmbeddingPipeline.init (mistralModel m (by decide) fun _ batch _ =>
        .response 200 (.ok (lengthsPayload batch))) 5 = .ok p ∧
      (perform (embedDocument (a.through p)) s).2.chunks.map (·.embedding) =
        [some [.ofRat 1], some [.ofRat 2], some [.nan]] := by
  intro m row document s a
  obtain ⟨p, hp, -, -, -, -, hassigned, -⟩ := embedDocument_assigns m (by decide)
    (by decide : (1 : ℤ) ≤ 5) (fun text => [.ofRat text.length]) _ a s (by decide)
    (answers_lengths m rfl _)
  refine ⟨p, hp, ?_⟩
  rw [hassigned ⟨rfl, Option.some_ne_none _, rfl, trivial⟩]
  rfl

end Ingest
end EvidenceLab
