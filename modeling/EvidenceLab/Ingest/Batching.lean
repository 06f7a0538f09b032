/-
# Batched embedding

`core/embeddings/pipeline.py`: the texts are cut into batches that the provider
accepts, the batches are sent one after another, and what comes back is put together
in the order of the texts.  The answers of a model may depend on how many calls were
made before, so a provider that fails at any call is one of them.  A run of the
pipeline gives its outcome together with the calls it made.

The cuts are those of `range(0, n, size)`; together they are the whole list
(`flatten_batches`).
-/

import EvidenceLab.Core.Errors
import EvidenceLab.Text.Str

namespace EvidenceLab
namespace Ingest

open Text EvidenceLab.Core

variable {α V : Type}

/-! ### Batches -/

/-- `[xs[start : start + size] for start in range(0, len(xs), size)]`. -/
def batches (size : ℕ) (xs : List α) : List (List α) :=
  (List.range ((xs.length + size - 1) / size)).map fun i => slice xs (i * size) (i * size + size)

/-- The first `k` batches are the first `k * size` elements. -/
theorem flatten_slices (size : ℕ) (xs : List α) (k : ℕ) :
    ((List.range k).map fun i => slice xs (i * size) (i * size + size)).flatten =
      xs.take (k * size) := by
  induction k with
  | zero => simp
  | succ k ih =>
      have hcut : slice xs (k * size) (k * size + size) = (xs.drop (k * size)).take size := by
        rw [slice, Nat.add_sub_cancel_left]
      rw [List.range_succ, List.map_append, List.flatten_append, ih, List.map_singleton,
        List.flatten_singleton, hcut, Nat.succ_mul, List.take_add]

/-- **The batches are the list.** -/
theorem flatten_batches {size : ℕ} (hsize : 0 < size) (xs : List α) :
    (batches size xs).flatten = xs := by
  rw [batches, flatten_slices]
  refine List.take_of_length_le ?_
  have hdiv := Nat.div_add_mod (xs.length + size - 1) size
  have hmod := Nat.mod_lt (xs.length + size - 1) hsize
  have hcomm := Nat.mul_comm size ((xs.length + size - 1) / size)
  omega

/-- No batch is empty, or larger than the size. -/
theorem mem_batches {size : ℕ} (hsize : 0 < size) {xs batch : List α}
    (h : batch ∈ batches size xs) : batch ≠ [] ∧ batch.length ≤ size ∧ ∀ x ∈ batch, x ∈ xs := by
  obtain ⟨i, hi, rfl⟩ := List.mem_map.mp h
  have hlt := List.mem_range.mp hi
  have hstart : i * size < xs.length := by
    have hdiv := Nat.div_mul_le_self (xs.length + size - 1) size
    have hmul := Nat.mul_le_mul_right size (Nat.succ_le_of_lt hlt)
    rw [Nat.succ_mul] at hmul
    omega
  have hlength := length_slice xs (i * size) (i * size + size)
  refine ⟨?_, ?_, ?_⟩
  · intro hnil
    rw [hnil, List.length_nil] at hlength
    omega
  · omega
  · intro x hx
    exact List.mem_of_mem_drop (List.mem_of_mem_take hx)

/-! ### The pipeline -/

/-- `EmbeddingModel`: a provider-backed model, and what it answers to its `n`-th call. -/
structure EmbeddingModel (V : Type) where
  modelId : String
  dimensions : ℕ
  maxBatchSize : ℕ
  embed : ℕ → List Str → Except Exc (List V)
  maxBatchSize_pos : 0 < maxBatchSize

/-- `BatchedEmbeddingPipeline`: its batches are never larger than the model accepts. -/
structure BatchedEmbeddingPipeline (V : Type) where
  model : EmbeddingModel V
  batchSize : ℕ
  batchSize_pos : 0 < batchSize
  batchSize_le : batchSize ≤ model.maxBatchSize

namespace BatchedEmbeddingPipeline

/-- `BatchedEmbeddingPipeline(model, batch_size=...)`. -/
def init (model : EmbeddingModel V) (batchSize : ℤ) : Except Exc (BatchedEmbeddingPipeline V) :=
  if h : batchSize ≤ 0 then .error .valueError
  else
    have hmodel := model.maxBatchSize_pos
    .ok ⟨model, min batchSize.toNat model.maxBatchSize, by omega, by omega⟩

variable (p : BatchedEmbeddingPipeline V)

/-- The loop of `embed_texts` from the `n`-th call on: the vectors, and each batch that
was sent with whether it was answered with vectors. -/
def embedBatches (embed : ℕ → List Str → Except Exc (List V)) :
    ℕ → List (List Str) → Except Exc (List V) × List (List Str × Bool)
  | _, [] => (.ok [], [])
  | n, batch :: rest =>
      match embed n batch with
      | .error e => (.error e, [(batch, false)])
      | .ok vectors =>
          let (outcome, calls) := embedBatches embed (n + 1) rest
          (outcome.map (vectors ++ ·), (batch, true) :: calls)

/-- `embed_texts`, with its calls. -/
def embedTexts (texts : List Str) : Except Exc (List V) × List (List Str × Bool) :=
  embedBatches p.model.embed 0 (batches p.batchSize texts)

/-- `embed_query`: the answer to a call with one text, `vectors[0]`. -/
def embedQuery (text : Str) : Except Exc V := do
  let vectors ← p.model.embed 0 [text]
  match vectors with
  | [] => throw .indexError
  | vector :: _ => return vector

end BatchedEmbeddingPipeline

open BatchedEmbeddingPipeline

/-- A pipeline is made of every positive batch size. -/
theorem exists_init (model : EmbeddingModel V) {batchSize : ℤ} (h : 1 ≤ batchSize) :
    ∃ p, BatchedEmbeddingPipeline.init model batchSize = .ok p ∧ p.model = model := by
  unfold BatchedEmbeddingPipeline.init
  rw [dif_neg (by omega)]
  exact ⟨_, rfl, rfl⟩

/-- The batches are sent in order, up to the first that is not answered. -/
theorem calls_embedBatches (embed : ℕ → List Str → Except Exc (List V)) (n : ℕ)
    (bs : List (List Str)) : (embedBatches embed n bs).2.map Prod.fst <+: bs := by
  induction bs generalizing n with
  | nil => exact List.nil_prefix
  | cons batch rest ih =>
      rw [embedBatches]
      cases embed n batch with
      | error e => exact List.cons_prefix_cons.mpr ⟨rfl, List.nil_prefix⟩
      | ok vectors => exact List.cons_prefix_cons.mpr ⟨rfl, ih (n + 1)⟩

/-- **A run whose batches are all answered with the vectors of their texts** sends every
batch, and gives the vectors of all the texts, in order. -/
theorem embedBatches_ok {embed : ℕ → List Str → Except Exc (List V)} {vector : Str → V}
    {bs : List (List Str)} (h : ∀ n, ∀ batch ∈ bs, embed n batch = .ok (batch.map vector)) (n : ℕ) :
    embedBatches embed n bs =
      (.ok (bs.flatten.map vector), bs.map fun batch => (batch, true)) := by
  induction bs generalizing n with
  | nil => rfl
  | cons batch rest ih =>
      rw [embedBatches, h n batch (List.mem_cons_self ..),
        ih (fun m b hb => h m b (List.mem_cons_of_mem _ hb))]
      simp [Except.map]

end Ingest
end EvidenceLab
