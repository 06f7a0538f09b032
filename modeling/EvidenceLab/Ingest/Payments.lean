/-
# What is paid for

A call of the provider that is answered is paid for.  An attempt at embedding writes all
of its vectors in one commit after its last call, so the answers that it got before a
failure are lost, and the next attempt sends their texts again.

A run of attempts is followed with a ledger of the chunks whose texts were part of an
answered call.  No chunk is entered twice iff no attempt is answered after one that was
answered and kept nothing (`paid_once_iff`).
-/

import EvidenceLab.Ingest.Vectors
import EvidenceLab.Runs.System

namespace EvidenceLab
namespace Ingest

open Text Data EvidenceLab.Core Providers Runs Session BatchedEmbeddingPipeline

variable {V : Type} {modelId : String}

/-! ### Attempts and their calls -/

/-- The rows whose texts are in the answered calls of a pipeline that is given the texts
of all the rows. -/
def answeredRows (p : BatchedEmbeddingPipeline V) (rows : List (ChunkRow V)) : List (ChunkRow V) :=
  (((batches p.batchSize rows).zip (p.embedTexts (rows.map (·.text))).2).filter
    (·.2.2)).flatMap (·.1)

/-- An attempt at embedding with a model, and the pipeline that it embeds through. -/
structure PaidAttempt (V : Type) (modelId : String) where
  attempt : EmbedAttempt V
  pipeline : BatchedEmbeddingPipeline V
  modelId_eq : pipeline.model.modelId = modelId

namespace PaidAttempt

variable (e : PaidAttempt V modelId) (s : Store V)

/-- The attempt, embedding through its pipeline. -/
def embedding : EmbedAttempt V := e.attempt.through e.pipeline

/-- The attempt gets as far as `embed_texts`. -/
def Reaches : Prop :=
  e.attempt.lookup = none ∧ s.document.isSome ∧ e.attempt.select = none

instance : Decidable (e.Reaches s) :=
  inferInstanceAs (Decidable (_ ∧ _ ∧ _))

/-- The rows that the attempt gets an answer for. -/
def answered : List (ChunkRow V) :=
  if e.Reaches s then answeredRows e.pipeline (pendingChunks modelId s.chunks) else []

/-- A call of the attempt is answered. -/
def Pays : Prop := e.answered s ≠ []

/-- All calls are answered, with a vector for every text, and the commit is carried out. -/
def Keeps : Prop :=
  (∃ vectors ∈ (e.pipeline.embedTexts ((pendingChunks modelId s.chunks).map (·.text))).1.toOption,
    vectors.length = (pendingChunks modelId s.chunks).length) ∧ e.attempt.finalCommit.Lands

instance : Decidable (e.Pays s) := inferInstanceAs (Decidable (_ ≠ []))

instance : Decidable (e.Keeps s) :=
  inferInstanceAs (Decidable ((∃ vectors ∈ (_ : Option (List V)), _) ∧ _))

end PaidAttempt

/-- A document's store, with the chunks that were paid for and whether an attempt was
answered and kept nothing. -/
structure Ledger (V : Type) where
  store : Store V
  paid : List Uuid := []
  wasted : Bool := false

/-- One attempt. -/
def Ledger.step (l : Ledger V) (e : PaidAttempt V modelId) : Option (Ledger V) :=
  some {
    store := (perform (embedDocument e.embedding) l.store).2
    paid := l.paid ++ (e.answered l.store).map (·.id)
    wasted := l.wasted || decide (e.Pays l.store ∧ ¬ e.Keeps l.store) }

/-- The attempt is not answered after one that was answered and kept nothing. -/
def Ledger.Thrifty (l : Ledger V) (e : PaidAttempt V modelId) : Prop :=
  l.wasted = true → ¬ e.Pays l.store

/-! ### Which rows are answered for -/

/-- The answered batches are the first ones. -/
theorem answered_prefix (embed : ℕ → List Str → Except Exc (List V)) (n : ℕ)
    (bs : List (List (ChunkRow V))) :
    ((bs.zip (embedBatches embed n (bs.map fun b => b.map (·.text))).2).filter
      (·.2.2)).map (·.1) <+: bs := by
  induction bs generalizing n with
  | nil => exact List.nil_prefix
  | cons b bs ih =>
      rw [List.map_cons, embedBatches]
      cases embed n (b.map (·.text)) with
      | error e => simp
      | ok vectors => exact List.cons_prefix_cons.mpr ⟨rfl, ih (n + 1)⟩

/-- When all batches are answered, these are all of them. -/
theorem answered_of_ok {embed : ℕ → List Str → Except Exc (List V)} {n : ℕ}
    {bs : List (List (ChunkRow V))} {vectors : List V}
    (h : (embedBatches embed n (bs.map fun b => b.map (·.text))).1 = .ok vectors) :
    ((bs.zip (embedBatches embed n (bs.map fun b => b.map (·.text))).2).filter
      (·.2.2)).map (·.1) = bs := by
  induction bs generalizing n vectors with
  | nil => rfl
  | cons b bs ih =>
      rw [List.map_cons, embedBatches] at h ⊢
      cases hb : embed n (b.map (·.text)) with
      | error e =>
          rw [hb] at h
          cases h
      | ok vs =>
          rw [hb] at h
          cases hrest : (embedBatches embed (n + 1) (bs.map fun b => b.map (·.text))).1 with
          | error e =>
              simp only [hrest] at h
              cases h
          | ok vs' => exact congrArg (b :: ·) (ih hrest)

/-- The batches of the texts are the texts of the batches. -/
theorem batches_map {α β : Type} (f : α → β) (size : ℕ) (xs : List α) :
    batches size (xs.map f) = (batches size xs).map (List.map f) := by
  rw [batches, batches, List.map_map, List.length_map]
  refine List.map_congr_left ?_
  intro i _
  simp only [Function.comp_apply, slice, List.map_take, List.map_drop]

/-- The rows that are answered for come first. -/
theorem answeredRows_prefix (p : BatchedEmbeddingPipeline V) (rows : List (ChunkRow V)) :
    answeredRows p rows <+: rows := by
  obtain ⟨rest, hrest⟩ := answered_prefix p.model.embed 0 (batches p.batchSize rows)
  refine ⟨rest.flatten, ?_⟩
  rw [answeredRows, embedTexts, batches_map, List.flatMap_def, ← List.flatten_append, hrest,
    flatten_batches p.batchSize_pos]

/-- When all calls are answered, these are all rows. -/
theorem answeredRows_of_ok {p : BatchedEmbeddingPipeline V} {rows : List (ChunkRow V)}
    {vectors : List V} (h : (p.embedTexts (rows.map (·.text))).1 = .ok vectors) :
    answeredRows p rows = rows := by
  rw [embedTexts, batches_map] at h
  rw [answeredRows, embedTexts, batches_map, List.flatMap_def, answered_of_ok h,
    flatten_batches p.batchSize_pos]

/-! ### What an attempt leaves -/

/-- Rows that are given vectors keep their ids. -/
theorem ids_setEmbeddings (s : Store V) (embedded : List (ChunkRow V × V)) :
    (s.setEmbeddings modelId embedded).chunks.map (·.id) = s.chunks.map (·.id) := by
  rw [Store.setEmbeddings, List.map_map]
  refine List.map_congr_left ?_
  intro row _
  simp only [Function.comp_apply]
  split <;> rfl

/-- When every pending row is given a vector, none is left. -/
theorem pendingChunks_setEmbeddings {s : Store V} {vectors : List V}
    (hlen : vectors.length = (pendingChunks modelId s.chunks).length) :
    pendingChunks modelId (s.setEmbeddings modelId
      ((pendingChunks modelId s.chunks).zip vectors)).chunks = [] := by
  rw [List.eq_nil_iff_forall_not_mem]
  intro row hrow
  obtain ⟨hrow, hpending⟩ := mem_pendingChunks.mp hrow
  obtain ⟨old, hold, rfl⟩ := List.mem_map.mp hrow
  cases hfind : ((pendingChunks modelId s.chunks).zip vectors).find? (·.1.id = old.id) with
  | some found =>
      simp only [hfind] at hpending
      simp [ChunkRow.Pending] at hpending
  | none =>
      simp only [hfind] at hpending
      have hmem := mem_pendingChunks.mpr ⟨hold, hpending⟩
      rw [← List.map_fst_zip hlen.ge] at hmem
      obtain ⟨pair, hpair, heq⟩ := List.mem_map.mp hmem
      have hno := List.find?_eq_none.mp hfind pair hpair
      simp [heq] at hno

section Attempts

variable {e : PaidAttempt V modelId} {s : Store V}

theorem PaidAttempt.answered_prefix (e : PaidAttempt V modelId) (s : Store V) :
    e.answered s <+: pendingChunks modelId s.chunks := by
  unfold answered
  split
  · exact answeredRows_prefix e.pipeline _
  · exact List.nil_prefix

/-- An attempt that writes is answered, and keeps what it is answered. -/
theorem PaidAttempt.of_written {modelId' : String} {vectors : List V}
    (h : e.embedding.Written s modelId' vectors) :
    modelId' = modelId ∧ e.Pays s ∧ e.Keeps s := by
  obtain ⟨hlook, hdoc, hmodel, hselect, hpending, hvectors, hlen, hlands⟩ := h
  obtain rfl : modelId' = modelId := (Except.ok.inj hmodel).symm.trans e.modelId_eq
  have hreaches : e.Reaches s := ⟨hlook, Option.isSome_iff_ne_none.mpr hdoc, hselect⟩
  refine ⟨rfl, ?_, ⟨vectors, ?_, hlen⟩, hlands⟩
  · rw [Pays, answered, if_pos hreaches, answeredRows_of_ok hvectors]
    exact hpending
  · exact congrArg Except.toOption hvectors

/-- An attempt that is answered, and keeps what it is answered, writes. -/
theorem PaidAttempt.written (hpays : e.Pays s) (hkeeps : e.Keeps s) :
    ∃ vectors, e.embedding.Written s modelId vectors := by
  have hreaches : e.Reaches s := by
    by_contra hno
    exact hpays (if_neg hno)
  obtain ⟨⟨vectors, hvectors, hlen⟩, hlands⟩ := hkeeps
  refine ⟨vectors, hreaches.1, Option.isSome_iff_ne_none.mp hreaches.2.1,
    congrArg Except.ok e.modelId_eq, hreaches.2.2, ?_, ?_, hlen, hlands⟩
  · intro hnil
    have hprefix := e.answered_prefix s
    rw [hnil] at hprefix
    exact hpays (List.prefix_nil.mp hprefix)
  · change (e.pipeline.embedTexts _).1 = _
    cases hrun : (e.pipeline.embedTexts ((pendingChunks modelId s.chunks).map (·.text))).1 with
    | error x =>
        rw [hrun] at hvectors
        cases hvectors
    | ok vs =>
        rw [hrun] at hvectors
        cases hvectors
        rfl

/-- An attempt that writes nothing leaves the rows as they are. -/
theorem PaidAttempt.chunks_of_not (h : ¬ (e.Pays s ∧ e.Keeps s)) :
    (perform (embedDocument e.embedding) s).2.chunks = s.chunks := by
  rcases rows_embedDocument e.embedding s with ⟨_, _, hwritten, -⟩ | ⟨-, hrows⟩
  · exact absurd (of_written hwritten).2 h
  · exact hrows

/-- An attempt that writes leaves no row pending. -/
theorem PaidAttempt.pending_of_keeps (hpays : e.Pays s) (hkeeps : e.Keeps s) :
    pendingChunks modelId (perform (embedDocument e.embedding) s).2.chunks = [] := by
  rcases rows_embedDocument e.embedding s with ⟨modelId', vectors, hwritten, hrows⟩ | ⟨hno, -⟩
  · obtain ⟨rfl, -, -⟩ := of_written hwritten
    rw [hrows]
    exact pendingChunks_setEmbeddings hwritten.2.2.2.2.2.2.1
  · obtain ⟨vectors, hwritten⟩ := written hpays hkeeps
    exact absurd hwritten (hno _ _)

/-- No attempt changes the ids of the rows. -/
theorem PaidAttempt.ids_embedDocument (e : PaidAttempt V modelId) (s : Store V) :
    (perform (embedDocument e.embedding) s).2.chunks.map (·.id) = s.chunks.map (·.id) := by
  rcases rows_embedDocument e.embedding s with ⟨_, _, -, hrows⟩ | ⟨-, hrows⟩
  · rw [hrows]
    exact ids_setEmbeddings s _
  · rw [hrows]

/-- An attempt that is answered is answered for the first pending row. -/
theorem PaidAttempt.head_of_pays (h : e.Pays s) :
    ∃ row ∈ e.answered s, (pendingChunks modelId s.chunks).head? = some row := by
  obtain ⟨row, rest, hcons⟩ := List.exists_cons_of_ne_nil h
  refine ⟨row, ?_, ?_⟩
  · rw [hcons]
    exact List.mem_cons_self ..
  · obtain ⟨more, hmore⟩ := e.answered_prefix s
    rw [← hmore, hcons]
    rfl

end Attempts

/-! ### Runs -/

/-- The invariant of the ledger of thrifty runs. -/
structure Ledger.Inv (modelId : String) (l : Ledger V) : Prop where
  distinct : (l.store.chunks.map (·.id)).Nodup
  paid : l.paid.Nodup
  /-- What is still to be embedded has not been paid for, -/
  fresh : l.wasted = false → ∀ row ∈ pendingChunks modelId l.store.chunks, row.id ∉ l.paid
  /-- or the first of it has. -/
  spent : l.wasted = true →
    ∀ row, (pendingChunks modelId l.store.chunks).head? = some row → row.id ∈ l.paid

section Runs

variable {l l' : Ledger V} {e : PaidAttempt V modelId}

/-- The rows that are answered for have different ids. -/
theorem Ledger.Inv.nodup_answered (h : l.Inv modelId) :
    ((e.answered l.store).map (·.id)).Nodup := by
  have hpending : ((pendingChunks modelId l.store.chunks).map (·.id)).Nodup :=
    ((List.mergeSort_perm _ _).map _).nodup_iff.mpr
      (h.distinct.sublist (List.filter_sublist.map _))
  exact hpending.sublist ((e.answered_prefix l.store).sublist.map _)

/-- A thrifty attempt keeps the invariant. -/
theorem Ledger.Inv.step (h : l.Inv modelId) (hstep : l.step e = some l') (hok : l.Thrifty e) :
    l'.Inv modelId := by
  obtain rfl := Option.some.inj hstep
  have hids := e.ids_embedDocument l.store
  by_cases hpays : e.Pays l.store
  · have hwasted : l.wasted = false := Bool.eq_false_iff.mpr fun hw => hok hw hpays
    have hnodup : (l.paid ++ (e.answered l.store).map (·.id)).Nodup := by
      refine List.nodup_append.mpr ⟨h.paid, h.nodup_answered, ?_⟩
      rintro id hpaid _ hanswered rfl
      obtain ⟨row, hrow, rfl⟩ := List.mem_map.mp hanswered
      exact h.fresh hwasted row ((e.answered_prefix l.store).subset hrow) hpaid
    by_cases hkeeps : e.Keeps l.store
    · refine ⟨hids ▸ h.distinct, hnodup, ?_, ?_⟩
      · intro _ row hrow
        simp only [PaidAttempt.pending_of_keeps hpays hkeeps] at hrow
        exact absurd hrow List.not_mem_nil
      · intro hw
        simp [hwasted, hkeeps] at hw
    · have hrows := PaidAttempt.chunks_of_not fun hboth : e.Pays l.store ∧ _ => hkeeps hboth.2
      refine ⟨hids ▸ h.distinct, hnodup, ?_, ?_⟩
      · intro hw
        simp [hpays, hkeeps] at hw
      · intro _ row hhead
        obtain ⟨first, hfirst, hhead'⟩ := PaidAttempt.head_of_pays hpays
        simp only [hrows] at hhead
        obtain rfl := Option.some.inj (hhead'.symm.trans hhead)
        exact List.mem_append_right _ (List.mem_map_of_mem hfirst)
  · have hrows := PaidAttempt.chunks_of_not fun hboth : e.Pays l.store ∧ _ => hpays hboth.1
    have hanswered : e.answered l.store = [] := not_not.mp hpays
    refine ⟨hids ▸ h.distinct, ?_, ?_, ?_⟩
    · simpa [hanswered] using h.paid
    · simpa [hanswered, hpays, hrows] using h.fresh
    · simpa [hanswered, hpays, hrows] using h.spent

/-- An attempt that is not thrifty pays for a chunk again. -/
theorem Ledger.Inv.thrifty (h : l.Inv modelId) (hstep : l.step e = some l')
    (hpaid : l'.paid.Nodup) : l.Thrifty e := by
  obtain rfl := Option.some.inj hstep
  intro hwasted hpays
  obtain ⟨row, hrow, hhead⟩ := PaidAttempt.head_of_pays hpays
  have hdisjoint := (List.nodup_append.mp hpaid).2.2
  exact hdisjoint _ (h.spent hwasted row hhead) _ (List.mem_map_of_mem hrow) rfl

end Runs

/-- **Nothing is paid for twice** in a run of attempts with one model iff no attempt of it
is answered after one that was answered and kept nothing. -/
theorem paid_once_iff (modelId : String) (s : Store V) (hids : (s.chunks.map (·.id)).Nodup)
    (es : List (PaidAttempt V modelId)) :
    Throughout Ledger.step (fun l => l.paid.Nodup) { store := s } es ↔
      Every Ledger.step Ledger.Thrifty { store := s } es := by
  refine throughout_iff_every (I := Ledger.Inv modelId) ?_ ?_ ?_ ?_
  · exact ⟨hids, List.nodup_nil, (fun _ _ _ => List.not_mem_nil), (fun h => by cases h)⟩
  · exact fun _ _ _ h hstep => h.step hstep
  · exact fun _ _ _ h hstep => h.thrifty hstep
  · exact fun _ h => h.paid

/-- A document with some chunks to embed, of one character each. -/
def unembedded (n : ℕ) : Store ℕ where
  document := some
    { id := 7, contentHash := [], filename := none, mimeType := "text/plain", sizeBytes := n }
  chunks := (List.range n).map fun i =>
    { text := [0x61], ordinal := i, tokenCount := 1, id := Fin.ofNat _ i }

/-- An attempt with one text a batch, the first `calls` of which are answered. -/
def attemptOf (calls : ℕ) : PaidAttempt ℕ "m" where
  attempt := {
    documentId := 7, lookup := none, pipeline := .ok "m", select := none,
    embedTexts := fun _ => .ok [], finalCommit := .done, failure := ⟨none, none, .done⟩ }
  pipeline := {
    model := {
      modelId := "m", dimensions := 1, maxBatchSize := 1,
      embed := fun n batch =>
        if n < calls then .ok (batch.map List.length)
        else .error (mistralError "Mistral is unavailable." .modelUnavailable true),
      maxBatchSize_pos := Nat.one_pos },
    batchSize := 1, batchSize_pos := Nat.one_pos, batchSize_le := le_rfl }
  modelId_eq := rfl

/-- A failure at the second batch: the first chunk is paid for again. -/
theorem paid_once_fails :
    ¬ Throughout Ledger.step (fun l => l.paid.Nodup) { store := unembedded 2 }
      [attemptOf 1, attemptOf 2] := by
  intro h
  have hpending : pendingChunks "m" (unembedded 2).chunks = (unembedded 2).chunks :=
    List.mergeSort_of_pairwise (by decide)
  have hkeeps : ¬ (attemptOf 1).Keeps (unembedded 2) := by
    rw [PaidAttempt.Keeps, hpending]
    decide
  -- The first attempt leaves the document and its rows where they are.
  have hrows := PaidAttempt.chunks_of_not fun hboth : (attemptOf 1).Pays (unembedded 2) ∧ _ =>
    hkeeps hboth.2
  have hdoc := (changed_embedDocument (attemptOf 1).embedding (s := unembedded 2) rfl).1
  have hfirst : (attemptOf 1).answered (unembedded 2) = (unembedded 2).chunks.take 1 := by
    rw [PaidAttempt.answered, hpending]
    rfl
  have hsecond : (attemptOf 2).answered
      (perform (embedDocument (attemptOf 1).embedding) (unembedded 2)).2 =
      (unembedded 2).chunks := by
    have hreaches : (attemptOf 2).Reaches
        (perform (embedDocument (attemptOf 1).embedding) (unembedded 2)).2 := by
      refine ⟨rfl, ?_, rfl⟩
      rw [← Option.isSome_map, hdoc]
      rfl
    rw [PaidAttempt.answered, if_pos hreaches, hrows, hpending]
    rfl
  have hpaid := ((h.2 _ rfl).2 _ rfl).head
  rw [hfirst, hsecond] at hpaid
  revert hpaid
  decide

/-- A failure at the first batch costs nothing. -/
theorem paid_once_iff_sample :
    Throughout Ledger.step (fun l => l.paid.Nodup) { store := unembedded 2 }
      [attemptOf 0, attemptOf 2] := by
  have hpending : pendingChunks "m" (unembedded 2).chunks = (unembedded 2).chunks :=
    List.mergeSort_of_pairwise (by decide)
  have hpays : ¬ (attemptOf 0).Pays (unembedded 2) := by
    rw [PaidAttempt.Pays, PaidAttempt.answered, hpending]
    decide
  refine (paid_once_iff "m" (unembedded 2) (by decide) _).mpr ?_
  intro l hl
  refine ⟨(fun h => by cases h), fun _ _ => ⟨?_, trivial⟩⟩
  obtain rfl := Option.some.inj hl
  intro hwasted
  exact absurd (of_decide_eq_true hwasted).1 hpays

end Ingest
end EvidenceLab
