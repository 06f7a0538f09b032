/-
# Reproducible chunking

The id of a chunk is derived from its ordinal so that re-ingesting a document gives
the same chunks under the same ids.  When it does, the order of the jobs does not
matter: a row that an embedding job finds by its id has the text that it sent to the
provider, whichever ingestion has written it (`fresh_of_reproducible`).
-/

import EvidenceLab.Ingest.Embeddings

namespace EvidenceLab
namespace Ingest
namespace Jobs

open Text Data EvidenceLab.Core Runs

variable {V Slot : Type} {text : Uuid → Str} {chunkIdFor : ℕ → Uuid} {s s' : Jobs Slot V}

/-- The event is not an ingestion whose chunks have other texts than their ids stand for. -/
def Reproduces (text : Uuid → Str) (chunkIdFor : ℕ → Uuid) (e : Slot × Event V) : Prop :=
  ∀ chunk ∈ e.2.chunks, chunk.text = text (chunkIdFor chunk.ordinal)

/-- What a job holds has the texts that the ids stand for, and the row it has begun to
write to has the id it is to write to. -/
def Agreeing (text : Uuid → Str) (chunkIdFor : ℕ → Uuid) (s : Jobs Slot V) : Job V → Prop
  | .ingest (.chunking chunks) => ∀ chunk ∈ chunks, chunk.text = text (chunkIdFor chunk.ordinal)
  | .ingest (.deleting chunks _) => ∀ chunk ∈ chunks, chunk.text = text (chunkIdFor chunk.ordinal)
  | .ingest (.inserting _ todo inserted) =>
      ∀ chunk ∈ inserted ++ todo, chunk.text = text (chunkIdFor chunk.ordinal)
  | .embed _ (.loaded pending) => ∀ row ∈ pending, row.text = text row.id
  | .embed _ (.writing todo begun _) =>
      (∀ w ∈ todo, w.text = text w.id) ∧
      ∀ p ∈ begun, p.2.text = text p.2.id ∧ p.1 < s.nextStamp ∧
        ∀ row ∈ s.rows, row.stamp = p.1 → row.id = p.2.id
  | _ => True

/-- The invariant of the runs of a reproducible chunking. -/
structure Agrees (text : Uuid → Str) (chunkIdFor : ℕ → Uuid) (s : Jobs Slot V) : Prop where
  rows : ∀ row ∈ s.rows, row.text = text row.id
  stamped : ∀ row ∈ s.rows, row.stamp < s.nextStamp
  versions : ∀ row ∈ s.rows, ∀ row' ∈ s.rows, row.stamp = row'.stamp → row.id = row'.id
  jobs : ∀ slot, s.Agreeing text chunkIdFor (s.job slot)

theorem Extends.agreeing (h : Extends s s') {job : Job V} (hjob : s.Agreeing text chunkIdFor job) :
    s'.Agreeing text chunkIdFor job := by
  unfold Agreeing at hjob ⊢
  split at hjob
  · exact hjob
  · exact hjob
  · exact hjob
  · exact hjob
  · refine ⟨hjob.1, ?_⟩
    intro p hp
    obtain ⟨htext, hlt, hrows⟩ := hjob.2 p hp
    refine ⟨htext, hlt.trans_le h.nextStamp, ?_⟩
    intro row' hrow' hstamp
    rcases h.rows row' hrow' with hnew | ⟨row, hrow, hs, hid, -⟩
    · omega
    · rw [← hid]
      exact hrows row hrow (hs.trans hstamp)
  · trivial

/-- The invariant after a step of one job whose new rows have the texts of their ids. -/
theorem Agrees.of_extends (h : Agrees text chunkIdFor s) (hext : Extends s s') (slot : Slot)
    (hnew : ∀ row ∈ s'.rows, s.nextStamp ≤ row.stamp → row.text = text row.id)
    (hstamped : ∀ row ∈ s'.rows, row.stamp < s'.nextStamp)
    (hversions : ∀ row ∈ s'.rows, ∀ row' ∈ s'.rows, s.nextStamp ≤ row.stamp →
      row.stamp = row'.stamp → row.id = row'.id)
    (hothers : ∀ other, other ≠ slot → s'.job other = s.job other)
    (hslot : s'.Agreeing text chunkIdFor (s'.job slot)) : Agrees text chunkIdFor s' where
  rows row hrow := by
    rcases hext.rows row hrow with hlt | ⟨old, hold, -, hid, htext⟩
    · exact hnew row hrow hlt
    · rw [← htext, ← hid]
      exact h.rows old hold
  stamped := hstamped
  versions row hrow row' hrow' hstamp := by
    rcases hext.rows row hrow with hlt | ⟨old, hold, hs, hid, -⟩
    · exact hversions row hrow row' hrow' hlt hstamp
    · rcases hext.rows row' hrow' with hlt' | ⟨old', hold', hs', hid', -⟩
      · exact (hversions row' hrow' row hrow hlt' hstamp.symm).symm
      · rw [← hid, ← hid']
        exact h.versions old hold old' hold' (by rw [hs, hs', hstamp])
  jobs other := by
    by_cases hother : other = slot
    · rw [hother]
      exact hslot
    · rw [hothers other hother]
      exact hext.agreeing (h.jobs other)

/-- A step that makes no new rows. -/
theorem Agrees.of_rows (h : Agrees text chunkIdFor s) (hext : Extends s s') (slot : Slot)
    (hstamped : ∀ row ∈ s'.rows, row.stamp < s.nextStamp)
    (hothers : ∀ other, other ≠ slot → s'.job other = s.job other)
    (hslot : s'.Agreeing text chunkIdFor (s'.job slot)) : Agrees text chunkIdFor s' := by
  refine h.of_extends hext slot ?_ (fun row hrow => (hstamped row hrow).trans_le hext.nextStamp) ?_
    hothers hslot
  · intro row hrow hle
    exact absurd (hstamped row hrow) (by omega)
  · intro row hrow _ _ hle
    exact absurd (hstamped row hrow) (by omega)

/-- Two new rows with one stamp are one row. -/
theorem eq_of_mem_stampRows {next : ℕ} {chunks : List Chunk} {row row' : Stored V}
    (h : row ∈ stampRows chunkIdFor next chunks) (h' : row' ∈ stampRows chunkIdFor next chunks)
    (hstamp : row.stamp = row'.stamp) : row = row' := by
  obtain ⟨⟨r, k⟩, hmem, rfl⟩ := List.mem_map.mp h
  obtain ⟨⟨r', k'⟩, hmem', rfl⟩ := List.mem_map.mp h'
  obtain rfl : k = k' := hstamp
  have hr := List.mk_mem_zipIdx_iff_le_and_getElem?_sub.mp hmem
  have hr' := List.mk_mem_zipIdx_iff_le_and_getElem?_sub.mp hmem'
  rw [Option.some.inj (hr.2.symm.trans hr'.2)]

variable [DecidableEq Slot]

theorem Agrees.put (h : Agrees text chunkIdFor s) (slot : Slot) {job : Job V}
    (hjob : s.Agreeing text chunkIdFor job) : Agrees text chunkIdFor (s.put slot job) :=
  h.of_rows (Extends.refl_of_eq rfl rfl (List.Subset.refl _)) slot h.stamped
    (fun _ hother => s.job_put_of_ne slot hother job) (by rw [job_put_self]; exact hjob)

theorem Agrees.recordAnswer (h : Agrees text chunkIdFor s) (slot : Slot) (modelId : String)
    {writes : List (Write V)} (hwrites : ∀ w ∈ writes, w.text = text w.id) :
    Agrees text chunkIdFor (s.recordAnswer slot modelId writes) := by
  refine h.of_rows (extends_recordAnswer slot modelId writes) slot h.stamped
    (fun _ hother => s.job_put_of_ne slot hother _) ?_
  simp only [Jobs.recordAnswer, job_put_self, Agreeing]
  exact ⟨hwrites, by simp⟩

theorem Agrees.commitEmbed (h : Agrees text chunkIdFor s) (slot : Slot) (modelId : String)
    (done : List (ℕ × Write V)) : Agrees text chunkIdFor (s.commitEmbed slot modelId done) := by
  refine h.of_rows (extends_commitEmbed slot modelId done) slot ?_
    (fun _ hother => s.job_put_of_ne slot hother _) ?_
  · intro row' hrow'
    obtain ⟨row, hrow, rfl⟩ := List.mem_map.mp hrow'
    rw [(written_fields modelId done row).1]
    exact h.stamped row hrow
  · simp only [Jobs.commitEmbed, job_put_self, Agreeing]

/-- An ingestion commits chunks that have the texts of their ids. -/
theorem Agrees.commitIngest (h : Agrees text chunkIdFor s) (slot : Slot) (deleted : List ℕ)
    {inserted : List Chunk}
    (hchunks : ∀ chunk ∈ inserted, chunk.text = text (chunkIdFor chunk.ordinal)) :
    Agrees text chunkIdFor (s.commitIngest slot chunkIdFor deleted inserted) := by
  -- A row that is not older than the step is one of those that it inserts.
  have hnew : ∀ row ∈ (s.commitIngest slot chunkIdFor deleted inserted).rows,
      s.nextStamp ≤ row.stamp → row ∈ stampRows chunkIdFor s.nextStamp inserted := by
    intro row hrow hle
    rcases List.mem_append.mp hrow with hold | hnew
    · exact absurd (h.stamped row (List.mem_of_mem_filter hold)) (by omega)
    · exact hnew
  refine h.of_extends (extends_commitIngest slot deleted inserted) slot ?_ ?_ ?_
    (fun _ hother => s.job_put_of_ne slot hother _) ?_
  · intro row hrow hle
    obtain ⟨-, -, -, chunk, hchunk, htext, hid⟩ := mem_stampRows (hnew row hrow hle)
    rw [htext, hid]
    exact hchunks chunk hchunk
  · intro row hrow
    rcases List.mem_append.mp hrow with hold | hnew
    · exact (h.stamped row (List.mem_of_mem_filter hold)).trans_le (Nat.le_add_right ..)
    · exact (mem_stampRows hnew).2.2.1
  · intro row hrow row' hrow' hle hstamp
    rw [eq_of_mem_stampRows (hnew row hrow hle) (hnew row' hrow' (hstamp ▸ hle)) hstamp]
  · simp only [Jobs.commitIngest, job_put_self, Agreeing]

/-! ### Steps -/

theorem Agrees.startStep (h : Agrees text chunkIdFor s) {slot : Slot} {event : Event V}
    (hstep : s.startStep slot event = some s') : Agrees text chunkIdFor s' := by
  unfold Jobs.startStep at hstep
  split at hstep
  · obtain rfl := Option.some.inj hstep
    exact h.put slot trivial
  · obtain rfl := Option.some.inj hstep
    exact h.put slot trivial
  · cases hstep

variable [Fintype Slot]

theorem Agrees.ingestStep (h : Agrees text chunkIdFor s) {slot : Slot} {stage : IngestStage}
    {event : Event V} (hjob : s.job slot = .ingest stage)
    (hevent : Reproduces text chunkIdFor (slot, event))
    (hstep : s.ingestStep slot chunkIdFor stage event = some s') : Agrees text chunkIdFor s' := by
  have hagree := h.jobs slot
  rw [hjob] at hagree
  unfold Jobs.ingestStep at hstep
  split at hstep
  · obtain rfl := Option.some.inj hstep
    exact h.put slot trivial
  · obtain rfl := Option.some.inj hstep
    exact h.put slot hevent
  · obtain rfl := Option.some.inj hstep
    exact h.put slot hagree
  · split_ifs at hstep
    obtain rfl := Option.some.inj hstep
    exact h.put slot hagree
  · split_ifs at hstep
    obtain rfl := Option.some.inj hstep
    refine h.put slot ?_
    intro chunk hchunk
    exact hagree chunk (by simpa using hchunk)
  · obtain rfl := Option.some.inj hstep
    exact h.commitIngest slot _ fun chunk hchunk => hagree chunk (List.mem_append_left _ hchunk)
  · obtain rfl := Option.some.inj hstep
    exact h.put slot trivial
  · cases hstep

/-- What rows with the texts of their ids are to get is for those texts. -/
theorem text_writes {pending : List (ChunkRow V)} {vectors : List V}
    (h : ∀ row ∈ pending, row.text = text row.id) :
    ∀ w ∈ writes pending vectors, w.text = text w.id := by
  intro w hw
  obtain ⟨p, hp, rfl⟩ := List.mem_map.mp hw
  exact h p.1 (List.of_mem_zip hp).1

theorem Agrees.embedStep (h : Agrees text chunkIdFor s) {slot : Slot} {modelId : String}
    {stage : EmbedStage V} {event : Event V} (hjob : s.job slot = .embed modelId stage)
    (hstep : s.embedStep slot modelId stage event = some s') : Agrees text chunkIdFor s' := by
  have hagree := h.jobs slot
  rw [hjob] at hagree
  unfold Jobs.embedStep at hstep
  split at hstep
  · obtain rfl := Option.some.inj hstep
    refine h.put slot ?_
    intro row hrow
    obtain ⟨stored, hstored, rfl⟩ :=
      List.mem_map.mp (List.mem_of_mem_filter (List.mem_mergeSort.mp hrow))
    exact h.rows stored hstored
  · split_ifs at hstep
    obtain rfl := Option.some.inj hstep
    exact h.recordAnswer slot modelId (text_writes hagree)
  · split at hstep
    · rename_i w hw
      obtain rfl := Option.some.inj hstep
      refine h.put slot ⟨fun w' hw' => hagree.1 w' (List.mem_of_mem_eraseIdx hw'), ?_⟩
      intro p hp
      obtain ⟨row, hfind, rfl⟩ := Option.map_eq_some_iff.mp hp
      have hmem := List.mem_of_find?_eq_some hfind
      have hid : row.id = w.id := by simpa using List.find?_some hfind
      refine ⟨hagree.1 w (List.mem_of_getElem? hw), h.stamped row hmem, ?_⟩
      intro row' hrow' hstamp
      rw [h.versions row' hrow' row hmem hstamp, hid]
    · cases hstep
  · split_ifs at hstep
    · obtain rfl := Option.some.inj hstep
      exact h.put slot ⟨hagree.1, by simp⟩
    · obtain rfl := Option.some.inj hstep
      exact h.put slot ⟨hagree.1, by simp⟩
  · obtain rfl := Option.some.inj hstep
    exact h.commitEmbed slot modelId _
  · obtain rfl := Option.some.inj hstep
    exact h.put slot trivial
  · cases hstep

/-- A step of a reproducible chunking is fresh, and keeps the invariant. -/
theorem Agrees.step (h : Agrees text chunkIdFor s) {e : Slot × Event V}
    (hevent : Reproduces text chunkIdFor e) (hstep : step chunkIdFor s e = some s') :
    s.Fresh e ∧ Agrees text chunkIdFor s' := by
  constructor
  · intro _ p hp row hrow hstamp
    have hagree := h.jobs e.1
    cases hjob : s.job e.1 with
    | idle => rw [hjob] at hp; cases hp
    | ingest stage => rw [hjob] at hp; cases hp
    | embed modelId stage =>
        rw [hjob] at hp hagree
        cases stage with
        | started => cases hp
        | loaded pending => cases hp
        | writing todo begun done =>
            obtain ⟨htext, -, hrows⟩ := hagree.2 p hp
            rw [htext, ← hrows row hrow hstamp]
            exact h.rows row hrow
  · unfold Jobs.step at hstep
    cases hjob : s.job e.1 with
    | idle =>
        rw [hjob] at hstep
        exact h.startStep hstep
    | ingest stage =>
        rw [hjob] at hstep
        exact h.ingestStep hjob hevent hstep
    | embed modelId stage =>
        rw [hjob] at hstep
        exact h.embedStep hjob hstep

/-- **Reproducible chunking is enough.**  If there is a text for every id, and every
ingestion of the run gives every chunk the text of its id, then in every order of the
jobs' steps every `UPDATE` meets a row with the text that was sent to the provider. -/
theorem fresh_of_reproducible (text : Uuid → Str) (chunkIdFor : ℕ → Uuid)
    (events : List (Slot × Event V)) (h : ∀ e ∈ events, Reproduces text chunkIdFor e) :
    Every (Jobs.step chunkIdFor) Fresh {} events := by
  have hinit : Agrees text chunkIdFor ({} : Jobs Slot V) :=
    ⟨fun _ h => absurd h List.not_mem_nil, fun _ h => absurd h List.not_mem_nil,
      fun _ h => absurd h List.not_mem_nil, fun _ => trivial⟩
  refine every_of_invariant (I := Agrees text chunkIdFor) hinit ?_ h
  intro s e s' hs hevent hstep
  exact hs.step hevent hstep

/-- Then every stored embedding is one that was returned for its row's own text. -/
theorem belongs_of_reproducible (text : Uuid → Str) (chunkIdFor : ℕ → Uuid)
    (events : List (Slot × Event V)) (h : ∀ e ∈ events, Reproduces text chunkIdFor e) :
    Throughout (Jobs.step chunkIdFor) Belongs {} events :=
  inv_init.throughout (fresh_of_reproducible text chunkIdFor events h)

end Jobs
end Ingest
end EvidenceLab
