/-
# A job that runs alone

When no other job is running, nothing is locked and no key is taken, so a job gets to
its commit.  An ingestion then leaves the rows of its chunks (`leads_ingestion`), and an
embedding job the rows that `setEmbeddings` makes (`leads_embedding`): the jobs do one
step at a time what the programs of the pipeline do.  All their steps are fresh.
-/

import EvidenceLab.Ingest.Embeddings
import Mathlib.Data.List.Find
import Mathlib.Data.List.Nodup

namespace EvidenceLab
namespace Ingest
namespace Jobs

open Text Data EvidenceLab.Core Runs

variable {V Slot : Type} {chunkIdFor : ℕ → Uuid} {s : Jobs Slot V} {slot : Slot}

/-! ### No other job -/

/-- No job is running in any other slot. -/
def Alone (s : Jobs Slot V) (slot : Slot) : Prop := ∀ other, other ≠ slot → s.job other = .idle

theorem Quiet.job_eq_idle (h : s.Quiet) (slot : Slot) : s.job slot = .idle := by
  have := h slot
  cases hjob : s.job slot with
  | idle => rfl
  | ingest stage => rw [hjob] at this; cases this
  | embed modelId stage => rw [hjob] at this; cases this

theorem Quiet.alone (h : s.Quiet) (slot : Slot) : s.Alone slot := fun other _ => h.job_eq_idle other

/-- When the one job that may be running ends, none is. -/
theorem Alone.quiet (h : s.Alone slot) (hidle : s.job slot = .idle) : s.Quiet := by
  intro other
  by_cases hother : other = slot
  · rw [hother, hidle]
    rfl
  · rw [h other hother]
    rfl

/-- Nothing is locked. -/
theorem Alone.not_locked (h : s.Alone slot) (stamps : List ℕ) : ¬ s.Locked slot stamps := by
  rintro ⟨other, hother, row, -, -, hlocks⟩
  rw [h other hother] at hlocks
  exact absurd hlocks List.not_mem_nil

/-- Only an `UPDATE` that is carried out can fail to be fresh. -/
theorem fresh_of_not_updated {e : Slot × Event V} (h : e.2.isUpdated = false) : s.Fresh e :=
  fun hu => by cases hu.symm.trans h

/-! ### Rows -/

/-- The chunk rows, whichever versions they are. -/
def view (s : Jobs Slot V) : List (ChunkRow V) := s.rows.map (·.toChunkRow)

/-- The rows have different ids, and are different versions. -/
structure Distinct (s : Jobs Slot V) : Prop where
  ids : (s.rows.map (·.id)).Nodup
  stamps : (s.rows.map (·.stamp)).Nodup

theorem Distinct.eq_of_id (h : s.Distinct) {row row' : Stored V} (hrow : row ∈ s.rows)
    (hrow' : row' ∈ s.rows) (hid : row.id = row'.id) : row = row' :=
  List.inj_on_of_nodup_map h.ids hrow hrow' hid

theorem Distinct.eq_of_stamp (h : s.Distinct) {row row' : Stored V} (hrow : row ∈ s.rows)
    (hrow' : row' ∈ s.rows) (hstamp : row.stamp = row'.stamp) : row = row' :=
  List.inj_on_of_nodup_map h.stamps hrow hrow' hstamp

/-- The version of the row with an id. -/
def stampOf (s : Jobs Slot V) (id : Uuid) : ℕ := ((s.rows.find? (·.id = id)).map (·.stamp)).getD 0

theorem Distinct.find?_id (h : s.Distinct) {row : Stored V} (hrow : row ∈ s.rows) :
    s.rows.find? (·.id = row.id) = some row := by
  cases hfind : s.rows.find? (·.id = row.id) with
  | none => exact absurd (List.find?_eq_none.mp hfind row hrow) (by simp)
  | some row' =>
      have hid : row'.id = row.id := by simpa using List.find?_some hfind
      rw [h.eq_of_id (List.mem_of_find?_eq_some hfind) hrow hid]

theorem Distinct.stampOf_id (h : s.Distinct) {row : Stored V} (hrow : row ∈ s.rows) :
    s.stampOf row.id = row.stamp := by
  rw [stampOf, h.find?_id hrow, Option.map_some, Option.getD_some]

theorem map_toChunkRow_stampRows (next : ℕ) (chunks : List Chunk) :
    (stampRows chunkIdFor next chunks : List (Stored V)).map (·.toChunkRow) =
      chunkRows chunkIdFor chunks := by
  rw [stampRows, List.map_map]
  exact List.zipIdx_map_fst next _

/-- Chunks that do not clash make different rows. -/
theorem nodup_stampRows (next : ℕ) {chunks : List Chunk}
    (hclash : chunks.Pairwise fun a b => ¬ Clash chunkIdFor a b) :
    ((stampRows chunkIdFor next chunks : List (Stored V)).map (·.id)).Nodup ∧
      ((stampRows chunkIdFor next chunks : List (Stored V)).map (·.stamp)).Nodup := by
  constructor
  · have hids : (stampRows chunkIdFor next chunks : List (Stored V)).map (·.id) =
        chunks.map fun chunk => chunkIdFor chunk.ordinal := by
      have h := congrArg (List.map ChunkRow.id)
        (show (stampRows chunkIdFor next chunks : List (Stored V)).map (·.toChunkRow) = _ from
          map_toChunkRow_stampRows next chunks)
      rw [List.map_map, chunkRows, List.map_map] at h
      exact h
    rw [hids]
    exact List.pairwise_map.mpr (hclash.imp fun h heq => h (Or.inl heq))
  · have hstamps : (stampRows chunkIdFor next chunks : List (Stored V)).map (·.stamp) =
        List.range' next chunks.length := by
      rw [stampRows, List.map_map]
      exact (List.zipIdx_map_snd next _).trans (by rw [chunkRows, List.length_map])
    rw [hstamps]
    exact List.nodup_range'

/-- The writes of a job that has embedded these rows, each with the version it is for. -/
def writesTo (s : Jobs Slot V) (embedded : List (ChunkRow V × V)) : List (ℕ × Write V) :=
  embedded.map fun p => (s.stampOf p.1.id, ⟨p.1.id, p.1.text, p.2⟩)

/-- What is found by the version of a row among these writes is what is found by its id
among what was embedded. -/
theorem Distinct.find?_writesTo (hd : s.Distinct) {embedded : List (ChunkRow V × V)}
    (hmem : ∀ p ∈ embedded, p.1 ∈ s.view) {row : Stored V} (hrow : row ∈ s.rows) :
    (s.writesTo embedded).find? (·.1 = row.stamp) =
      (embedded.find? (·.1.id = row.id)).map fun p =>
        (s.stampOf p.1.id, ⟨p.1.id, p.1.text, p.2⟩) := by
  rw [writesTo, List.find?_map]
  congr 1
  refine List.find?_congr fun p hp => ?_
  obtain ⟨row', hrow', hp'⟩ := List.mem_map.mp (hmem p hp)
  have hstamp : s.stampOf p.1.id = row'.stamp := hp' ▸ hd.stampOf_id hrow'
  have hid : row'.id = p.1.id := hp' ▸ rfl
  rw [Function.comp_apply, hstamp, ← hid, decide_eq_decide]
  constructor
  · intro h
    rw [hd.eq_of_stamp hrow' hrow h]
  · intro h
    rw [hd.eq_of_id hrow' hrow h]

/-- What the writes of an embedding job make of the rows is what `setEmbeddings` makes
of them. -/
theorem Distinct.view_written (hd : s.Distinct) {modelId : String}
    {embedded : List (ChunkRow V × V)} (hmem : ∀ p ∈ embedded, p.1 ∈ s.view)
    (document : Option Document) :
    (s.rows.map (written modelId (s.writesTo embedded))).map (·.toChunkRow) =
      (Store.setEmbeddings modelId embedded ⟨document, s.view⟩).chunks := by
  rw [Store.setEmbeddings, view, List.map_map, List.map_map]
  refine List.map_congr_left fun row hrow => ?_
  simp only [Function.comp_apply, written, hd.find?_writesTo hmem hrow]
  cases embedded.find? (·.1.id = row.id) with
  | none => rfl
  | some p => rfl

/-- A pending chunk is one of the rows. -/
theorem mem_of_mem_pendingChunks {modelId : String} {rows : List (ChunkRow V)} {row : ChunkRow V}
    (h : row ∈ pendingChunks modelId rows) : row ∈ rows :=
  List.mem_of_mem_filter (List.mem_mergeSort.mp h)

/-! ### What a job does -/

/-- What an ingestion does. -/
def ingestion (slot : Slot) (chunks : List Chunk) : List (Slot × Event V) :=
  [(slot, .startIngest), (slot, .parse), (slot, .chunk chunks), (slot, .delete),
    (slot, .deleted)] ++ List.replicate chunks.length (slot, .insert) ++ [(slot, .commit)]

/-- What an embedding job does that writes to some rows. -/
def embedding (slot : Slot) (modelId : String) (vectors : List V) : List (Slot × Event V) :=
  [(slot, .startEmbed modelId), (slot, .load), (slot, .answer vectors)] ++
    (List.replicate vectors.length [(slot, .update 0), (slot, .updated)]).flatten ++
    [(slot, .commit)]

/-- A write is for a row that is there, with the text that was sent. -/
def Meant (s : Jobs Slot V) (w : Write V) : Prop :=
  ∃ row ∈ s.rows, row.id = w.id ∧ row.text = w.text

section Leads

variable [DecidableEq Slot]

theorem Quiet.put_idle (h : s.Quiet) (slot : Slot) : s.put slot .idle = s := by
  rw [← h.job_eq_idle slot, put, Function.update_eq_self]

@[simp] theorem put_put (job job' : Job V) : (s.put slot job).put slot job' = s.put slot job' := by
  simp only [put, Function.update_idem]

theorem Alone.put (h : s.Alone slot) (job : Job V) : (s.put slot job).Alone slot :=
  fun other hother => (s.job_put_of_ne slot hother job).trans (h other hother)

/-- What a job writes leaves the ids and the versions as they are. -/
theorem Distinct.commitEmbed (hd : s.Distinct) (slot : Slot) (modelId : String)
    (done : List (ℕ × Write V)) : (s.commitEmbed slot modelId done).Distinct where
  ids := by
    rw [Jobs.commitEmbed, List.map_map]
    exact (List.map_congr_left fun row _ => (written_fields modelId done row).2.1) ▸ hd.ids
  stamps := by
    rw [Jobs.commitEmbed, List.map_map]
    exact (List.map_congr_left fun row _ => (written_fields modelId done row).1) ▸ hd.stamps

variable [Fintype Slot]

theorem step_put (job : Job V) (event : Event V) :
    step chunkIdFor (s.put slot job) (slot, event) =
      match job with
      | .idle => (s.put slot job).startStep slot event
      | .ingest stage => (s.put slot job).ingestStep slot chunkIdFor stage event
      | .embed modelId stage => (s.put slot job).embedStep slot modelId stage event := by
  cases job <;> simp only [step, job_put_self]

/-! ### Ingestion -/

/-- The inserts, by induction on what is still to be inserted: every row has been
deleted, and what has been inserted has other keys. -/
theorem leads_inserts (halone : s.Alone slot) {deleted : List ℕ}
    (hdeleted : ∀ row ∈ s.rows, row.stamp ∈ deleted) {todo inserted : List Chunk}
    (hclash : (inserted ++ todo).Pairwise fun a b => ¬ Clash chunkIdFor a b) :
    Leads (step chunkIdFor) Fresh
      (s.put slot (.ingest (.inserting deleted todo inserted)))
      (List.replicate todo.length (slot, .insert))
      (s.put slot (.ingest (.inserting deleted [] (inserted ++ todo)))) := by
  induction todo generalizing inserted with
  | nil =>
      rw [List.append_nil]
      exact .nil _
  | cons chunk todo ih =>
      have hfree : ¬ (s.put slot (.ingest (.inserting deleted (chunk :: todo) inserted))).Taken
          chunkIdFor deleted chunk := by
        rintro (⟨row, hrow, hnot, -⟩ | ⟨other, chunk', hchunk', hc⟩)
        · exact hnot (hdeleted row hrow)
        · by_cases hother : other = slot
          · rw [hother, job_put_self] at hchunk'
            exact (List.pairwise_append.mp hclash).2.2 chunk' hchunk' chunk
              (List.mem_cons_self ..) hc
          · rw [halone.put _ other hother] at hchunk'
            exact absurd hchunk' List.not_mem_nil
      have hnext : (inserted ++ [chunk]) ++ todo = inserted ++ chunk :: todo := by simp
      have hrest := ih (show ((inserted ++ [chunk]) ++ todo).Pairwise _ from hnext ▸ hclash)
      rw [hnext] at hrest
      refine .cons ?_ (fresh_of_not_updated rfl) hrest
      rw [step_put]
      simp only [ingestStep, if_neg hfree, put_put]

/-- **An ingestion that runs alone** leaves the rows of its chunks. -/
theorem leads_ingestion (hq : s.Quiet) (slot : Slot) {chunks : List Chunk}
    (hclash : chunks.Pairwise fun a b => ¬ Clash chunkIdFor a b) :
    ∃ s', Leads (step chunkIdFor) Fresh s (ingestion slot chunks) s' ∧ s'.Quiet ∧ s'.Distinct ∧
      s'.view = chunkRows chunkIdFor chunks ∧ s'.returned = s.returned := by
  have halone := hq.alone slot
  have hdeleted : ∀ row ∈ s.rows, row.stamp ∈ s.rows.map (·.stamp) :=
    fun row hrow => List.mem_map_of_mem hrow
  have hrows : (s.commitIngest slot chunkIdFor (s.rows.map (·.stamp)) chunks).rows =
      stampRows chunkIdFor s.nextStamp chunks := by
    have hgone : s.rows.filter (fun row => row.stamp ∉ s.rows.map (·.stamp)) = [] :=
      List.filter_eq_nil_iff.mpr fun row hrow => by simpa using ⟨row, hrow, rfl⟩
    simp only [commitIngest, hgone, List.nil_append]
  obtain ⟨hids, hstamps⟩ := nodup_stampRows (V := V) s.nextStamp hclash
  have hinserts : Leads (step chunkIdFor) Fresh
      (s.put slot (.ingest (.inserting (s.rows.map (·.stamp)) chunks []))) _ _ :=
    leads_inserts halone hdeleted hclash
  refine ⟨s.commitIngest slot chunkIdFor (s.rows.map (·.stamp)) chunks, ?_,
    (halone.put .idle).quiet (s.job_put_self slot .idle), ⟨hrows ▸ hids, hrows ▸ hstamps⟩, ?_, rfl⟩
  · rw [← hq.put_idle slot]
    refine Leads.append (Leads.append ?_ hinserts) ?_
    · refine .cons (m := s.put slot (.ingest .started)) ?_ (fresh_of_not_updated rfl) ?_
      · rw [step_put]
        simp only [startStep, put_put]
      refine .cons (m := s.put slot (.ingest .parsing)) ?_ (fresh_of_not_updated rfl) ?_
      · rw [step_put]
        simp only [ingestStep, put_put]
      refine .cons (m := s.put slot (.ingest (.chunking chunks))) ?_ (fresh_of_not_updated rfl) ?_
      · rw [step_put]
        simp only [ingestStep, put_put]
      refine .cons (m := s.put slot (.ingest (.deleting chunks (s.rows.map (·.stamp))))) ?_
        (fresh_of_not_updated rfl) ?_
      · rw [step_put]
        simp only [ingestStep, put_put, rows_put]
      refine .cons ?_ (fresh_of_not_updated rfl) (.nil _)
      rw [step_put]
      simp only [ingestStep, if_neg ((halone.put _).not_locked _), put_put]
    · refine .cons ?_ (fresh_of_not_updated rfl) (.nil _)
      rw [step_put]
      simp only [ingestStep, commitIngest, put_put, rows_put, nextStamp_put]
      rfl
  · rw [view, hrows, map_toChunkRow_stampRows]

/-! ### Embedding -/

/-- The updates, by induction on what is still to be written. -/
theorem leads_updates (halone : s.Alone slot) (hd : s.Distinct) {modelId : String}
    {todo : List (Write V)} {done : List (ℕ × Write V)} (htodo : ∀ w ∈ todo, s.Meant w) :
    Leads (step chunkIdFor) Fresh (s.put slot (.embed modelId (.writing todo none done)))
      (List.replicate todo.length [(slot, .update 0), (slot, .updated)]).flatten
      (s.put slot (.embed modelId
        (.writing [] none (done ++ todo.map fun w => (s.stampOf w.id, w))))) := by
  induction todo generalizing done with
  | nil =>
      rw [List.map_nil, List.append_nil]
      exact .nil _
  | cons w todo ih =>
      obtain ⟨row, hrow, hid, htext⟩ := htodo w (List.mem_cons_self ..)
      have hfind : s.rows.find? (·.id = w.id) = some row := hid ▸ hd.find?_id hrow
      have hstamp : s.stampOf w.id = row.stamp := hid ▸ hd.stampOf_id hrow
      have hthere : row.stamp ∈ s.rows.map (·.stamp) := List.mem_map_of_mem hrow
      have hnext : done ++ (w :: todo).map (fun w => (s.stampOf w.id, w)) =
          (done ++ [(row.stamp, w)]) ++ todo.map fun w => (s.stampOf w.id, w) := by
        rw [List.map_cons, hstamp, List.append_assoc, List.singleton_append]
      rw [hnext]
      refine .cons (m := s.put slot (.embed modelId (.writing todo (some (row.stamp, w)) done))) ?_
        (fresh_of_not_updated rfl) ?_
      · rw [step_put]
        simp only [embedStep, List.getElem?_cons_zero, rows_put, hfind, Option.map_some, put_put,
          List.eraseIdx_cons_zero]
      refine .cons ?_ ?_ (ih fun w hw => htodo w (List.mem_cons_of_mem _ hw))
      · rw [step_put]
        simp only [embedStep, if_neg ((halone.put _).not_locked _), rows_put, if_pos hthere,
          put_put]
      · intro _ p hp row' hrow' hstamp'
        rw [job_put_self] at hp
        obtain rfl := Option.some.inj hp
        rw [hd.eq_of_stamp hrow' hrow hstamp', htext]

/-- **An embedding job that runs alone** leaves the rows with the vectors it got. -/
theorem leads_embedding (hq : s.Quiet) (hd : s.Distinct) (slot : Slot) {modelId : String}
    {vectors : List V} (hpending : pendingChunks modelId s.view ≠ [])
    (hlen : vectors.length = (pendingChunks modelId s.view).length) (document : Option Document) :
    ∃ s', Leads (step chunkIdFor) Fresh s (embedding slot modelId vectors) s' ∧ s'.Quiet ∧
      s'.Distinct ∧
      s'.view = (Store.setEmbeddings modelId ((pendingChunks modelId s.view).zip vectors)
        ⟨document, s.view⟩).chunks ∧
      s'.returned = s.returned ++
        ((pendingChunks modelId s.view).map (·.text)).zip vectors := by
  have hmem : ∀ p ∈ (pendingChunks modelId s.view).zip vectors, p.1 ∈ s.view :=
    fun p hp => mem_of_mem_pendingChunks (List.of_mem_zip hp).1
  -- The state once the provider has answered.
  let t : Jobs Slot V := { s with
    returned := s.returned ++
      (writes (pendingChunks modelId s.view) vectors).map fun w => (w.text, w.vector) }
  have halone : t.Alone slot := hq.alone slot
  have hdt : t.Distinct := ⟨hd.ids, hd.stamps⟩
  have hmeant : ∀ w ∈ writes (pendingChunks modelId s.view) vectors, t.Meant w := by
    intro w hw
    obtain ⟨p, hp, rfl⟩ := List.mem_map.mp hw
    obtain ⟨row, hrow, hp'⟩ := List.mem_map.mp (hmem p hp)
    exact ⟨row, hrow, hp' ▸ rfl, hp' ▸ rfl⟩
  have hlength : (writes (pendingChunks modelId s.view) vectors).length = vectors.length := by
    simp [writes, hlen]
  have hupdates : Leads (step chunkIdFor) Fresh (t.put slot (.embed modelId
      (.writing (writes (pendingChunks modelId s.view) vectors) none []))) _ _ :=
    leads_updates halone hdt hmeant
  rw [hlength, List.nil_append, writes, List.map_map] at hupdates
  refine ⟨t.commitEmbed slot modelId (t.writesTo ((pendingChunks modelId s.view).zip vectors)), ?_,
    (Alone.put halone .idle).quiet (t.job_put_self slot .idle),
    hdt.commitEmbed slot modelId _, hdt.view_written hmem document, ?_⟩
  · rw [← hq.put_idle slot]
    refine Leads.append (Leads.append ?_ hupdates) ?_
    · refine .cons (m := s.put slot (.embed modelId .started)) ?_ (fresh_of_not_updated rfl) ?_
      · rw [step_put]
        simp only [startStep, put_put]
      refine .cons (m := s.put slot (.embed modelId (.loaded (pendingChunks modelId s.view)))) ?_
        (fresh_of_not_updated rfl) ?_
      · rw [step_put]
        simp only [embedStep, put_put, rows_put]
        rfl
      refine .cons ?_ (fresh_of_not_updated rfl) (.nil _)
      rw [step_put]
      simp only [embedStep, if_pos (And.intro hpending hlen), recordAnswer, put_put]
      rfl
    · refine .cons ?_ (fresh_of_not_updated rfl) (.nil _)
      rw [step_put]
      simp only [embedStep, commitEmbed, put_put, rows_put]
      rfl
  · simp only [Jobs.commitEmbed, t, writes, List.map_map, List.zip_map_left]
    rfl

end Leads

end Jobs
end Ingest
end EvidenceLab
