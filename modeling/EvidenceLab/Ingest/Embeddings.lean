/-
# Which text a stored embedding is of

A row that is deleted and inserted again keeps its id, so an embedding job that has
waited for the provider in the meantime writes the vector of the old text to the new
row: its `UPDATE` names the row by the id alone.  That is the only way in which an
embedding can come to a text it is not of (`embeddings_belong`).
-/

import EvidenceLab.Ingest.Jobs

namespace EvidenceLab
namespace Ingest
namespace Jobs

open Text Data EvidenceLab.Core Runs

variable {V Slot : Type} {chunkIdFor : ℕ → Uuid} {s s' : Jobs Slot V}

/-! ### The invariant -/

/-- What a job holds is backed by what the provider has returned: every vector still to
be written for the text that was sent, and every vector that is written for the text of
the row it is written to. -/
def Backed (s : Jobs Slot V) : Job V → Prop
  | .embed _ (.writing todo begun done) =>
      (∀ w ∈ todo, (w.text, w.vector) ∈ s.returned) ∧
      (∀ p ∈ begun, (p.2.text, p.2.vector) ∈ s.returned) ∧
      ∀ p ∈ done, p.1 < s.nextStamp ∧
        ∀ row ∈ s.rows, row.stamp = p.1 → (row.text, p.2.vector) ∈ s.returned
  | _ => True

/-- The invariant of the runs whose steps are fresh. -/
structure Inv (s : Jobs Slot V) : Prop where
  belongs : s.Belongs
  stamped : ∀ row ∈ s.rows, row.stamp < s.nextStamp
  backed : ∀ slot, s.Backed (s.job slot)

/-- What a step does to the rows and the record: every row is a version that was there,
with its id and text, or a new one; nothing is taken from the record. -/
structure Extends (s s' : Jobs Slot V) : Prop where
  returned : s.returned ⊆ s'.returned
  nextStamp : s.nextStamp ≤ s'.nextStamp
  rows : ∀ row' ∈ s'.rows, s.nextStamp ≤ row'.stamp ∨
    ∃ row ∈ s.rows, row.stamp = row'.stamp ∧ row.id = row'.id ∧ row.text = row'.text

/-- What is backed stays backed. -/
theorem Extends.backed (h : Extends s s') {job : Job V} (hjob : s.Backed job) : s'.Backed job := by
  unfold Backed at hjob ⊢
  split at hjob
  · obtain ⟨htodo, hbegun, hdone⟩ := hjob
    refine ⟨fun w hw => h.returned (htodo w hw), fun p hp => h.returned (hbegun p hp), ?_⟩
    intro p hp
    obtain ⟨hlt, hrows⟩ := hdone p hp
    refine ⟨hlt.trans_le h.nextStamp, ?_⟩
    intro row' hrow' hstamp
    rcases h.rows row' hrow' with hnew | ⟨row, hrow, hs, -, ht⟩
    · omega
    · rw [← ht]
      exact h.returned (hrows row hrow (hs.trans hstamp))
  · trivial

/-- The invariant after a step of one job: what the other jobs hold stays backed. -/
theorem Inv.of_extends (h : s.Inv) (hext : Extends s s') (slot : Slot) (hbelongs : s'.Belongs)
    (hstamped : ∀ row ∈ s'.rows, row.stamp < s'.nextStamp)
    (hothers : ∀ other, other ≠ slot → s'.job other = s.job other)
    (hslot : s'.Backed (s'.job slot)) : s'.Inv where
  belongs := hbelongs
  stamped := hstamped
  backed other := by
    by_cases hother : other = slot
    · rw [hother]
      exact hslot
    · rw [hothers other hother]
      exact hext.backed (h.backed other)

theorem Extends.refl_of_eq (hrows : s'.rows = s.rows) (hnext : s'.nextStamp = s.nextStamp)
    (hreturned : s.returned ⊆ s'.returned) : Extends s s' where
  returned := hreturned
  nextStamp := hnext.ge
  rows row hrow := Or.inr ⟨row, hrows ▸ hrow, rfl, rfl, rfl⟩

theorem inv_init : ({} : Jobs Slot V).Inv :=
  ⟨fun _ h => absurd h List.not_mem_nil, fun _ h => absurd h List.not_mem_nil, fun _ => trivial⟩

/-- A new row is one of a chunk, with no embedding. -/
theorem mem_stampRows {next : ℕ} {chunks : List Chunk} {row : Stored V}
    (h : row ∈ stampRows chunkIdFor next chunks) :
    row.embedding = none ∧ next ≤ row.stamp ∧ row.stamp < next + chunks.length ∧
      ∃ chunk ∈ chunks, row.text = chunk.text ∧ row.id = chunkIdFor chunk.ordinal := by
  obtain ⟨⟨chunkRow, stamp⟩, hmem, rfl⟩ := List.mem_map.mp h
  have hlen : (chunkRows chunkIdFor chunks : List (ChunkRow V)).length = chunks.length :=
    List.length_map _
  obtain ⟨chunk, hchunk, rfl⟩ := List.mem_map.mp (List.fst_mem_of_mem_zipIdx hmem)
  exact ⟨rfl, List.le_snd_of_mem_zipIdx hmem, hlen ▸ List.snd_lt_add_of_mem_zipIdx hmem,
    chunk, hchunk, rfl, rfl⟩

/-- What a job writes to a row leaves its version, its id and its text. -/
theorem written_fields (modelId : String) (done : List (ℕ × Write V)) (row : Stored V) :
    (written modelId done row).stamp = row.stamp ∧ (written modelId done row).id = row.id ∧
      (written modelId done row).text = row.text := by
  unfold written
  split <;> exact ⟨rfl, rfl, rfl⟩

/-- An embedding that is there after a job has written is the one that it wrote, or the
one that was there. -/
theorem embedding_written {modelId : String} {done : List (ℕ × Write V)} {row : Stored V}
    {vector : V} (h : (written modelId done row).embedding = some vector) :
    (∃ p ∈ done, row.stamp = p.1 ∧ p.2.vector = vector) ∨ row.embedding = some vector := by
  unfold written at h
  split at h
  · rename_i stamp w hfind
    have hstamp : stamp = row.stamp := by simpa using List.find?_some hfind
    exact Or.inl ⟨(stamp, w), List.mem_of_find?_eq_some hfind, hstamp.symm, Option.some.inj h⟩
  · exact Or.inr h

/-! ### Steps -/

variable [DecidableEq Slot]

/-- A job moves on, and the rows and the record stay as they are. -/
theorem Inv.put (h : s.Inv) (slot : Slot) {job : Job V} (hjob : s.Backed job) :
    (s.put slot job).Inv :=
  h.of_extends (Extends.refl_of_eq rfl rfl (List.Subset.refl _)) slot h.belongs h.stamped
    (fun _ hother => s.job_put_of_ne slot hother job) (by rw [job_put_self]; exact hjob)

theorem extends_recordAnswer (slot : Slot) (modelId : String) (writes : List (Write V)) :
    Extends s (s.recordAnswer slot modelId writes) :=
  Extends.refl_of_eq rfl rfl (List.subset_append_left _ _)

theorem extends_commitIngest (slot : Slot) (deleted : List ℕ) (inserted : List Chunk) :
    Extends s (s.commitIngest slot chunkIdFor deleted inserted) where
  returned := List.Subset.refl _
  nextStamp := Nat.le_add_right ..
  rows row hrow := by
    rcases List.mem_append.mp hrow with hold | hnew
    · exact Or.inr ⟨row, List.mem_of_mem_filter hold, rfl, rfl, rfl⟩
    · exact Or.inl (mem_stampRows hnew).2.1

theorem extends_commitEmbed (slot : Slot) (modelId : String) (done : List (ℕ × Write V)) :
    Extends s (s.commitEmbed slot modelId done) where
  returned := List.Subset.refl _
  nextStamp := le_refl _
  rows row' hrow' := by
    obtain ⟨row, hrow, rfl⟩ := List.mem_map.mp hrow'
    obtain ⟨hstamp, hid, htext⟩ := written_fields modelId done row
    exact Or.inr ⟨row, hrow, hstamp.symm, hid.symm, htext.symm⟩

/-- The provider's answer backs what is to be written. -/
theorem Inv.recordAnswer (h : s.Inv) (slot : Slot) (modelId : String) (writes : List (Write V)) :
    (s.recordAnswer slot modelId writes).Inv := by
  refine h.of_extends (extends_recordAnswer slot modelId writes) slot ?_ h.stamped
    (fun _ hother => s.job_put_of_ne slot hother _) ?_
  · intro row hrow vector hvector
    exact List.mem_append_left _ (h.belongs row hrow vector hvector)
  · simp only [Jobs.recordAnswer, job_put_self, Backed]
    refine ⟨?_, by simp, by simp⟩
    intro w hw
    exact List.mem_append_right _ (List.mem_map_of_mem hw)

/-- An ingestion commits: the rows it has inserted have no embedding. -/
theorem Inv.commitIngest (h : s.Inv) (slot : Slot) (deleted : List ℕ) (inserted : List Chunk) :
    (s.commitIngest slot chunkIdFor deleted inserted).Inv := by
  refine h.of_extends (extends_commitIngest slot deleted inserted) slot ?_ ?_
    (fun _ hother => s.job_put_of_ne slot hother _) ?_
  · intro row hrow vector hvector
    rcases List.mem_append.mp hrow with hold | hnew
    · exact h.belongs row (List.mem_of_mem_filter hold) vector hvector
    · cases (mem_stampRows hnew).1.symm.trans hvector
  · intro row hrow
    rcases List.mem_append.mp hrow with hold | hnew
    · exact (h.stamped row (List.mem_of_mem_filter hold)).trans_le (Nat.le_add_right ..)
    · exact (mem_stampRows hnew).2.2.1
  · simp only [Jobs.commitIngest, job_put_self, Backed]

/-- An embedding job commits: what it has written is of the text of the row. -/
theorem Inv.commitEmbed (h : s.Inv) (slot : Slot) (modelId : String) {done : List (ℕ × Write V)}
    (hdone : ∀ p ∈ done, ∀ row ∈ s.rows, row.stamp = p.1 → (row.text, p.2.vector) ∈ s.returned) :
    (s.commitEmbed slot modelId done).Inv := by
  refine h.of_extends (extends_commitEmbed slot modelId done) slot ?_ ?_
    (fun _ hother => s.job_put_of_ne slot hother _) ?_
  · intro row' hrow' vector hvector
    obtain ⟨row, hrow, rfl⟩ := List.mem_map.mp hrow'
    rw [(written_fields modelId done row).2.2]
    rcases embedding_written hvector with ⟨p, hp, hstamp, rfl⟩ | hold
    · exact hdone p hp row hrow hstamp
    · exact h.belongs row hrow vector hold
  · intro row' hrow'
    obtain ⟨row, hrow, rfl⟩ := List.mem_map.mp hrow'
    rw [(written_fields modelId done row).1]
    exact h.stamped row hrow
  · simp only [Jobs.commitEmbed, job_put_self, Backed]

/-- A free slot takes a job and the invariant is kept. -/
theorem Inv.startStep (h : s.Inv) {slot : Slot} {event : Event V}
    (hstep : s.startStep slot event = some s') : s'.Inv := by
  unfold Jobs.startStep at hstep
  split at hstep
  · obtain rfl := Option.some.inj hstep
    exact h.put slot trivial
  · obtain rfl := Option.some.inj hstep
    exact h.put slot trivial
  · cases hstep

variable [Fintype Slot]

/-- A step of an ingestion keeps the invariant. -/
theorem Inv.ingestStep (h : s.Inv) {slot : Slot} {stage : IngestStage} {event : Event V}
    (hstep : s.ingestStep slot chunkIdFor stage event = some s') : s'.Inv := by
  unfold Jobs.ingestStep at hstep
  split at hstep
  · obtain rfl := Option.some.inj hstep
    exact h.put slot trivial
  · obtain rfl := Option.some.inj hstep
    exact h.put slot trivial
  · obtain rfl := Option.some.inj hstep
    exact h.put slot trivial
  · split_ifs at hstep
    obtain rfl := Option.some.inj hstep
    exact h.put slot trivial
  · split_ifs at hstep
    obtain rfl := Option.some.inj hstep
    exact h.put slot trivial
  · obtain rfl := Option.some.inj hstep
    exact h.commitIngest slot _ _
  · obtain rfl := Option.some.inj hstep
    exact h.put slot trivial
  · cases hstep

/-- A step of an embedding job keeps the invariant, unless it writes to a row that has
another text. -/
theorem Inv.embedStep (h : s.Inv) {slot : Slot} {modelId : String} {stage : EmbedStage V}
    {event : Event V} (hjob : s.job slot = .embed modelId stage)
    (hstep : s.embedStep slot modelId stage event = some s') (hfresh : s.Fresh (slot, event)) :
    s'.Inv := by
  have hbacked := h.backed slot
  rw [hjob] at hbacked
  unfold Jobs.embedStep at hstep
  split at hstep
  · obtain rfl := Option.some.inj hstep
    exact h.put slot trivial
  · split_ifs at hstep
    obtain rfl := Option.some.inj hstep
    exact h.recordAnswer slot modelId _
  · obtain ⟨htodo, -, hdone⟩ := hbacked
    split at hstep
    · rename_i w hw
      obtain rfl := Option.some.inj hstep
      refine h.put slot ⟨fun w' hw' => htodo w' (List.mem_of_mem_eraseIdx hw'), ?_, hdone⟩
      intro p hp
      obtain ⟨row, -, rfl⟩ := Option.map_eq_some_iff.mp hp
      exact htodo w (List.mem_of_getElem? hw)
    · cases hstep
  · rename_i todo stamp w done
    obtain ⟨htodo, hbegun, hdone⟩ := hbacked
    split_ifs at hstep with hlocked hthere
    · obtain rfl := Option.some.inj hstep
      refine h.put slot ⟨htodo, by simp, ?_⟩
      intro p hp
      rcases List.mem_append.mp hp with hp | hp
      · exact hdone p hp
      · -- The row that is written to has the text the vector was returned for.
        obtain rfl := List.mem_singleton.mp hp
        obtain ⟨row, hrow, hstamp⟩ := List.mem_map.mp hthere
        refine ⟨hstamp ▸ h.stamped row hrow, ?_⟩
        intro row' hrow' hstamp'
        rw [hfresh rfl (stamp, w) (by rw [hjob]; rfl) row' hrow' hstamp']
        exact hbegun (stamp, w) rfl
    · obtain rfl := Option.some.inj hstep
      exact h.put slot ⟨htodo, by simp, hdone⟩
  · obtain rfl := Option.some.inj hstep
    exact h.commitEmbed slot modelId fun p hp => (hbacked.2.2 p hp).2
  · obtain rfl := Option.some.inj hstep
    exact h.put slot trivial
  · cases hstep

/-- **A step keeps the invariant**, unless it writes to a row that has another text. -/
theorem Inv.step (h : s.Inv) {e : Slot × Event V} (hstep : step chunkIdFor s e = some s')
    (hfresh : s.Fresh e) : s'.Inv := by
  unfold Jobs.step at hstep
  cases hjob : s.job e.1 with
  | idle =>
      rw [hjob] at hstep
      exact h.startStep hstep
  | ingest stage =>
      rw [hjob] at hstep
      exact h.ingestStep hstep
  | embed modelId stage =>
      rw [hjob] at hstep
      exact h.embedStep hjob hstep hfresh

/-! ### Every run -/

theorem Inv.throughout (h : s.Inv) {events : List (Slot × Event V)}
    (hfresh : Every (Jobs.step chunkIdFor) Fresh s events) :
    Throughout (Jobs.step chunkIdFor) Belongs s events :=
  throughout_of_every h (fun _ _ _ hs hstep hok => hs.step hstep hok) (fun _ => Inv.belongs) hfresh

/-- **Embeddings belong to their texts.**  Whatever chunks each ingestion produces,
whatever the provider answers and in whatever order the jobs take their steps: in a run
in which every `UPDATE` that writes to a row meets a row with the text that was sent to
the provider, every stored embedding is, in every state, one that was returned for the
row's own text. -/
theorem embeddings_belong (chunkIdFor : ℕ → Uuid) (events : List (Slot × Event V))
    (h : Every (Jobs.step chunkIdFor) Fresh {} events) :
    Throughout (Jobs.step chunkIdFor) Belongs {} events :=
  inv_init.throughout h

/-- An ingestion of one chunk, in the one of two slots. -/
def sampleIngestion (text : Str) : List (Bool × Event ℕ) :=
  [.startIngest, .parse, .chunk [{ text, ordinal := 0, tokenCount := 1 }], .delete, .deleted,
    .insert, .commit].map fun event => (false, event)

/-- An embedding job in the other slot, up to where it waits for the provider, and from there. -/
def sampleLoad : List (Bool × Event ℕ) :=
  [.startEmbed "mistral-embed", .load].map fun event => (true, event)

def sampleWrite : List (Bool × Event ℕ) :=
  [.answer [7], .update 0, .updated, .commit].map fun event => (true, event)

/-- An embedding job, and an ingestion of another text after it. -/
theorem embeddings_belong_sample :
    Throughout (step fun ordinal => Fin.ofNat _ ordinal) Belongs {}
      (sampleIngestion [0x61] ++ sampleLoad ++ sampleWrite ++ sampleIngestion [0x62]) :=
  embeddings_belong _ _ (by decide +kernel)

/-- The same with the ingestion while the job waits for the provider: when no job is
running any more, the second text has the embedding of the first. -/
theorem embeddings_belong_fails :
    ¬ Throughout (step fun ordinal => Fin.ofNat _ ordinal) (fun s => s.Quiet → s.Belongs) {}
      (sampleIngestion [0x61] ++ sampleLoad ++ sampleIngestion [0x62] ++ sampleWrite) := by
  decide +kernel

end Jobs
end Ingest
end EvidenceLab
