/-
# The keys of chunk rows

However jobs overlap, no two committed rows have the same id (`keyed_of_run`).  An `INSERT` is
kept from a key that is taken, by a row or by what some job has inserted and not committed; a row
that the job itself has deleted does not count, and goes when it commits.
-/

import EvidenceLab.Ingest.Alone

namespace EvidenceLab
namespace Ingest
namespace Jobs

open Text Data EvidenceLab.Core Runs

variable {V Slot : Type} {chunkIdFor : ℕ → Uuid} {s s' : Jobs Slot V} {slot : Slot}

/-! ### The invariant -/

/-- Every key is held once: by a row, or by a chunk that a job has inserted; besides, a job may
insert what it has deleted. -/
structure Keyed (chunkIdFor : ℕ → Uuid) (s : Jobs Slot V) : Prop where
  ids : (s.rows.map (·.id)).Nodup
  inserted : ∀ slot, (s.job slot).inserted.Pairwise fun a b => ¬ Clash chunkIdFor a b
  apart : ∀ slot other, slot ≠ other → ∀ a ∈ (s.job slot).inserted, ∀ b ∈ (s.job other).inserted,
    ¬ Clash chunkIdFor a b
  rows : ∀ slot, ∀ chunk ∈ (s.job slot).inserted, ∀ row ∈ s.rows, row.stamp ∉ (s.job slot).locks →
    row.id ≠ chunkIdFor chunk.ordinal

theorem Keyed.eq_of_id (h : s.Keyed chunkIdFor) {row row' : Stored V} (hrow : row ∈ s.rows)
    (hrow' : row' ∈ s.rows) (hid : row.id = row'.id) : row = row' :=
  List.inj_on_of_nodup_map h.ids hrow hrow' hid

/-- The rows change, and the other jobs hold what they held. -/
theorem Keyed.of_others (h : s.Keyed chunkIdFor) (slot : Slot)
    (hothers : ∀ other, other ≠ slot → s'.job other = s.job other)
    (hids : (s'.rows.map (·.id)).Nodup)
    (hinserted : (s'.job slot).inserted.Pairwise fun a b => ¬ Clash chunkIdFor a b)
    (hapart : ∀ other, other ≠ slot → ∀ a ∈ (s'.job slot).inserted, ∀ b ∈ (s.job other).inserted,
      ¬ Clash chunkIdFor a b)
    (hslot : ∀ chunk ∈ (s'.job slot).inserted, ∀ row ∈ s'.rows,
      row.stamp ∉ (s'.job slot).locks → row.id ≠ chunkIdFor chunk.ordinal)
    (hrows : ∀ other, other ≠ slot → ∀ chunk ∈ (s.job other).inserted, ∀ row ∈ s'.rows,
      row.stamp ∉ (s.job other).locks → row.id ≠ chunkIdFor chunk.ordinal) :
    s'.Keyed chunkIdFor where
  ids := hids
  inserted other := by
    rcases eq_or_ne other slot with rfl | hother
    · exact hinserted
    · rw [hothers other hother]
      exact h.inserted other
  apart one other hne a ha b hb := by
    rcases eq_or_ne one slot with rfl | hone
    · rw [hothers other hne.symm] at hb
      exact hapart other hne.symm a ha b hb
    · rw [hothers one hone] at ha
      rcases eq_or_ne other slot with rfl | hother
      · intro hclash
        exact hapart one hone b hb a ha (hclash.imp Eq.symm Eq.symm)
      · rw [hothers other hother] at hb
        exact h.apart one other hne a ha b hb
  rows other := by
    rcases eq_or_ne other slot with rfl | hother
    · exact hslot
    · rw [hothers other hother]
      exact hrows other hother

theorem keyed_init : ({} : Jobs Slot V).Keyed chunkIdFor where
  ids := List.nodup_nil
  inserted _ := .nil
  apart _ _ _ _ ha := absurd ha List.not_mem_nil
  rows _ _ ha := absurd ha List.not_mem_nil

variable [DecidableEq Slot]

/-- A job that has inserted nothing moves on. -/
theorem Keyed.put (h : s.Keyed chunkIdFor) (slot : Slot) {job : Job V} (hjob : job.inserted = []) :
    (s.put slot job).Keyed chunkIdFor := by
  refine h.of_others slot (fun other hother => s.job_put_of_ne slot hother job) h.ids ?_ ?_ ?_
    fun other _ => h.rows other
  all_goals rw [job_put_self, hjob]
  · exact .nil
  · exact fun _ _ _ ha => absurd ha List.not_mem_nil
  · exact fun _ ha => absurd ha List.not_mem_nil

/-! ### Steps -/

/-- A key that is free is taken. -/
theorem Keyed.insert (h : s.Keyed chunkIdFor) {deleted : List ℕ} {chunk : Chunk}
    {todo inserted : List Chunk}
    (hjob : s.job slot = .ingest (.inserting deleted (chunk :: todo) inserted))
    (hfree : ¬ s.Taken chunkIdFor deleted chunk) :
    (s.put slot (.ingest (.inserting deleted todo (inserted ++ [chunk])))).Keyed chunkIdFor := by
  have hothers := fun other (hother : other ≠ slot) =>
    s.job_put_of_ne slot hother (.ingest (.inserting deleted todo (inserted ++ [chunk])))
  have hclash : ∀ other, ∀ a ∈ (s.job other).inserted, ¬ Clash chunkIdFor a chunk :=
    fun other a ha hclash => hfree (Or.inr ⟨other, a, ha, hclash⟩)
  have hmine := h.inserted slot
  have hrows := h.rows slot
  have hself := hclash slot
  rw [hjob] at hmine hrows hself
  refine h.of_others slot hothers h.ids ?_ ?_ ?_ fun other _ => h.rows other
  all_goals rw [job_put_self]
  · refine List.pairwise_append.mpr ⟨hmine, List.pairwise_singleton _ _, fun a ha b hb => ?_⟩
    exact List.mem_singleton.mp hb ▸ hself a ha
  · intro other hother a ha b hb hclash'
    rcases List.mem_append.mp ha with ha | ha
    · refine h.apart slot other hother.symm a ?_ b hb hclash'
      rw [hjob]
      exact ha
    · rw [List.mem_singleton.mp ha] at hclash'
      exact hclash other b hb (hclash'.imp Eq.symm Eq.symm)
  · intro a ha row hrow hstamp
    rcases List.mem_append.mp ha with ha | ha
    · exact hrows a ha row hrow hstamp
    · intro hid
      rw [List.mem_singleton.mp ha] at hid
      exact hfree (Or.inl ⟨row, hrow, hstamp, Or.inl hid⟩)

/-- An ingestion commits: what it has inserted is keyed apart from what is left. -/
theorem Keyed.commitIngest (h : s.Keyed chunkIdFor) {deleted : List ℕ} {inserted : List Chunk}
    (hjob : s.job slot = .ingest (.inserting deleted [] inserted)) :
    (s.commitIngest slot chunkIdFor deleted inserted).Keyed chunkIdFor := by
  have hmine := h.inserted slot
  have hrows := h.rows slot
  rw [hjob] at hmine hrows
  have hnew : ∀ row ∈ stampRows chunkIdFor s.nextStamp inserted,
      ∃ chunk ∈ inserted, (row : Stored V).id = chunkIdFor chunk.ordinal := by
    intro row hrow
    obtain ⟨-, -, -, chunk, hchunk, -, hid⟩ := mem_stampRows hrow
    exact ⟨chunk, hchunk, hid⟩
  refine h.of_others slot (fun other hother => s.job_put_of_ne slot hother _) ?_ ?_ ?_ ?_ ?_
  · rw [Jobs.commitIngest, List.map_append]
    refine List.nodup_append.mpr ⟨h.ids.sublist (List.filter_sublist.map _),
      (nodup_stampRows _ hmine).1, ?_⟩
    intro id hid id' hid'
    obtain ⟨row, hrow, rfl⟩ := List.mem_map.mp hid
    obtain ⟨row', hrow', rfl⟩ := List.mem_map.mp hid'
    obtain ⟨chunk, hchunk, heq⟩ := hnew row' hrow'
    obtain ⟨hrow, hstamp⟩ := List.mem_filter.mp hrow
    rw [heq]
    exact hrows chunk hchunk row hrow (of_decide_eq_true hstamp)
  · rw [Jobs.commitIngest, job_put_self]
    exact .nil
  · rw [Jobs.commitIngest, job_put_self]
    exact fun _ _ _ ha => absurd ha List.not_mem_nil
  · rw [Jobs.commitIngest, job_put_self]
    exact fun _ ha => absurd ha List.not_mem_nil
  · intro other hother chunk hchunk row hrow hstamp
    rcases List.mem_append.mp hrow with hrow | hrow
    · exact h.rows other chunk hchunk row (List.mem_of_mem_filter hrow) hstamp
    · obtain ⟨chunk', hchunk', heq⟩ := hnew row hrow
      rw [heq]
      refine fun hid => h.apart slot other hother.symm chunk' ?_ chunk hchunk (Or.inl hid)
      rw [hjob]
      exact hchunk'

/-- An embedding job commits: rows keep their ids. -/
theorem Keyed.commitEmbed (h : s.Keyed chunkIdFor) (slot : Slot) (modelId : String)
    (done : List (ℕ × Write V)) : (s.commitEmbed slot modelId done).Keyed chunkIdFor := by
  refine h.of_others slot (fun other hother => s.job_put_of_ne slot hother _) ?_ ?_ ?_ ?_ ?_
  · rw [Jobs.commitEmbed, List.map_map]
    refine (List.map_congr_left fun row _ => ?_) ▸ h.ids
    exact (written_fields modelId done row).2.1.symm
  · rw [Jobs.commitEmbed, job_put_self]
    exact .nil
  · rw [Jobs.commitEmbed, job_put_self]
    exact fun _ _ _ ha => absurd ha List.not_mem_nil
  · rw [Jobs.commitEmbed, job_put_self]
    exact fun _ ha => absurd ha List.not_mem_nil
  · intro other _ chunk hchunk row' hrow' hstamp
    obtain ⟨row, hrow, rfl⟩ := List.mem_map.mp hrow'
    obtain ⟨hs, hid, -⟩ := written_fields modelId done row
    rw [hs] at hstamp
    rw [hid]
    exact h.rows other chunk hchunk row hrow hstamp

/-- What the provider has returned is no key. -/
theorem Keyed.recordAnswer (h : s.Keyed chunkIdFor) (slot : Slot) (modelId : String)
    (writes : List (Write V)) : (s.recordAnswer slot modelId writes).Keyed chunkIdFor := by
  have hjob : (Job.embed modelId (.writing writes none [])).inserted = [] := rfl
  obtain ⟨hids, hinserted, hapart, hrows⟩ := h.put slot hjob
  exact ⟨hids, hinserted, hapart, hrows⟩

/-- The start of a job keeps the keys apart. -/
theorem Keyed.startStep (h : s.Keyed chunkIdFor) {event : Event V}
    (hstep : s.startStep slot event = some s') : s'.Keyed chunkIdFor := by
  unfold Jobs.startStep at hstep
  split at hstep
  · obtain rfl := Option.some.inj hstep
    exact h.put slot rfl
  · obtain rfl := Option.some.inj hstep
    exact h.put slot rfl
  · cases hstep

variable [Fintype Slot]

/-- So does a step of an ingestion. -/
theorem Keyed.ingestStep (h : s.Keyed chunkIdFor) {stage : IngestStage} {event : Event V}
    (hjob : s.job slot = .ingest stage)
    (hstep : s.ingestStep slot chunkIdFor stage event = some s') : s'.Keyed chunkIdFor := by
  unfold Jobs.ingestStep at hstep
  split at hstep
  · obtain rfl := Option.some.inj hstep
    exact h.put slot rfl
  · obtain rfl := Option.some.inj hstep
    exact h.put slot rfl
  · obtain rfl := Option.some.inj hstep
    exact h.put slot rfl
  · split_ifs at hstep
    obtain rfl := Option.some.inj hstep
    exact h.put slot rfl
  · split_ifs at hstep with htaken
    obtain rfl := Option.some.inj hstep
    exact h.insert hjob htaken
  · obtain rfl := Option.some.inj hstep
    exact h.commitIngest hjob
  · obtain rfl := Option.some.inj hstep
    exact h.put slot rfl
  · cases hstep

/-- And a step of an embedding job. -/
theorem Keyed.embedStep (h : s.Keyed chunkIdFor) {modelId : String} {stage : EmbedStage V}
    {event : Event V} (hstep : s.embedStep slot modelId stage event = some s') :
    s'.Keyed chunkIdFor := by
  unfold Jobs.embedStep at hstep
  split at hstep
  · obtain rfl := Option.some.inj hstep
    exact h.put slot rfl
  · split_ifs at hstep
    obtain rfl := Option.some.inj hstep
    exact h.recordAnswer slot modelId _
  · split at hstep
    · obtain rfl := Option.some.inj hstep
      exact h.put slot rfl
    · cases hstep
  · split_ifs at hstep
    · obtain rfl := Option.some.inj hstep
      exact h.put slot rfl
    · obtain rfl := Option.some.inj hstep
      exact h.put slot rfl
  · obtain rfl := Option.some.inj hstep
    exact h.commitEmbed slot modelId _
  · obtain rfl := Option.some.inj hstep
    exact h.put slot rfl
  · cases hstep

/-- **A step keeps the keys apart.** -/
theorem Keyed.step (h : s.Keyed chunkIdFor) {e : Slot × Event V}
    (hstep : step chunkIdFor s e = some s') : s'.Keyed chunkIdFor := by
  unfold Jobs.step at hstep
  cases hjob : s.job e.1 with
  | idle =>
      rw [hjob] at hstep
      exact h.startStep hstep
  | ingest stage =>
      rw [hjob] at hstep
      exact h.ingestStep hjob hstep
  | embed modelId stage =>
      rw [hjob] at hstep
      exact h.embedStep hstep

/-- **However jobs overlap, the rows have different ids.** -/
theorem keyed_of_run {events : List (Slot × Event V)}
    (hrun : run (Jobs.step chunkIdFor) {} events = some s) : s.Keyed chunkIdFor :=
  invariant_of_run (fun _ _ _ h hstep => h.step hstep) keyed_init hrun

end Jobs
end Ingest
end EvidenceLab
