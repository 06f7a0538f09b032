/-
# The chunks of a document

An attempt at ingestion changes all or nothing (`leaves_runIngestion`).  So after any
number of attempts the rows are what the chunker made in the last of them that succeeded
(`ingestion_atomic`).

The states that an attempt commits on its way are those that it leaves when it is cut
off at its next call, so they are no exception.
-/

import EvidenceLab.Ingest.Lifecycle
import EvidenceLab.Ingest.Rows
import EvidenceLab.Ingest.Windows

namespace EvidenceLab
namespace Ingest

open Text Data EvidenceLab.Core Runs Session

variable {V : Type}

/-! ### Cuts -/

/-- The attempt, cut off at the calls that follow its commits; it leaves what it has
committed until then. -/
def IngestAttempt.cuts (a : IngestAttempt) : List IngestAttempt :=
  [{ a with lookup := some .cancelled },
    { a with payload := .error .cancelled },
    { a with delete := some .cancelled },
    { a with finalCommit := if a.finalCommit.Lands then .landed .cancelled else a.finalCommit },
    a]

/-! ### Runs of attempts -/

/-- One attempt. -/
def ingestStep (s : Store V) (a : IngestAttempt) : Option (Store V) :=
  some (perform (runIngestion a) s).2

/-- What holds of the rows in every committed state: the document counts them, and their
ordinals and ids are those of so many chunks. -/
def Store.Consistent (chunkIdFor : ℕ → Uuid) (s : Store V) : Prop :=
  ∃ d, s.document = some d ∧ d.chunkCount = s.chunks.length ∧
    s.chunks.map (·.ordinal) = List.range d.chunkCount ∧
    s.chunks.map (·.id) = (List.range d.chunkCount).map chunkIdFor

/-- The rows and the counts are those of the last attempt that has succeeded, or none has
and they are as they were. -/
def LastOutput (d : Document) (s : Store V) (as : List IngestAttempt) (s' : Store V) : Prop :=
  ((∀ a ∈ as, ¬ a.Succeeds d) ∧ s.Same s') ∨
    ∃ pre a post, as = pre ++ a :: post ∧ a.Succeeds d ∧ (∀ b ∈ post, ¬ b.Succeeds d) ∧
      a.Rewrites d s'

/-- The file and the settings are the same, and so is the library that reads it. -/
structure IngestAttempt.SameInput (a a' : IngestAttempt) : Prop where
  payload : a.payload = a'.payload
  pypdf : a.pypdf = a'.pypdf
  chunkSizeChars : a.chunkSizeChars = a'.chunkSizeChars
  chunkOverlapChars : a.chunkOverlapChars = a'.chunkOverlapChars
  chunkIdFor : a.chunkIdFor = a'.chunkIdFor

section Runs

variable {a a' : IngestAttempt} {d d' : Document} {s s' : Store V} {chunkIdFor : Uuid → ℕ → Uuid}

/-- An ingestion depends on what it reads of the document. -/
theorem IngestAttempt.leaves_congr (hid : d'.id = d.id) (hmime : d'.mimeType = d.mimeType)
    (hname : d'.filename = d.filename) : a.Leaves d' s s' ↔ a.Leaves d s s' := by
  simp only [Leaves, Succeeds, Completes, stages, Rewrites, output, hid, hmime, hname]

theorem Store.Same.trans {s'' : Store V} (h : s.Same s') (h' : s'.Same s'') : s.Same s'' :=
  ⟨h'.1.trans h.1, h'.2.trans h.2⟩

/-- What an attempt has made stays while the rows and the counts do. -/
theorem IngestAttempt.Rewrites.of_same {s'' : Store V} (h : a.Rewrites d s')
    (hsame : s'.Same s'') : a.Rewrites d s'' := by
  obtain ⟨chunks, pageCount, houtput, hrows, hfacts⟩ := h
  exact ⟨chunks, pageCount, houtput, hsame.1.trans hrows, hsame.2.trans hfacts⟩

/-- What an ingestion reads of the document does not change. -/
theorem LastOutput.exists_document {as : List IngestAttempt} (hd : s.document = some d)
    (h : LastOutput d s as s') :
    ∃ d', s'.document = some d' ∧ d'.id = d.id ∧ d'.mimeType = d.mimeType ∧
      d'.filename = d.filename := by
  have hfacts : ∃ pageCount chunkCount, s'.document.map Document.facts =
      some (d.id, d.mimeType, d.filename, pageCount, chunkCount) := by
    rcases h with ⟨-, -, hfacts⟩ | ⟨-, -, -, -, -, -, _, _, -, -, hfacts⟩
    · rw [hd] at hfacts
      exact ⟨_, _, hfacts⟩
    · exact ⟨_, _, hfacts⟩
  obtain ⟨pageCount, chunkCount, hfacts⟩ := hfacts
  obtain ⟨d', hd', heq⟩ := Option.map_eq_some_iff.mp hfacts
  exact ⟨d', hd', congrArg (·.1) heq, congrArg (·.2.1) heq, congrArg (·.2.2.1) heq⟩

/-- An attempt on what a run has left. -/
theorem LastOutput.leaves {as : List IngestAttempt} (hd : s.document = some d)
    (h : LastOutput d s as s') (a : IngestAttempt) :
    a.Leaves d s' (perform (runIngestion a) s').2 := by
  obtain ⟨d', hd', hid, hmime, hname⟩ := h.exists_document hd
  exact (IngestAttempt.leaves_congr hid hmime hname).mp (leaves_runIngestion a hd')

/-- One attempt more. -/
theorem LastOutput.append {as : List IngestAttempt} (hd : s.document = some d)
    (h : LastOutput d s as s') (a : IngestAttempt) :
    LastOutput d s (as ++ [a]) (perform (runIngestion a) s').2 := by
  rcases h.leaves hd a with ⟨hsucceeds, hrewrites⟩ | ⟨hfails, hsame⟩
  · exact Or.inr ⟨as, a, [], rfl, hsucceeds, (fun b hb => absurd hb List.not_mem_nil), hrewrites⟩
  · have hlast : ∀ {bs : List IngestAttempt}, (∀ b ∈ bs, ¬ b.Succeeds d) →
        ∀ b ∈ bs ++ [a], ¬ b.Succeeds d := by
      intro bs hbs b hb
      rcases List.mem_append.mp hb with hb | hb
      · exact hbs b hb
      · rwa [List.mem_singleton.mp hb]
    rcases h with ⟨hnone, hsame'⟩ | ⟨pre, b, post, rfl, hb, hpost, hrewrites⟩
    · exact Or.inl ⟨hlast hnone, hsame'.trans hsame⟩
    · refine Or.inr ⟨pre, b, post ++ [a], ?_, hb, hlast hpost, hrewrites.of_same hsame⟩
      rw [List.append_assoc, List.cons_append]

/-- **The rows after a run of attempts.** -/
theorem lastOutput_of_run (hd : s.document = some d) {as : List IngestAttempt}
    (hrun : run ingestStep s as = some s') : LastOutput d s as s' := by
  induction as using List.reverseRecOn generalizing s' with
  | nil =>
      obtain rfl := Option.some.inj hrun
      exact Or.inl ⟨(fun a ha => absurd ha List.not_mem_nil), rfl, rfl⟩
  | append_singleton as a ih =>
      obtain ⟨m, hm, hstep⟩ := run_append.mp hrun
      obtain ⟨s'', hs'', hlast⟩ := run_cons.mp hstep
      obtain rfl := Option.some.inj hlast
      obtain rfl := Option.some.inj hs''
      exact (ih hm).append hd a

/-- The ordinals of the chunks that an attempt makes. -/
theorem IngestAttempt.ordinals_of_output {chunks : List Chunk} {pageCount : Option ℕ}
    (h : a.output d = .ok (chunks, pageCount)) :
    chunks.map (·.ordinal) = List.range chunks.length := by
  obtain ⟨payload, -, h⟩ := bind_eq_ok.mp h
  obtain ⟨parsed, -, h⟩ := bind_eq_ok.mp h
  obtain ⟨chunker, -, h⟩ := bind_eq_ok.mp h
  cases h
  exact chunker.chunk_ordinals parsed

/-- The rows that a run leaves are consistent. -/
theorem LastOutput.consistent {as : List IngestAttempt} (hnew : d.chunkCount = 0)
    (has : ∀ a ∈ as, a.chunkIdFor = chunkIdFor)
    (h : LastOutput d ({ document := some d } : Store V) as s') :
    s'.Consistent (chunkIdFor d.id) := by
  rcases h with ⟨-, hrows, hfacts⟩ | ⟨pre, a, post, rfl, -, -, chunks, pageCount, houtput, hrows,
    hfacts⟩
  · obtain ⟨d', hd', heq⟩ := Option.map_eq_some_iff.mp hfacts
    have hcount : d'.chunkCount = 0 := (congrArg (·.2.2.2.2) heq).trans hnew
    refine ⟨d', hd', ?_, ?_, ?_⟩ <;> rw [hrows, hcount] <;> rfl
  · obtain ⟨d', hd', heq⟩ := Option.map_eq_some_iff.mp hfacts
    have hcount : d'.chunkCount = chunks.length := congrArg (·.2.2.2.2) heq
    have hordinals := IngestAttempt.ordinals_of_output houtput
    have hid : a.chunkIdFor = chunkIdFor :=
      has a (List.mem_append_right _ (List.mem_cons_self ..))
    refine ⟨d', hd', ?_, ?_, ?_⟩
    · rw [hcount, hrows, chunkRows, List.length_map]
    · rw [hcount, ← hordinals, hrows, chunkRows, List.map_map]
      rfl
    · rw [hcount, ← hordinals, hrows, chunkRows, List.map_map, List.map_map, hid]
      rfl

/-- The cuts of an attempt succeed only if it does, and then make the same chunks. -/
theorem IngestAttempt.of_cut {cut : IngestAttempt} (hcut : cut ∈ a.cuts) :
    cut.chunkIdFor = a.chunkIdFor ∧
      (cut.Succeeds d → a.Succeeds d ∧ cut.output d = a.output d) := by
  simp only [cuts, List.mem_cons, List.not_mem_nil, or_false] at hcut
  rcases hcut with rfl | rfl | rfl | rfl | rfl
  · refine ⟨rfl, ?_⟩
    rintro ⟨hlook, -⟩
    cases hlook
  · refine ⟨rfl, ?_⟩
    rintro ⟨-, -, hstages, -⟩
    cases hstages
  · refine ⟨rfl, ?_⟩
    rintro ⟨-, -, hstages, -⟩
    obtain ⟨_, _, _, -, -, -, -, hdelete⟩ := stages_eq_ok.mp hstages
    cases hdelete
  · refine ⟨rfl, ?_⟩
    rintro ⟨hlook, hstart, hstages, hlands⟩
    refine ⟨⟨hlook, hstart, hstages, ?_⟩, rfl⟩
    by_contra hno
    simp only [if_neg hno] at hlands
    exact hno hlands
  · exact ⟨rfl, fun h => ⟨h, rfl⟩⟩

/-- Attempts with the same input make the same rows. -/
theorem IngestAttempt.SameInput.chunks_eq (h : a.SameInput a') {t t' : Store V}
    (hrewrites : a.Rewrites d t) (hrewrites' : a'.Rewrites d t') : t.chunks = t'.chunks := by
  obtain ⟨chunks, pageCount, houtput, hrows, -⟩ := hrewrites
  obtain ⟨chunks', pageCount', houtput', hrows', -⟩ := hrewrites'
  have hsame : a.output d = a'.output d := by
    simp only [output, h.payload, h.pypdf, h.chunkSizeChars, h.chunkOverlapChars]
  cases houtput.symm.trans (hsame.trans houtput')
  rw [hrows, hrows', h.chunkIdFor]

end Runs

/-- **Ingestion is all or nothing, and converges.**  After any number of attempts on a new
document, whatever fails in them, the next attempt commits only states whose rows are
consistent and those of the last attempt that has succeeded; if it does not succeed it
changes neither the rows nor the counts, and does not return a completed document; and if
it does, the rows are those that any other successful attempt with the same input leaves. -/
theorem ingestion_atomic (chunkIdFor : Uuid → ℕ → Uuid) {d : Document} (hnew : d.chunkCount = 0)
    {as : List IngestAttempt} {s : Store V}
    (hrun : run ingestStep { document := some d } as = some s) (a : IngestAttempt)
    (has : ∀ b ∈ a :: as, b.chunkIdFor = chunkIdFor) :
    (∀ cut ∈ a.cuts, (cut.Succeeds d → a.Succeeds d ∧ cut.output d = a.output d) ∧
      (perform (runIngestion cut) s).2.Consistent (chunkIdFor d.id) ∧
      LastOutput d { document := some d } (as ++ [cut]) (perform (runIngestion cut) s).2) ∧
    (¬ a.Succeeds d → s.Same (perform (runIngestion a) s).2) ∧
    (∀ d', (perform (runIngestion a) s).1 = .ok d' → d'.ingestionStatus = .completed →
      a.Succeeds d) ∧
    ∀ as' s' a', run ingestStep ({ document := some d } : Store V) as' = some s' →
      a.Succeeds d → a'.Succeeds d → a.SameInput a' →
        (perform (runIngestion a) s).2.chunks = (perform (runIngestion a') s').2.chunks := by
  have hlast := lastOutput_of_run rfl hrun
  refine ⟨?_, ?_, ?_, ?_⟩
  · intro cut hcut
    obtain ⟨hid, hsucceeds⟩ := IngestAttempt.of_cut hcut
    have happend := hlast.append rfl cut
    refine ⟨hsucceeds, happend.consistent hnew ?_, happend⟩
    intro b hb
    rcases List.mem_append.mp hb with hb | hb
    · exact has b (List.mem_cons_of_mem _ hb)
    · rw [List.mem_singleton.mp hb, hid]
      exact has a (List.mem_cons_self ..)
  · intro hfails
    rcases hlast.leaves rfl a with ⟨hsucceeds, -⟩ | ⟨-, hsame⟩
    · exact absurd hsucceeds hfails
    · exact hsame
  · intro d' hok hstatus
    obtain ⟨d₀, hd₀, hid, hmime, hname⟩ := hlast.exists_document rfl
    have hsucceeds := succeeds_of_completed hd₀ hok hstatus
    simpa only [IngestAttempt.Succeeds, IngestAttempt.Completes, IngestAttempt.stages, hmime,
      hname] using hsucceeds
  · intro as' s' a' hrun' hsucceeds hsucceeds' hinput
    have hrewrites : a.Rewrites d (perform (runIngestion a) s).2 := by
      rcases hlast.leaves rfl a with ⟨-, hrewrites⟩ | ⟨hfails, -⟩
      · exact hrewrites
      · exact absurd hsucceeds hfails
    have hrewrites' : a'.Rewrites d (perform (runIngestion a') s').2 := by
      rcases (lastOutput_of_run rfl hrun').leaves rfl a' with ⟨-, hrewrites⟩ | ⟨hfails, -⟩
      · exact hrewrites
      · exact absurd hsucceeds' hfails
    exact hinput.chunks_eq hrewrites hrewrites'

/-- A second attempt whose file cannot be read. -/
theorem ingestion_atomic_sample :
    let d : Document :=
      { id := 7, contentHash := [], filename := none, mimeType := "text/plain", sizeBytes := 1 }
    let s : Store ℕ := (perform (runIngestion sampleIngest) { document := some d }).2
    s.chunks.map (·.text) = [[0x61]] ∧
      s.Same (perform (runIngestion { sampleIngest with payload := .error .osError }) s).2 := by
  intro d s
  have hrun : run ingestStep { document := some d } [sampleIngest] = some s := rfl
  have hids : ∀ b ∈ [{ sampleIngest with payload := .error .osError }, sampleIngest],
      b.chunkIdFor = fun _ ordinal => Fin.ofNat _ ordinal := by
    simp [sampleIngest]
  refine ⟨by decide, (ingestion_atomic _ rfl hrun _ hids).2.1 ?_⟩
  rintro ⟨-, -, hstages, -⟩
  cases hstages

end Ingest
end EvidenceLab
