/-
# Texts that can be stored

An ingestion of a text in an environment that works: the storage returns what was uploaded, and
the database accepts the rows of the chunks if their texts hold no U+0000, their numbers fit the
columns and their keys are distinct.  Whatever the bytes are, they are decoded, split and chunked,
and the numbers fit; what is decoded has a U+0000 iff the bytes have a zero.  U+0000 is not
blank, so it is in a chunk, and the ingestion fails (`text_completes_iff`).
-/

import EvidenceLab.Ingest.BlankLines
import EvidenceLab.Ingest.Provenance
import EvidenceLab.Ingest.Rows
import Mathlib.Algebra.Order.BigOperators.Group.List
import Mathlib.Algebra.Order.Group.Nat
import Mathlib.Data.List.Nodup

namespace EvidenceLab
namespace Ingest

open Text Data EvidenceLab.Core Runs Session

variable {V : Type}

/-- U+0000. -/
def nul : CodePoint := 0

/-- `MAX_UPLOAD_BYTES`. -/
def maxUploadBytes : ℕ := 50 * 1024 * 1024

/-- The greatest number of an `Integer` column. -/
def maxInteger : ℕ := 2 ^ 31 - 1

/-- A row whose text holds no U+0000 and whose numbers fit their columns. -/
structure ChunkRow.Storable (row : ChunkRow V) : Prop where
  text : nul ∉ row.text
  ordinal : row.ordinal ≤ maxInteger
  tokenCount : row.tokenCount ≤ maxInteger
  page : ∀ n ∈ row.page, n ≤ maxInteger
  charStart : ∀ n ∈ row.charStart, n ≤ maxInteger
  charEnd : ∀ n ∈ row.charEnd, n ≤ maxInteger

/-- Rows that the database accepts: each can be stored, and the primary key and
`uq_chunks_document_id_ordinal` are kept. -/
def Acceptable (rows : List (ChunkRow V)) : Prop :=
  (∀ row ∈ rows, row.Storable) ∧ (rows.map (·.id)).Nodup ∧ (rows.map (·.ordinal)).Nodup

/-- Every call before the last commit answers: the storage returns what was uploaded, and the
settings are those of a chunker. -/
structure IngestAttempt.Answers (a : IngestAttempt) (data : List UInt8) : Prop where
  lookup : a.lookup = none
  startCommit : a.startCommit = .done
  payload : a.payload = .ok data
  chunkingCommit : a.chunkingCommit = .done
  settings : 0 ≤ a.chunkOverlapChars ∧ a.chunkOverlapChars < a.chunkSizeChars
  delete : a.delete = none
  refresh : a.refresh = none

/-- The services work: the last commit is done iff the rows are accepted.  Chunk ids are told
apart by their ordinals, as far as these fit their column. -/
structure IngestAttempt.Works (V : Type) (a : IngestAttempt) (d : Document) (data : List UInt8) :
    Prop extends a.Answers data where
  ids : Set.InjOn (a.chunkIdFor d.id) {n | n ≤ maxInteger}
  accepted : ∀ chunks pageCount, a.output d = .ok (chunks, pageCount) →
    Acceptable (chunkRows (a.chunkIdFor d.id) chunks : List (ChunkRow V)) → a.finalCommit = .done
  refused : ∀ chunks pageCount, a.output d = .ok (chunks, pageCount) →
    ¬ Acceptable (chunkRows (a.chunkIdFor d.id) chunks : List (ChunkRow V)) →
      ∃ e, a.finalCommit = .lost e

/-! ### Numbers -/

theorem heuristicTokens_le {text : Str} (h : text ≠ []) : heuristicTokens text ≤ text.length := by
  have hpos := List.length_pos_iff.mpr h
  rw [heuristicTokens, if_neg h, roundQuarter]
  split_ifs <;> omega

section Numbers

variable (c : RecursiveCharacterChunker) (data : List UInt8) (filename : Option Str)

/-- The blocks of a text are together no longer than it. -/
theorem sum_length_blocks_le :
    ((TextParser.parse data filename).blocks.map (·.text.length)).sum ≤
      (decodeUtf8 data).length := by
  have hsum : ∀ ps : List Str, (((ps.map (strip isSpace)).filter (· ≠ [])).map List.length).sum ≤
      (ps.map List.length).sum := by
    intro ps
    induction ps with
    | nil => exact le_rfl
    | cons p ps ih =>
        have hstrip := length_strip_le isSpace p
        rw [List.map_cons, List.filter_cons, List.map_cons, List.sum_cons]
        split_ifs
        · rw [List.map_cons, List.sum_cons]
          omega
        · omega
  have htexts := congrArg (fun texts => (texts.map List.length).sum) (texts_parse data filename)
  simp only [List.map_map] at htexts
  refine le_trans (le_of_eq htexts) ((hsum _).trans ((cut_splitBlocks _).sum_length_le))

/-- There are no more chunks than characters. -/
theorem length_chunk_le :
    (c.chunk (TextParser.parse data filename)).length ≤ (decodeUtf8 data).length := by
  refine le_trans ?_ (sum_length_blocks_le data filename)
  rw [c.chunk_eq, List.length_mapIdx, RecursiveCharacterChunker.pieces, List.length_flatMap]
  refine List.sum_le_sum ?_
  intro b _
  rw [List.length_map]
  exact c.length_splitBlock_le b

end Numbers

section Rows

variable {c : RecursiveCharacterChunker} {data : List UInt8} {filename : Option Str}

/-- The count and the number of a chunk. -/
theorem counts_of_mem_chunk {document : ParsedDocument} {ch : Chunk} (h : ch ∈ c.chunk document) :
    ch.tokenCount = c.tokens ch.text ∧ ch.ordinal < (c.chunk document).length := by
  have hmem : ch.ordinal ∈ (c.chunk document).map (·.ordinal) := List.mem_map_of_mem h
  rw [c.chunk_ordinals, List.mem_range] at hmem
  rw [c.chunk_eq, List.mem_mapIdx] at h
  obtain ⟨i, hi, rfl⟩ := h
  exact ⟨rfl, hmem⟩

/-- The numbers of a chunk of a text are at most its length. -/
theorem numbers_of_mem_chunk (hc : c.tokens = heuristicTokens) {ch : Chunk}
    (h : ch ∈ c.chunk (TextParser.parse data filename)) :
    ch.ordinal ≤ (decodeUtf8 data).length ∧ ch.tokenCount ≤ (decodeUtf8 data).length ∧
      ch.page = none ∧ (∀ n ∈ ch.charStart, n ≤ (decodeUtf8 data).length) ∧
      ∀ n ∈ ch.charEnd, n ≤ (decodeUtf8 data).length := by
  have hblocks := standsAt_of_layout (TextParser.layout data filename)
  obtain ⟨b, hb, hpage, start, stop, ⟨hstart, hstop, hslice⟩, hle, hle'⟩ :=
    chunk_resolves c hblocks h
  obtain ⟨hne, -, -⟩ := (chunk_completeness c data filename).2.2.1 ch h
  obtain ⟨hcount, hordinal⟩ := counts_of_mem_chunk h
  have hnumber := length_chunk_le c data filename
  obtain ⟨-, hstands, hsolid, -⟩ :=
    (TextParser.layout data filename).standsAt _ (List.mem_map_of_mem hb)
  have hblock : b.span.2 + b.text.length ≤ (decodeUtf8 data).length :=
    hstands.add_le hsolid
  have hlength := congrArg List.length hslice
  rw [length_slice] at hlength
  have hpos := List.length_pos_iff.mpr hne
  have htokens : ch.tokenCount ≤ ch.text.length := by
    rw [hcount, hc]
    exact heuristicTokens_le hne
  refine ⟨by omega, by omega, hpage.trans (textBlocks_positioned _ _ _ b hb).2, ?_, ?_⟩
  · intro n hn
    rw [hstart, Option.mem_some_iff] at hn
    omega
  · intro n hn
    rw [hstop, Option.mem_some_iff] at hn
    omega

/-- **The rows of a text are accepted iff no chunk holds U+0000.** -/
theorem acceptable_iff (filename : Option Str) (hdata : data.length ≤ maxUploadBytes)
    (hc : c.tokens = heuristicTokens) {chunkIdFor : ℕ → Uuid}
    (hids : Set.InjOn chunkIdFor {n | n ≤ maxInteger}) :
    Acceptable (chunkRows chunkIdFor (c.chunk (TextParser.parse data filename)) :
        List (ChunkRow V)) ↔
      ∀ ch ∈ c.chunk (TextParser.parse data filename), nul ∉ ch.text := by
  have hlength : (decodeUtf8 data).length ≤ maxInteger :=
    (length_decodeFrom none data).trans (by simp [maxUploadBytes, maxInteger] at *; omega)
  have hnumbers := fun ch (h : ch ∈ c.chunk (TextParser.parse data filename)) =>
    numbers_of_mem_chunk hc h
  have hordinals : ((c.chunk (TextParser.parse data filename)).map (·.ordinal)).Nodup := by
    rw [c.chunk_ordinals]
    exact List.nodup_range
  constructor
  · rintro ⟨hrows, -, -⟩ ch hch
    exact (hrows _ (List.mem_map_of_mem hch)).text
  · intro hno
    refine ⟨?_, ?_, ?_⟩
    · intro row hrow
      obtain ⟨ch, hch, rfl⟩ := List.mem_map.mp hrow
      obtain ⟨hordinal, htokens, hpage, hstart, hend⟩ := hnumbers ch hch
      exact {
        text := hno ch hch
        ordinal := hordinal.trans hlength
        tokenCount := htokens.trans hlength
        page := by simp [hpage]
        charStart := fun n hn => (hstart n hn).trans hlength
        charEnd := fun n hn => (hend n hn).trans hlength }
    · have hmap : (chunkRows chunkIdFor (c.chunk (TextParser.parse data filename)) :
          List (ChunkRow V)).map (·.id) =
            ((c.chunk (TextParser.parse data filename)).map (·.ordinal)).map chunkIdFor := by
        rw [chunkRows, List.map_map, List.map_map]
        rfl
      rw [hmap]
      refine List.Nodup.map_on ?_ hordinals
      intro i hi j hj
      obtain ⟨ch, hch, rfl⟩ := List.mem_map.mp hi
      obtain ⟨ch', hch', rfl⟩ := List.mem_map.mp hj
      exact hids ((hnumbers ch hch).1.trans hlength) ((hnumbers ch' hch').1.trans hlength)
    · rw [chunkRows, List.map_map]
      exact hordinals

/-- **A chunk holds U+0000 iff the bytes hold a zero.** -/
theorem nul_not_mem_iff :
    (∀ ch ∈ c.chunk (TextParser.parse data filename), nul ∉ ch.text) ↔ (0 : UInt8) ∉ data := by
  have htext : nul ∈ decodeUtf8 data ↔ (0 : UInt8) ∈ data := by
    rw [mem_decodeUtf8 (by decide)]
    constructor
    · rintro ⟨b, hb, hval⟩
      have hzero : b = 0 := UInt8.toNat_inj.mp hval
      exact hzero ▸ hb
    · intro h
      exact ⟨0, h, rfl⟩
  rw [← htext, ← not_iff_not]
  push Not
  constructor
  · rintro ⟨ch, hch, hnul⟩
    obtain ⟨start, stop, -, -, hslice⟩ := (chunk_provenance c filename).1 data ch hch
    rw [← hslice] at hnul
    exact List.mem_of_mem_drop (List.mem_of_mem_take hnul)
  · intro hnul
    obtain ⟨n, hn⟩ := List.getElem?_of_mem hnul
    obtain ⟨ch, hch, start, stop, hstart, hstop, hle, hlt⟩ :=
      (chunk_completeness c data filename).2.1 n nul hn (by decide)
    obtain ⟨start', stop', hstart', hstop', hslice⟩ :=
      (chunk_provenance c filename).1 data ch hch
    obtain rfl := Option.some.inj (hstart.symm.trans hstart')
    obtain rfl := Option.some.inj (hstop.symm.trans hstop')
    obtain ⟨m, rfl⟩ := Nat.exists_eq_add_of_le hle
    refine ⟨ch, hch, ?_⟩
    rw [← hslice]
    exact List.mem_of_getElem? ((getElem?_slice hlt).trans hn)

end Rows

/-! ### Ingestions of a text -/

section Ingestions

variable {a : IngestAttempt} {d : Document} {data : List UInt8}

/-- What an attempt makes of a text. -/
theorem IngestAttempt.Answers.output_eq (h : a.Answers data)
    (hmime : d.mimeType ∈ TextParser.mimeTypes) :
    ∃ c : RecursiveCharacterChunker, c.tokens = heuristicTokens ∧
      a.output d = .ok (c.chunk (TextParser.parse data d.filename), none) ∧
      a.stages d = .ok () := by
  have hpdf : d.mimeType ∉ PdfParser.mimeTypes := by
    intro hmem
    rw [List.mem_singleton.mp hmem] at hmime
    exact absurd hmime (by decide)
  have hparse : parseAs a.pypdf d.mimeType data d.filename =
      .ok (TextParser.parse data d.filename) := by
    rw [parseAs, if_neg hpdf, if_pos hmime]
  have hsize : ¬ a.chunkSizeChars ≤ 0 := by
    have := h.settings
    omega
  have hchunker : ∃ c, RecursiveCharacterChunker.init a.chunkSizeChars a.chunkOverlapChars none =
      .ok c ∧ c.tokens = heuristicTokens := by
    rw [RecursiveCharacterChunker.init, dif_neg hsize, dif_pos h.settings]
    exact ⟨_, rfl, rfl⟩
  obtain ⟨c, hinit, htokens⟩ := hchunker
  refine ⟨c, htokens, ?_, ?_⟩
  · exact bind_eq_ok.mpr ⟨data, h.payload, bind_eq_ok.mpr ⟨_, hparse, bind_eq_ok.mpr
      ⟨c, hinit, rfl⟩⟩⟩
  · refine IngestAttempt.stages_eq_ok.mpr ⟨data, _, c, h.payload, hparse, ?_, hinit, h.delete⟩
    rw [h.chunkingCommit]
    rfl

/-- Rows that are accepted make the ingestion complete. -/
theorem IngestAttempt.Answers.completes {s : Store V} (h : a.Answers data)
    (hmime : d.mimeType ∈ TextParser.mimeTypes) (hd : s.document = some d)
    (hdone : a.finalCommit = .done) :
    ∃ d', (perform (runIngestion a) s).1 = .ok d' ∧ d'.ingestionStatus = .completed ∧
      ∃ chunks pageCount, a.output d = .ok (chunks, pageCount) ∧
        (perform (runIngestion a) s).2.chunks = chunkRows (a.chunkIdFor d.id) chunks := by
  obtain ⟨c, -, -, hstages⟩ := h.output_eq hmime
  have houtcome : a.outcome d = .ok () := by
    rw [IngestAttempt.outcome, h.startCommit, hdone, hstages]
    rfl
  have hwp : wp (runIngestion a) (fun d' t => d'.ingestionStatus = .completed ∧
      a.Rewrites d t.committed) (fun _ _ => False) ⟨s, s⟩ := by
    simp only [runIngestion, wp_bind, wp_getDocument, hd, wp_handling, h.lookup]
    refine ⟨fun _ => ?_, fun _ he => by cases he⟩
    refine wp_mono (wp_ingest_ends a hd) ?_ ?_
    · rintro _ t ⟨-, hwork, hfinished⟩
      obtain ⟨d', hd', hcompleted⟩ := hfinished.completed
      simp only [readBack, wp_bind, wp_getDocument, hwork, hd', wp_pure, h.refresh]
      exact ⟨fun _ => ⟨hcompleted.1, .of_finished hfinished⟩, fun _ he => by cases he⟩
    · rintro e t ⟨he, -⟩
      cases houtcome.symm.trans he
  rcases perform_of_wp hwp with ⟨d', t, hp, hcompleted, chunks, pageCount, houtput, hrows, -⟩ |
    ⟨_, _, -, hfalse⟩
  · rw [hp]
    exact ⟨d', rfl, hcompleted, chunks, pageCount, houtput, hrows⟩
  · exact hfalse.elim

end Ingestions

/-! ### Two texts -/

/-- An ingestion of these bytes, with this answer to the last commit. -/
def textIngest (data : List UInt8) (finalCommit : CommitReply Exc) : IngestAttempt where
  documentId := 7
  chunkSizeChars := 1000
  chunkOverlapChars := 150
  pypdf := fun _ => .error .pdfReadError
  chunkIdFor := fun _ ordinal => Fin.ofNat _ ordinal
  lookup := none
  startCommit := .done
  payload := .ok data
  chunkingCommit := .done
  delete := none
  finalCommit := finalCommit
  failure := ⟨none, none, .done⟩
  refresh := none

/-- A plain text. -/
def textDocument : Document where
  id := 7
  contentHash := []
  filename := none
  mimeType := "text/plain"
  sizeBytes := 1

theorem works_textIngest {data : List UInt8} (hlength : data.length ≤ maxUploadBytes)
    {finalCommit : CommitReply Exc} (hdone : (0 : UInt8) ∉ data → finalCommit = .done)
    (hlost : (0 : UInt8) ∈ data → ∃ e, finalCommit = .lost e) :
    (textIngest data finalCommit).Works V textDocument data := by
  have hanswers : (textIngest data finalCommit).Answers data :=
    ⟨rfl, rfl, rfl, rfl, ⟨Int.le.intro 150 rfl, Int.lt.intro (n := 849) rfl⟩, rfl, rfl⟩
  have hids : Set.InjOn ((textIngest data finalCommit).chunkIdFor textDocument.id)
      {n | n ≤ maxInteger} := by
    intro i hi j hj heq
    have hval := congrArg Fin.val heq
    have hbound : ∀ n ≤ maxInteger, n < 2 ^ 128 := by
      intro n hn
      simp only [maxInteger] at hn
      omega
    simp only [textIngest, Fin.val_ofNat] at hval
    rwa [Nat.mod_eq_of_lt (hbound i hi), Nat.mod_eq_of_lt (hbound j hj)] at hval
  obtain ⟨c, htokens, houtput, -⟩ := hanswers.output_eq (d := textDocument) (by decide)
  have haccept := acceptable_iff (V := V) textDocument.filename hlength htokens hids
  rw [nul_not_mem_iff] at haccept
  refine ⟨hanswers, hids, ?_, ?_⟩
  · intro chunks pageCount houtput' hrows
    obtain ⟨rfl, -⟩ := Prod.mk.inj (Except.ok.inj (houtput.symm.trans houtput'))
    exact hdone (haccept.mp hrows)
  · intro chunks pageCount houtput' hrows
    obtain ⟨rfl, -⟩ := Prod.mk.inj (Except.ok.inj (houtput.symm.trans houtput'))
    exact hlost (not_not.mp fun hzero => hrows (haccept.mpr hzero))

/-- **When a text is ingested.**  Where the services work, the ingestion of a text that is not
too long completes, with chunks that hold no U+0000, iff its bytes hold no zero. -/
theorem text_completes_iff {s : Store V} {a : IngestAttempt} {d : Document} {data : List UInt8}
    (hd : s.document = some d)
    (hmime : d.mimeType ∈ TextParser.mimeTypes) (hlength : data.length ≤ maxUploadBytes)
    (h : a.Works V d data) :
    (∃ d', (perform (runIngestion a) s).1 = .ok d' ∧ d'.ingestionStatus = .completed ∧
      ∀ row ∈ (perform (runIngestion a) s).2.chunks, nul ∉ row.text) ↔ (0 : UInt8) ∉ data := by
  obtain ⟨c, htokens, houtput, -⟩ := h.output_eq hmime
  have haccept := acceptable_iff (V := V) d.filename hlength htokens h.ids
  rw [nul_not_mem_iff] at haccept
  constructor
  · rintro ⟨d', hok, hcompleted, -⟩
    by_contra hzero
    obtain ⟨e, hlost⟩ := h.refused _ _ houtput fun hrows => haccept.mp hrows hzero
    obtain ⟨-, -, -, hlands⟩ := succeeds_of_completed hd hok hcompleted
    rw [hlost] at hlands
    exact CommitReply.not_lands_lost e hlands
  · intro hzero
    have hdone := h.accepted _ _ houtput (haccept.mpr hzero)
    obtain ⟨d', hok, hcompleted, chunks, pageCount, houtput', hrows⟩ :=
      h.completes hmime hd hdone
    refine ⟨d', hok, hcompleted, ?_⟩
    obtain ⟨rfl, -⟩ := Prod.mk.inj (Except.ok.inj (houtput.symm.trans houtput'))
    rw [hrows]
    intro row hrow
    exact ((haccept.mpr hzero).1 row hrow).text

/-- Three paragraphs, one of which begins with a byte that is not UTF-8. -/
def damagedText : List UInt8 := [0x61, 0x0A, 0x0A, 0xFF, 0x62, 0x0A, 0x20, 0x0A, 0x63]

/-- They are ingested. -/
theorem text_completes_iff_sample :
    ∃ d', (perform (runIngestion (textIngest damagedText .done))
        ({ document := some textDocument } : Store ℕ)).1 = .ok d' ∧
      d'.ingestionStatus = .completed ∧
      ∀ row ∈ (perform (runIngestion (textIngest damagedText .done))
        ({ document := some textDocument } : Store ℕ)).2.chunks, nul ∉ row.text :=
  (text_completes_iff rfl (by decide) (by decide)
    (works_textIngest (by decide) (fun _ => rfl) fun h => absurd h (by decide))).mpr (by decide)

/-- **A text of one zero is not ingested.** -/
theorem zero_not_ingested : ¬ ∀ (a : IngestAttempt) (d : Document) (data : List UInt8)
    (s : Store ℕ), s.document = some d → d.mimeType ∈ TextParser.mimeTypes → data ≠ [] →
      data.length ≤ maxUploadBytes → a.Works ℕ d data →
        ∃ d', (perform (runIngestion a) s).1 = .ok d' ∧ d'.ingestionStatus = .completed ∧
          ∀ row ∈ (perform (runIngestion a) s).2.chunks, nul ∉ row.text := by
  intro hclaim
  obtain ⟨d', hok, hcompleted, -⟩ := hclaim (textIngest [0] (.lost .crash)) textDocument [0]
    { document := some textDocument } rfl (by decide) (by decide) (by decide)
    (works_textIngest (by decide) (fun h => absurd h (by decide)) fun _ => ⟨_, rfl⟩)
  obtain ⟨-, -, -, hlands⟩ := succeeds_of_completed rfl hok hcompleted
  exact CommitReply.not_lands_lost _ hlands

end Ingest
end EvidenceLab
