/-
# Chunk provenance and completeness

What ingestion promises about the chunks it stores, end to end from the bytes of
the upload.  A citation resolves to an exact span: the offsets of a chunk slice
its text out of the document, and for a PDF out of the page it names
(`chunk_provenance`).  And nothing is lost: every character that is not blank
lies in some chunk (`chunk_completeness`).  Both are read off the layout of the
blocks in the document and the windows of the chunker in a block.
-/

import EvidenceLab.Ingest.BlockLayout
import EvidenceLab.Ingest.Windows

namespace EvidenceLab
namespace Ingest

open Text EvidenceLab.Core

variable (c : RecursiveCharacterChunker)

/-- `text[chunk.char_start:chunk.char_end] == chunk.text`, the span being
`start, stop`. -/
def Chunk.ResolvesTo (text : Str) (ch : Chunk) (start stop : ℕ) : Prop :=
  ch.charStart = some start ∧ ch.charEnd = some stop ∧ slice text start stop = ch.text

/-! ### From blocks to chunks -/

/-- **Chunks of blocks that stand in a text resolve to it**, inside the span of
their block. -/
theorem chunk_resolves {text : Str} {document : ParsedDocument}
    (hpos : ∀ b ∈ document.blocks, StandsAt text b.text b.span.2) {ch : Chunk}
    (h : ch ∈ c.chunk document) : ∃ b ∈ document.blocks, ch.page = b.page ∧
      ∃ start stop, ch.ResolvesTo text start stop ∧ b.span.2 ≤ start ∧
        stop ≤ b.span.2 + b.text.length := by
  obtain ⟨b, hb, piece, hp, htext, hpage, hs, he⟩ := c.mem_chunk h
  obtain ⟨o, ho, hst, hle, -⟩ := c.splitBlock_standsAt hp
  have hspan : piece.2 = b.span.2 + o := ho
  refine ⟨b, hb, hpage, piece.2, piece.2 + piece.1.length, ⟨hs, he, ?_⟩, by omega, by omega⟩
  rw [htext]
  exact standsAt_iff_slice.mp (hspan ▸ (hpos b hb).trans hst)

theorem standsAt_of_layout {text : Str} {blocks : List ParsedBlock}
    (h : Layout isSpace text 0 (blocks.map ParsedBlock.span)) :
    ∀ b ∈ blocks, StandsAt text b.text b.span.2 := fun _ hb =>
  (h.standsAt _ (List.mem_map_of_mem hb)).2.1

/-- **Chunk provenance.**  Every chunk of a text slices its own text out of the
decoded bytes.  Every chunk of a PDF slices its own text out of the joined page
texts, and its span lies inside the part its page contributes. -/
theorem chunk_provenance (filename : Option Str) :
    (∀ data, ∀ ch ∈ c.chunk (TextParser.parse data filename),
      ∃ start stop, ch.ResolvesTo (decodeUtf8 data) start stop) ∧
    ∀ file doc, PdfParser.parse (.ok file) filename = .ok doc → ∀ ch ∈ c.chunk doc,
      ∃ start stop, ch.ResolvesTo (pdfDocument file.texts) start stop ∧
        ∃ i raw, ch.page = some (i + 1) ∧ file.texts[i]? = some raw ∧
          StandsAt (pdfDocument file.texts) (strip isSpace raw) (pageStart file.texts i) ∧
          pageStart file.texts i ≤ start ∧
          stop ≤ pageStart file.texts i + (strip isSpace raw).length := by
  constructor
  · intro data ch hch
    obtain ⟨_, _, _, start, stop, h, -⟩ :=
      chunk_resolves c (standsAt_of_layout (TextParser.layout data filename)) hch
    exact ⟨start, stop, h⟩
  · intro file doc hdoc ch hch
    have hst := standsAt_of_layout (PdfParser.layout hdoc)
    obtain ⟨b, hb, hpage, start, stop, h, hs, he⟩ := chunk_resolves c hst hch
    obtain ⟨-, i, raw, hraw, hp, htext, ho⟩ :=
      pdfBlocks_page _ _ _ _ (PdfParser.blocks_of_parse hdoc) b hb
    rw [Nat.zero_add] at ho
    have hraw' : file.texts[i]? = some raw := hraw
    have ho' : b.span.2 = pageStart file.texts i := ho
    have hstb := hst b hb
    rw [htext, ho'] at hstb he
    rw [ho'] at hs
    exact ⟨start, stop, h, i, raw, by rw [hpage, hp, Nat.add_comm], hraw', hstb, hs, he⟩

/-- The offsets of a chunk of a text, and a PDF whose first page is blank. -/
theorem chunk_provenance_sample :
    (∃ start stop, Chunk.ResolvesTo (decodeUtf8 [0x61, 0x0A, 0x0A, 0x20, 0x62])
      ⟨lit ['b'], 1, 1, none, some 4, some 5⟩ start stop) ∧
    ∃ start stop, Chunk.ResolvesTo (pdfDocument [lit [' '], lit [' ', 'a', 'b'], lit ['c']])
        ⟨lit ['c'], 1, 1, some 3, some 3, some 4⟩ start stop ∧
      ∃ i raw, some 3 = some (i + 1) ∧ [lit [' '], lit [' ', 'a', 'b'], lit ['c']][i]? = some raw ∧
        StandsAt (pdfDocument [lit [' '], lit [' ', 'a', 'b'], lit ['c']]) (strip isSpace raw)
          (pageStart [lit [' '], lit [' ', 'a', 'b'], lit ['c']] i) ∧
        pageStart [lit [' '], lit [' ', 'a', 'b'], lit ['c']] i ≤ start ∧
        stop ≤ pageStart [lit [' '], lit [' ', 'a', 'b'], lit ['c']] i +
          (strip isSpace raw).length := by
  have h := chunk_provenance
    { chunkSize := 2, overlap := 1, chunkSize_pos := by decide, overlap_lt := by decide } none
  refine ⟨h.1 [0x61, 0x0A, 0x0A, 0x20, 0x62] _ (by decide), ?_⟩
  exact h.2
    { pages := [.ok (some (lit [' '])), .ok (some (lit [' ', 'a', 'b'])), .ok (some (lit ['c']))] }
    _ rfl _ (by decide)

/-- **Nothing is lost.**  The loop makes at most one pass a character; every
character of the text that is not blank lies in a chunk; chunks are stripped, not
empty and not longer than the chunk size; their offsets never decrease and their
ordinals count them. -/
theorem chunk_completeness (data : List UInt8) (filename : Option Str) :
    (∀ b ∈ (TextParser.parse data filename).blocks, (c.windows b.text).length ≤ b.text.length) ∧
    (∀ n x, (decodeUtf8 data)[n]? = some x → isSpace x = false →
      ∃ ch ∈ c.chunk (TextParser.parse data filename), ∃ start stop,
        ch.charStart = some start ∧ ch.charEnd = some stop ∧ start ≤ n ∧ n < stop) ∧
    (∀ ch ∈ c.chunk (TextParser.parse data filename),
      ch.text ≠ [] ∧ ch.text.length ≤ c.chunkSize ∧ Stripped isSpace ch.text) ∧
    (c.chunk (TextParser.parse data filename)).Pairwise (fun a b => ∃ s t,
      a.charStart = some s ∧ b.charStart = some t ∧ s ≤ t) ∧
    (c.chunk (TextParser.parse data filename)).map (·.ordinal) =
      List.range (c.chunk (TextParser.parse data filename)).length := by
  have hl := TextParser.layout data filename
  refine ⟨fun b hb => ?_, fun n x hx hb => ?_, fun ch hch => ?_, ?_, c.chunk_ordinals _⟩
  · obtain ⟨-, -, hne, -⟩ := hl.standsAt _ (List.mem_map_of_mem hb)
    have hlen := (c.sweep_windows (show b.text ≠ [] from hne)).length_le
    rwa [Nat.zero_add] at hlen
  · -- The character lies in a block, and there in one of its texts.
    obtain ⟨_, hq, h₁, h₂⟩ := hl.covers (Nat.zero_le n) hx hb
    obtain ⟨b, hbmem, rfl⟩ := List.mem_map.mp hq
    obtain ⟨m, rfl⟩ := Nat.exists_eq_add_of_le h₁
    have hst : StandsAt (decodeUtf8 data) b.text b.span.2 := standsAt_of_layout hl b hbmem
    have hm : m < b.text.length := by simp only [ParsedBlock.span] at h₂; omega
    rw [hst.getElem? hm] at hx
    obtain ⟨piece, hp, h₁, h₂⟩ := c.splitBlock_covers hx hb
    obtain ⟨ch, hch, -, hs, he⟩ := c.exists_chunk hbmem hp
    exact ⟨ch, hch, _, _, hs, he, h₁, h₂⟩
  · obtain ⟨b, -, piece, hp, htext, -⟩ := c.mem_chunk hch
    obtain ⟨-, -, -, -, hne, hsp, hsize⟩ := c.splitBlock_standsAt hp
    rw [htext]
    exact ⟨hne, hsize, hsp⟩
  · exact c.chunk_pairwise (List.pairwise_map.mp hl.pairwise)

end Ingest
end EvidenceLab
