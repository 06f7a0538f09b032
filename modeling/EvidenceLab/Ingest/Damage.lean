/-
# Damage stays in its paragraph

`TextParser` decodes leniently: a bad byte is no reason to fail an ingestion.  What it costs is
bounded.  The decoder loses nothing but the damaged bytes (`Text.decodeUtf8_around`), a blank
line separates whatever stands on its two sides (`blocksOf_append`), and a chunk is cut out of
one block (`chunk_append`).  So a file with damage in it has the chunks that its paragraphs have
in files of their own, in their places (`damage_contained`).
-/

import EvidenceLab.Ingest.BlankLines
import EvidenceLab.Ingest.Windows
import EvidenceLab.Text.Encoding
import EvidenceLab.Text.Pieces

namespace EvidenceLab
namespace Ingest

open Text EvidenceLab.Core

/-! ### Blocks -/

/-- A separator has the length of the line that it is. -/
theorem blockSeparatorLen_eq {sep : Str} (h : IsSeparator sep) (v : Str) :
    blockSeparatorLen (sep ++ v) = sep.length := by
  obtain ⟨gap, hgap, rfl⟩ := h
  have htake : (gap ++ [lf] ++ v).takeWhile (fun x => x == blankChar || x == tab) = gap := by
    rw [List.append_assoc, List.takeWhile_append_of_pos]
    · rw [List.singleton_append, List.takeWhile_cons_of_neg (by decide), List.append_nil]
    · intro c hc
      simpa using hgap c hc
  rw [List.cons_append, blockSeparatorLen, htake, if_pos]
  · simp
  · exact ⟨rfl, by simp⟩

/-- **A separator is found by looking at it alone.** -/
theorem local_blockSeparatorLen : Local blockSeparatorLen where
  outward u v h := by
    obtain ⟨-, hsep⟩ := isSeparator_of_blockSeparatorLen u
    have hall := blockSeparatorLen_eq (hsep h) (u.drop (blockSeparatorLen u) ++ v)
    rw [← List.append_assoc, List.take_append_drop] at hall
    have hmine := blockSeparatorLen_eq (hsep h) (u.drop (blockSeparatorLen u))
    rw [List.take_append_drop] at hmine
    exact hall.trans hmine.symm
  inward u v h hle := by
    obtain ⟨-, hsep⟩ := isSeparator_of_blockSeparatorLen (u ++ v)
    have hsep := hsep h
    rw [List.take_append_of_le_length hle] at hsep
    have hmine := blockSeparatorLen_eq hsep (u.drop (blockSeparatorLen (u ++ v)))
    rw [List.take_append_drop, List.length_take, Nat.min_eq_left hle] at hmine
    exact hmine

/-- The blocks of a text. -/
def blocksOf (text : Str) : List ParsedBlock := textBlocks text 0 (splitBlocks text)

/-- The block with a text at an offset. -/
def blockAt (piece : Str × ℕ) : ParsedBlock where
  text := piece.1
  charStart := some piece.2
  charEnd := some (piece.2 + piece.1.length)
  kind := if isMarkdownHeading piece.1 then .heading else .paragraph

/-- A block is its text at its offset. -/
theorem textBlocks_eq (text : Str) (cursor : ℕ) (raws : List Str) :
    textBlocks text cursor raws =
      ((textBlocks text cursor raws).map ParsedBlock.span).map blockAt := by
  induction raws generalizing cursor with
  | nil => rfl
  | cons raw raws ih =>
      rw [textBlocks]
      by_cases hraw : strip isSpace raw = []
      · rw [if_pos hraw]
        exact ih _
      · rw [if_neg hraw, List.map_cons, List.map_cons, ← ih]
        rfl

theorem blankLine_isSeparator : IsSeparator [lf, lf] := ⟨[], by simp [IsIndent], rfl⟩

/-- What stands where in a text with a blank line in it: what stands in its two parts. -/
theorem span_blocksOf_append (s t : Str) :
    (blocksOf (s ++ ([lf, lf] ++ t))).map ParsedBlock.span =
      (blocksOf s).map ParsedBlock.span ++
        ((blocksOf t).map ParsedBlock.span).map (moved (s ++ [lf, lf]).length) := by
  have hlayout : ∀ text, Layout isSpace text 0 ((blocksOf text).map ParsedBlock.span) := by
    intro text
    exact layout_textBlocks (cut_split separates_blockSeparatorLen text) 0 0 le_rfl
      (Nat.zero_le _) rfl fun n _ _ h => absurd h (Nat.not_lt_zero n)
  have htexts : ∀ text, ((blocksOf text).map ParsedBlock.span).map Prod.fst =
      strippedPieces isSpace blockSeparatorLen text := by
    intro text
    rw [List.map_map]
    exact texts_textBlocks text 0 (splitBlocks text)
  refine (hlayout _).unique ((hlayout s).append ?_ (hlayout t) (Nat.zero_le _)) ?_
  · exact isSpace_of_isSeparator blankLine_isSeparator
  · have hfst : ∀ base, (((blocksOf t).map ParsedBlock.span).map (moved base)).map Prod.fst =
        ((blocksOf t).map ParsedBlock.span).map Prod.fst := by
      intro base
      rw [List.map_map]
      rfl
    rw [List.map_append, hfst, htexts, htexts, htexts]
    exact strippedPieces_append isSeparator_of_blockSeparatorLen
      (fun _ hsep => isSpace_of_isSeparator hsep) local_blockSeparatorLen (List.cons_ne_nil _ _)
      (blockSeparatorLen_eq blankLine_isSeparator) s t

/-- A block of a text that stands behind another. -/
def ParsedBlock.moved (base : ℕ) (b : ParsedBlock) : ParsedBlock :=
  { b with charStart := b.charStart.map (base + ·), charEnd := b.charEnd.map (base + ·) }

/-- **A blank line separates whatever stands on its two sides.** -/
theorem blocksOf_append (s t : Str) : blocksOf (s ++ ([lf, lf] ++ t)) =
    blocksOf s ++ (blocksOf t).map (ParsedBlock.moved (s ++ [lf, lf]).length) := by
  have heq : ∀ text, blocksOf text = ((blocksOf text).map ParsedBlock.span).map blockAt :=
    fun text => textBlocks_eq text 0 (splitBlocks text)
  have hmoved : ∀ base piece, blockAt (Text.moved base piece) = (blockAt piece).moved base := by
    intro base piece
    simp only [blockAt, Text.moved, ParsedBlock.moved, Option.map_some, Nat.add_assoc]
    rfl
  rw [heq, span_blocksOf_append, List.map_append, ← heq, List.map_map]
  conv_rhs => rw [heq t, List.map_map]
  exact congrArg _ (List.map_congr_left fun piece _ => hmoved _ piece)

/-! ### Chunks -/

/-- A chunk of a text that stands behind another, with the chunks of that before it. -/
def Chunk.moved (number base : ℕ) (ch : Chunk) : Chunk :=
  { ch with
    ordinal := number + ch.ordinal
    charStart := ch.charStart.map (base + ·)
    charEnd := ch.charEnd.map (base + ·) }

namespace RecursiveCharacterChunker

variable (c : RecursiveCharacterChunker)

/-- The texts of a block that is moved. -/
theorem splitBlock_moved {b : ParsedBlock} (hb : b.Positioned) (base : ℕ) :
    c.splitBlock (b.moved base) = (c.splitBlock b).map (Text.moved base) := by
  have hstart : (b.moved base).charStart.getD 0 = base + b.charStart.getD 0 := by
    rw [ParsedBlock.moved, hb.1]
    rfl
  rw [splitBlock_eq, splitBlock_eq, hstart, List.map_map]
  refine List.map_congr_left fun piece _ => ?_
  simp only [shift, Text.moved, Function.comp_apply, Nat.add_assoc]

/-- **Chunks are cut out of one block.**  Those of blocks that stand behind others are numbered
on. -/
theorem chunk_append (blocks : List ParsedBlock) {behind : List ParsedBlock}
    (hbehind : ∀ b ∈ behind, b.Positioned) (base : ℕ) (document : ParsedDocument)
    (h : document.blocks = blocks ++ behind.map (ParsedBlock.moved base)) :
    c.chunk document = c.chunk { blocks } ++
      (c.chunk { blocks := behind }).map (Chunk.moved (c.chunk { blocks }).length base) := by
  have hpieces : c.pieces (behind.map (ParsedBlock.moved base)) =
      (c.pieces behind).map fun p => (p.1, Text.moved base p.2) := by
    rw [pieces, pieces, List.flatMap_map, List.map_flatMap]
    refine List.flatMap_congr fun b hb => ?_
    rw [c.splitBlock_moved (hbehind b hb), List.map_map, List.map_map]
    rfl
  have happend : c.pieces document.blocks =
      c.pieces blocks ++ (c.pieces behind).map fun p => (p.1, Text.moved base p.2) := by
    rw [h, ← hpieces, pieces, List.flatMap_append]
    rfl
  rw [chunk_eq, chunk_eq, chunk_eq, happend, List.mapIdx_append, List.length_mapIdx]
  refine congrArg _ (List.ext_getElem (by simp) fun i _ _ => ?_)
  simp only [List.getElem_mapIdx, List.getElem_map, mkChunk, Chunk.moved, Text.moved,
    Option.map_some, Nat.add_comm i, Nat.add_assoc]

/-- The chunks of a text file. -/
def chunkFile (filename : Option Str) (data : List UInt8) : List Chunk :=
  c.chunk (TextParser.parse data filename)

theorem chunkFile_eq (filename : Option Str) {data : List UInt8} {text : Str}
    (h : decodeUtf8 data = text) :
    c.chunkFile filename data = c.chunk { blocks := blocksOf text } := by
  subst h
  rfl

/-- The chunks of a text with a blank line in it are those of its two parts. -/
theorem chunk_blocksOf_append (s t : Str) :
    c.chunk { blocks := blocksOf (s ++ ([lf, lf] ++ t)) } =
      c.chunk { blocks := blocksOf s } ++ (c.chunk { blocks := blocksOf t }).map
        (Chunk.moved (c.chunk { blocks := blocksOf s }).length (s.length + 2)) := by
  refine c.chunk_append (blocksOf s) (fun b hb => ?_) (s.length + 2) _ ?_
  · exact (textBlocks_positioned t (splitBlocks t) 0 b hb).1
  · have happend := blocksOf_append s t
    rwa [List.length_append] at happend

end RecursiveCharacterChunker

/-- **Damage stays in its paragraph.**  A text file is written in UTF-8, and some bytes in it are
not: whatever they are, its chunks are those of three files, each in its place.  One has what is
before the paragraph of the damage, one that paragraph, in which every character but the damage
is read, and one what is behind it. -/
theorem damage_contained (c : RecursiveCharacterChunker) (filename : Option Str)
    {before front back behind : Str}
    (h : ∀ x ∈ before ++ front ++ back ++ behind, IsScalar x) (data : List UInt8) :
    let paragraph := encodeUtf8 front ++ data ++ encodeUtf8 back
    decodeUtf8 paragraph = front ++ decodeUtf8 data ++ back ∧
    c.chunkFile filename
        (encodeUtf8 (before ++ ([lf, lf] ++ front)) ++ data ++
          encodeUtf8 (back ++ ([lf, lf] ++ behind))) =
      c.chunkFile filename (encodeUtf8 before) ++
        (c.chunkFile filename paragraph ++
          (c.chunkFile filename (encodeUtf8 behind)).map
            (Chunk.moved (c.chunkFile filename paragraph).length
              ((decodeUtf8 paragraph).length + 2))).map
          (Chunk.moved (c.chunkFile filename (encodeUtf8 before)).length (before.length + 2)) := by
  simp only [List.forall_mem_append] at h
  obtain ⟨⟨⟨hbefore, hfront⟩, hback⟩, hbehind⟩ := h
  have hline : ∀ x ∈ [lf, lf], IsScalar x := by
    intro x hx
    rcases List.mem_pair.mp hx with rfl | rfl <;> decide
  intro paragraph
  have hparagraph : decodeUtf8 paragraph = front ++ decodeUtf8 data ++ back :=
    decodeUtf8_around hfront hback data
  have hahead : ∀ x ∈ before ++ ([lf, lf] ++ front), IsScalar x :=
    List.forall_mem_append.mpr ⟨hbefore, List.forall_mem_append.mpr ⟨hline, hfront⟩⟩
  have hrest : ∀ x ∈ back ++ ([lf, lf] ++ behind), IsScalar x :=
    List.forall_mem_append.mpr ⟨hback, List.forall_mem_append.mpr ⟨hline, hbehind⟩⟩
  have hfile := decodeUtf8_around hahead hrest data
  have htext : before ++ ([lf, lf] ++ front) ++ decodeUtf8 data ++ (back ++ ([lf, lf] ++ behind)) =
      before ++ ([lf, lf] ++ (front ++ decodeUtf8 data ++ back ++ ([lf, lf] ++ behind))) := by
    simp only [List.append_assoc]
  refine ⟨hparagraph, ?_⟩
  rw [c.chunkFile_eq filename (hfile.trans htext),
    c.chunkFile_eq filename (decodeUtf8_encodeUtf8 hbefore),
    c.chunkFile_eq filename (decodeUtf8_encodeUtf8 hbehind), c.chunkFile_eq filename hparagraph,
    c.chunk_blocksOf_append, c.chunk_blocksOf_append, hparagraph]

/-- The paragraph `bc` of three, with a byte between its letters that is no character. -/
theorem damage_contained_sample : ∃ c : RecursiveCharacterChunker,
    (c.chunkFile none
        ([0x61, 0x0A, 0x0A, 0x62] ++ [0xFF] ++ [0x63, 0x0A, 0x0A, 0x64])).map Chunk.text =
      [decodeUtf8 [0x61], decodeUtf8 [0x62, 0xFF, 0x63], decodeUtf8 [0x64]] := by
  have hletters : ∀ x ∈ decodeUtf8 [0x61] ++ decodeUtf8 [0x62] ++ decodeUtf8 [0x63] ++
      decodeUtf8 [0x64], IsScalar x := by
    intro x hx
    rcases List.mem_cons.mp hx with rfl | hx
    · decide
    rcases List.mem_cons.mp hx with rfl | hx
    · decide
    rcases List.mem_pair.mp hx with rfl | rfl <;> decide
  let c : RecursiveCharacterChunker :=
    { chunkSize := 4, overlap := 1, chunkSize_pos := by decide, overlap_lt := by decide }
  have hcontained := (damage_contained c none hletters [0xFF]).2
  exact ⟨c, (congrArg (List.map Chunk.text) hcontained).trans rfl⟩

end Ingest
end EvidenceLab
