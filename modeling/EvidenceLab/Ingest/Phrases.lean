/-
# What the overlap is for

Chunks overlap so that a phrase is not lost where a block is cut: one that begins and ends with
a character that is not blank lies whole inside some chunk, if it is no longer than `kept`, one
character more than the overlap.  The other bound in `kept` matters only for an overlap of more
than a quarter of the chunk size: a window that is cut at an early separator is too short for a
longer phrase.  For every chunker there are phrases of one character more than that which no
chunk holds (`phrases_kept`).
-/

import EvidenceLab.Ingest.BlankLines
import EvidenceLab.Ingest.Redundancy

namespace EvidenceLab
namespace Ingest

open Text EvidenceLab.Core

/-- A phrase begins and ends with a character that is not blank. -/
def IsPhrase (phrase : Str) : Prop := phrase ≠ [] ∧ Stripped isSpace phrase

namespace RecursiveCharacterChunker

variable (c : RecursiveCharacterChunker) {text phrase : Str}

/-- The length up to which phrases are kept. -/
def kept : ℕ := min (c.overlap + 1) c.reach

/-! ### Phrases of a block -/

/-- **Some window of the loop holds a short range**, for the next one starts no later than the
range if this one ends inside it. -/
theorem exists_window {start length cursor : ℕ} (hpos : 0 < length) (hlength : length ≤ c.kept)
    (hstart : cursor ≤ start) (hend : start + length ≤ text.length) :
    ∃ w ∈ c.windowsFrom text cursor, w.1 ≤ start ∧ start + length ≤ w.2 := by
  have hoverlap : length ≤ c.overlap + 1 := hlength.trans (min_le_left _ _)
  have hreach : length ≤ c.reach := hlength.trans (min_le_right _ _)
  induction cursor using windowsFrom.induct c text with
  | case1 cursor h stop hstop =>
      rw [windowsFrom, if_pos h, if_pos hstop]
      exact ⟨_, List.mem_singleton_self _, hstart, hend.trans hstop⟩
  | case2 cursor h stop hstop ih =>
      rw [windowsFrom, if_pos h, if_neg hstop]
      by_cases hin : start + length ≤ stop
      · exact ⟨_, List.mem_cons_self, hstart, hin⟩
      · have hfar : cursor + c.reach ≤ stop := c.reach_le (not_le.mp hstop)
        obtain ⟨w, hw, hwindow⟩ := ih (max_le (by omega) (by omega))
        exact ⟨w, List.mem_cons_of_mem _ hw, hwindow⟩
  | case3 cursor hge => omega

/-- A window that holds a phrase has it in its text. -/
theorem infix_windowText {w : ℕ × ℕ} {start : ℕ} (hphrase : IsPhrase phrase)
    (hstands : StandsAt text phrase start) (hstart : w.1 ≤ start)
    (hend : start + phrase.length ≤ w.2) : phrase <:+: (windowText isSpace text w).1 := by
  obtain ⟨n, rfl⟩ := Nat.exists_eq_add_of_le hstart
  have hslice := hstands.slice hend
  refine infix_strip hphrase.1 hphrase.2 ?_
  exact hslice.isInfix.trans (List.drop_suffix n _).isInfix

/-- **A short phrase of a block lies inside a chunk**, with the page of the block. -/
theorem exists_chunk_of_phrase {document : ParsedDocument} {b : ParsedBlock}
    (hb : b ∈ document.blocks) (hphrase : IsPhrase phrase) (hin : phrase <:+: b.text)
    (hlength : phrase.length ≤ c.kept) :
    ∃ ch ∈ c.chunk document, ch.page = b.page ∧ phrase <:+: ch.text := by
  obtain ⟨u, v, htext⟩ := hin
  have hpos := List.length_pos_iff.mpr hphrase.1
  have hstands : StandsAt b.text phrase u.length := htext ▸ standsAt_append u phrase v
  have hend := hstands.add_le hphrase.1
  have hwindow : ∃ w ∈ c.windows b.text, w.1 ≤ u.length ∧ u.length + phrase.length ≤ w.2 := by
    rw [windows]
    split_ifs with hshort
    · exact ⟨_, List.mem_singleton_self _, Nat.zero_le _, hend⟩
    · exact c.exists_window hpos hlength (Nat.zero_le _) hend
  obtain ⟨w, hw, hstart, hend⟩ := hwindow
  have hinfix := infix_windowText hphrase hstands hstart hend
  have hne : (windowText isSpace b.text w).1 ≠ [] := by
    intro hnil
    rw [hnil] at hinfix
    exact hphrase.1 (List.infix_nil.mp hinfix)
  have hpiece : shift (b.charStart.getD 0) (windowText isSpace b.text w) ∈ c.splitBlock b := by
    rw [splitBlock_eq]
    exact List.mem_map_of_mem (List.mem_filter.mpr ⟨List.mem_map_of_mem hw, decide_eq_true hne⟩)
  obtain ⟨i, hi⟩ := c.exists_mkChunk hb hpiece
  exact ⟨_, hi, rfl, hinfix⟩

end RecursiveCharacterChunker


/-! ### Phrases of a file -/

/-- A phrase without a separator lies inside one block of the text. -/
theorem exists_block_of_phrase {data : List UInt8} {phrase : Str} (filename : Option Str)
    (hphrase : IsPhrase phrase) (hseparator : ¬ HoldsSeparator phrase)
    (hin : phrase <:+: decodeUtf8 data) :
    ∃ b ∈ (TextParser.parse data filename).blocks, phrase <:+: b.text := by
  obtain ⟨piece, hpiece, hin⟩ := (cut_splitBlocks (decodeUtf8 data)).exists_mem
    (fun sep hsep => isSpace_of_isSeparator hsep) hphrase.1 hphrase.2
    (fun sep hsep hin => hseparator ⟨sep, hsep, hin⟩) hin
  have hstrip := infix_strip hphrase.1 hphrase.2 hin
  have hne : strip isSpace piece ≠ [] := by
    intro hnil
    rw [hnil] at hstrip
    exact hphrase.1 (List.infix_nil.mp hstrip)
  have htext : strip isSpace piece ∈ (TextParser.parse data filename).blocks.map (·.text) := by
    rw [texts_parse]
    exact List.mem_filter.mpr ⟨List.mem_map_of_mem hpiece, decide_eq_true hne⟩
  obtain ⟨b, hb, heq⟩ := List.mem_map.mp htext
  exact ⟨b, hb, heq ▸ hstrip⟩

/-- A page that is not blank is a block. -/
theorem exists_block_of_page {filename : Option Str} (pages : List (Except Exc (Option Str))) :
    ∀ number offset blocks, pdfBlocks filename number offset pages = .ok blocks →
      ∀ i raw, (PdfFile.texts { pages })[i]? = some raw → strip isSpace raw ≠ [] →
        ∃ b ∈ blocks, b.page = some (number + i) ∧ b.text = strip isSpace raw := by
  induction pages with
  | nil =>
      intro number offset blocks h i raw hraw
      cases hraw
  | cons page rest ih =>
      intro number offset blocks h i raw hraw hne
      obtain ⟨extracted, rfl, hcase⟩ := pdfBlocks_cons h
      rw [texts_cons] at hraw
      cases i with
      | zero =>
          obtain rfl := Option.some.inj hraw
          rcases hcase with ⟨hblank, -⟩ | ⟨-, b, tail, rfl, -, htext, hpage, -⟩
          · exact absurd hblank hne
          · exact ⟨b, List.mem_cons_self, hpage, htext⟩
      | succ i =>
          rw [List.getElem?_cons_succ] at hraw
          have hnumber : number + (i + 1) = number + 1 + i := by omega
          rw [hnumber]
          rcases hcase with ⟨-, hrest⟩ | ⟨-, b, tail, rfl, hrest, -⟩
          · exact ih _ _ _ hrest i raw hraw hne
          · obtain ⟨b', hb', hblock⟩ := ih _ _ _ hrest i raw hraw hne
            exact ⟨b', List.mem_cons_of_mem _ hb', hblock⟩

/-! ### Longer phrases -/

/-- Nothing is cut at a separator where nothing is blank. -/
theorem boundaryIn_of_solid (c : RecursiveCharacterChunker) {window : Str}
    (hsolid : ∀ x ∈ window, isSpace x = false) (start stop : ℕ) {seps : List Str}
    (hseps : ∀ sep ∈ seps, ∃ x ∈ sep, isSpace x = true) :
    c.boundaryIn window start stop seps = stop := by
  induction seps with
  | nil => rfl
  | cons sep rest ih =>
      rw [RecursiveCharacterChunker.boundaryIn]
      cases hfind : rfind window sep with
      | none => exact ih fun sep hsep => hseps sep (List.mem_cons_of_mem _ hsep)
      | some index =>
          obtain ⟨x, hx, hblank⟩ := hseps sep List.mem_cons_self
          have hmem := List.mem_of_mem_drop ((rfind_eq_some hfind).1.subset hx)
          rw [hsolid x hmem] at hblank
          cases hblank

theorem isSpace_separators : ∀ sep ∈ separators, ∃ x ∈ sep, isSpace x = true := by
  have hblank : isSpace blankChar = true := by decide
  simp [separators, isSpace_lf, hblank]

theorem stripped_of_solid {s : Str} (hsolid : ∀ x ∈ s, isSpace x = false) : Stripped isSpace s :=
  ⟨fun x hx => hsolid x (List.mem_of_head? hx), fun x hx => hsolid x (List.mem_of_getLast? hx)⟩

/-- A text that is not blank anywhere is one block. -/
theorem texts_of_solid {data : List UInt8} (filename : Option Str)
    (hsolid : ∀ x ∈ decodeUtf8 data, isSpace x = false) :
    ∀ b ∈ (TextParser.parse data filename).blocks, b.text = decodeUtf8 data := by
  have hsplit : splitBlocks (decodeUtf8 data) = [decodeUtf8 data] := by
    refine split_eq_singleton fun u hu => ?_
    cases u with
    | nil => rfl
    | cons x u =>
        have hx := hsolid x (hu.subset List.mem_cons_self)
        rw [blockSeparatorLen, if_neg]
        rintro ⟨rfl, -⟩
        rw [isSpace_lf] at hx
        cases hx
  have hstrip : strip isSpace ([] ++ decodeUtf8 data ++ []) = decodeUtf8 data :=
    strip_eq (List.forall_mem_nil _) (List.forall_mem_nil _) (stripped_of_solid hsolid)
  rw [List.nil_append, List.append_nil] at hstrip
  intro b hb
  have htext : b.text ∈ (TextParser.parse data filename).blocks.map (·.text) :=
    List.mem_map_of_mem hb
  rw [texts_parse, hsplit, List.map_singleton, hstrip] at htext
  exact List.mem_singleton.mp (List.mem_of_mem_filter htext)

section Lost

variable (c : RecursiveCharacterChunker)

/-- A phrase that is one character too long: a `b`, as many `a` as overlap, and a `c`. -/
def lostBytes : List UInt8 := 0x62 :: (List.replicate c.overlap 0x61 ++ [0x63])

/-- It begins where the second window does not reach back to, and ends behind the first one. -/
def lostData : List UInt8 := List.replicate (c.chunkSize - c.overlap - 1) 0x61 ++ lostBytes c

/-- The characters of seven-bit text. -/
def chars (data : List UInt8) : Str := data.map fun b => Fin.ofNat _ b.toNat

theorem decodeUtf8_lostData : decodeUtf8 (lostData c) =
    chars (List.replicate (c.chunkSize - c.overlap - 1) 0x61) ++ chars (lostBytes c) := by
  rw [decodeUtf8_ascii, lostData, List.map_append]
  · rfl
  · intro b hb
    simp only [lostData, lostBytes, List.mem_append, List.mem_replicate, List.mem_cons,
      List.not_mem_nil, or_false] at hb
    rcases hb with ⟨-, rfl⟩ | rfl | ⟨-, rfl⟩ | rfl <;> decide

theorem solid_lostData : ∀ x ∈ decodeUtf8 (lostData c), isSpace x = false := by
  rw [decodeUtf8_lostData, chars, chars, ← List.map_append]
  refine List.forall_mem_map.mpr fun b hb => ?_
  simp only [lostBytes, List.mem_append, List.mem_replicate, List.mem_cons, List.not_mem_nil,
    or_false] at hb
  rcases hb with ⟨-, rfl⟩ | rfl | ⟨-, rfl⟩ | rfl <;> decide

/-- The phrase is in the text, and none of it is blank. -/
theorem lost_isPhrase : chars (lostBytes c) <:+: decodeUtf8 (lostData c) ∧
    IsPhrase (chars (lostBytes c)) ∧ ¬ HoldsSeparator (chars (lostBytes c)) := by
  have hin : chars (lostBytes c) <:+: decodeUtf8 (lostData c) := by
    rw [decodeUtf8_lostData]
    exact (List.suffix_append _ _).isInfix
  have hsolid : ∀ x ∈ chars (lostBytes c), isSpace x = false :=
    fun x hx => solid_lostData c x (hin.subset hx)
  refine ⟨hin, ⟨List.cons_ne_nil _ _, stripped_of_solid hsolid⟩, ?_⟩
  rintro ⟨sep, hsep, hsub⟩
  obtain ⟨x, hx⟩ := List.exists_mem_of_ne_nil sep hsep.blankLine.ne_nil
  have hblank := isSpace_of_isSeparator hsep x hx
  rw [hsolid x (hsub.subset hx)] at hblank
  cases hblank

theorem length_lostData : (decodeUtf8 (lostData c)).length = c.chunkSize + 1 := by
  have hlt := c.overlap_lt
  simp only [decodeUtf8_lostData, chars, lostBytes, List.length_append, List.length_map,
    List.length_replicate, List.length_cons, List.length_nil]
  omega

/-- The first window ends at the last character, and the others begin behind the `b`. -/
theorem windows_lostData : ∀ w ∈ c.windows (decodeUtf8 (lostData c)),
    w = (0, c.chunkSize) ∨ c.chunkSize - c.overlap ≤ w.1 := by
  have hlt := c.overlap_lt
  have hlength := length_lostData c
  set text := decodeUtf8 (lostData c) with htext
  have hstop : c.windowEnd text 0 = c.chunkSize := by
    have hsize : min (0 + c.chunkSize) text.length = c.chunkSize := by omega
    simp only [RecursiveCharacterChunker.windowEnd, hsize]
    rw [if_pos (by omega), RecursiveCharacterChunker.boundary]
    refine boundaryIn_of_solid c (fun x hx => ?_) 0 c.chunkSize isSpace_separators
    exact solid_lostData c x (List.mem_of_mem_drop (List.mem_of_mem_take hx))
  rw [RecursiveCharacterChunker.windows, if_neg (by omega),
    RecursiveCharacterChunker.windowsFrom, if_pos (by omega)]
  dsimp only
  rw [hstop, if_neg (by omega)]
  intro w hw
  rcases List.mem_cons.mp hw with rfl | hw
  · exact Or.inl rfl
  · have hnext : max (0 + 1) (c.chunkSize - c.overlap) = c.chunkSize - c.overlap := by omega
    rw [hnext] at hw
    exact Or.inr ((c.sweep_windowsFrom text _ (by omega)).bounds w hw).1

/-- **No chunk holds the phrase.** -/
theorem not_infix_lost (filename : Option Str) :
    ∀ ch ∈ c.chunk (TextParser.parse (lostData c) filename),
      ¬ chars (lostBytes c) <:+: ch.text := by
  intro ch hch hin
  have hlt := c.overlap_lt
  obtain ⟨b, hb, piece, hpiece, htext, -⟩ := c.mem_chunk hch
  have hblock := texts_of_solid filename (solid_lostData c) b hb
  rw [c.splitBlock_eq, hblock] at hpiece
  obtain ⟨q, hq, rfl⟩ := List.mem_map.mp hpiece
  obtain ⟨w, hw, rfl⟩ := List.mem_map.mp (List.mem_of_mem_filter hq)
  have hslice : chars (lostBytes c) <:+: slice (decodeUtf8 (lostData c)) w.1 w.2 :=
    (htext ▸ hin).trans (strip_isInfix isSpace _)
  rcases windows_lostData c w hw with rfl | hlate
  · -- The `c` is behind the first window.
    have hmem := hslice.subset (show (Fin.ofNat _ 0x63 : CodePoint) ∈ _ by simp [chars, lostBytes])
    have hcut : decodeUtf8 (lostData c) =
        chars (List.replicate (c.chunkSize - c.overlap - 1) 0x61 ++
          0x62 :: List.replicate c.overlap 0x61) ++ chars [0x63] := by
      rw [decodeUtf8_lostData]
      simp [chars, lostBytes]
    rw [hcut, slice, List.drop_zero, Nat.sub_zero, List.take_left' (by simp [chars]; omega)] at hmem
    obtain ⟨byte, hbyte, heq⟩ := List.mem_map.mp hmem
    simp only [List.mem_append, List.mem_replicate, List.mem_cons] at hbyte
    rcases hbyte with ⟨-, rfl⟩ | rfl | ⟨-, rfl⟩ <;> revert heq <;> decide
  · -- The `b` is before every other one.
    have hmem := hslice.subset (show (Fin.ofNat _ 0x62 : CodePoint) ∈ _ by simp [chars, lostBytes])
    have hcut : decodeUtf8 (lostData c) =
        chars (List.replicate (c.chunkSize - c.overlap - 1) 0x61 ++ [0x62]) ++
          chars (List.replicate c.overlap 0x61 ++ [0x63]) := by
      rw [decodeUtf8_lostData]
      simp [chars, lostBytes]
    have hdrop := List.mem_of_mem_take hmem
    obtain ⟨n, hn⟩ := Nat.exists_eq_add_of_le hlate
    rw [hn, ← List.drop_drop, hcut, List.drop_left' (by simp [chars]; omega)] at hdrop
    obtain ⟨byte, hbyte, heq⟩ := List.mem_map.mp (List.mem_of_mem_drop hdrop)
    simp only [List.mem_append, List.mem_replicate, List.mem_cons, List.not_mem_nil,
      or_false] at hbyte
    rcases hbyte with ⟨-, rfl⟩ | rfl <;> revert heq <;> decide

end Lost

/-- **Overlap keeps phrases whole.**  A phrase of a text without a blank line in it, and a phrase
of a page, lie inside a chunk, that of the page with its number, if they are no longer than the
overlap and one character more, and than the shortest window.  For every chunker there is a text
with a phrase that is one character longer than the overlap allows, and inside no chunk. -/
theorem phrases_kept (c : RecursiveCharacterChunker) (filename : Option Str) :
    (∀ data phrase, IsPhrase phrase → ¬ HoldsSeparator phrase → phrase <:+: decodeUtf8 data →
      phrase.length ≤ min (c.overlap + 1) c.reach →
      ∃ ch ∈ c.chunk (TextParser.parse data filename), phrase <:+: ch.text) ∧
    (∀ file doc, PdfParser.parse (.ok file) filename = .ok doc →
      ∀ i raw, file.texts[i]? = some raw → ∀ phrase, IsPhrase phrase → phrase <:+: raw →
      phrase.length ≤ min (c.overlap + 1) c.reach →
      ∃ ch ∈ c.chunk doc, ch.page = some (i + 1) ∧ phrase <:+: ch.text) ∧
    ∃ data phrase, IsPhrase phrase ∧ ¬ HoldsSeparator phrase ∧ phrase <:+: decodeUtf8 data ∧
      phrase.length = c.overlap + 2 ∧
      ∀ ch ∈ c.chunk (TextParser.parse data filename), ¬ phrase <:+: ch.text := by
  obtain ⟨hlostin, hlost, hlostsep⟩ := lost_isPhrase c
  refine ⟨?_, ?_, lostData c, chars (lostBytes c), hlost, hlostsep, hlostin, ?_,
    not_infix_lost c filename⟩
  · intro data phrase hphrase hseparator hin hlength
    obtain ⟨b, hb, hblock⟩ := exists_block_of_phrase filename hphrase hseparator hin
    obtain ⟨ch, hch, -, hchunk⟩ := c.exists_chunk_of_phrase hb hphrase hblock hlength
    exact ⟨ch, hch, hchunk⟩
  · intro file doc hdoc i raw hraw phrase hphrase hin hlength
    have hstrip := infix_strip hphrase.1 hphrase.2 hin
    have hne : strip isSpace raw ≠ [] := by
      intro hnil
      rw [hnil] at hstrip
      exact hphrase.1 (List.infix_nil.mp hstrip)
    obtain ⟨b, hb, hpage, htext⟩ := exists_block_of_page file.pages 1 0 doc.blocks
      (PdfParser.blocks_of_parse hdoc) i raw hraw hne
    obtain ⟨ch, hch, hchpage, hchunk⟩ :=
      c.exists_chunk_of_phrase hb hphrase (htext ▸ hstrip) hlength
    exact ⟨ch, hch, by rw [hchpage, hpage, Nat.add_comm], hchunk⟩
  · simp [chars, lostBytes]

/-- A phrase of two characters, with an overlap of one. -/
theorem phrases_kept_sample : ∃ c : RecursiveCharacterChunker, c.chunkSize = 4 ∧ c.overlap = 1 ∧
    ∃ ch ∈ c.chunk (TextParser.parse [0x61, 0x62, 0x63, 0x64, 0x65, 0x66] none),
      chars [0x64, 0x65] <:+: ch.text := by
  have hphrase : IsPhrase (chars [0x64, 0x65]) := by
    refine ⟨by decide, stripped_of_solid (List.forall_mem_cons.mpr ⟨by decide, ?_⟩)⟩
    exact List.forall_mem_singleton.mpr (by decide)
  refine ⟨{ chunkSize := 4, overlap := 1, chunkSize_pos := by decide, overlap_lt := by decide },
    rfl, rfl, (phrases_kept _ none).1 _ _ hphrase ?_ (by decide) (by decide)⟩
  rintro ⟨_, ⟨gap, -, rfl⟩, hsub⟩
  have hmem := hsub.subset List.mem_cons_self
  revert hmem
  decide

end Ingest
end EvidenceLab
