/-
# The parsers lay their blocks out in the document

`Layout` of `EvidenceLab.Text.Layout`, for the two parsers.  The text parser
does not remember where the split cut a piece: it searches for it again from a
cursor, and a blank piece, or a piece that also occurs in a separator, is found
too early.  That never moves a block (`layout_textBlocks`): everything between
the cursor and the true position of a piece is blank, so an early hit can only
be that of a blank piece, which yields no block and leaves only blanks behind
the cursor again.

The PDF parser numbers the blocks of a document that exists nowhere as a value:
the stripped texts of its pages that hold any, joined by line feeds
(`pdfDocument`).  Its blocks are laid out there (`layout_pdfBlocks`), each where
its page's text starts (`pdfBlocks_page`).
-/

import EvidenceLab.Ingest.Parsing
import EvidenceLab.Text.Layout

namespace EvidenceLab
namespace Ingest

open Text EvidenceLab.Core

/-- A block's text with its offset. -/
def ParsedBlock.span (b : ParsedBlock) : Str × ℕ := (b.text, b.charStart.getD 0)

/-- The offsets of a block are set, and its end is its start plus its length. -/
def ParsedBlock.Positioned (b : ParsedBlock) : Prop :=
  b.charStart = some b.span.2 ∧ b.charEnd = some (b.span.2 + b.text.length)

/-! ### Plain text -/

theorem isSpace_lf : isSpace lf = true := by decide

/-- A separator consists of blanks. -/
theorem separates_blockSeparatorLen :
    Separates blockSeparatorLen fun sep => ∀ x ∈ sep, isSpace x = true := by
  intro s
  cases s with
  | nil => exact ⟨le_rfl, fun h => absurd h (lt_irrefl 0)⟩
  | cons c s =>
      simp only [blockSeparatorLen]
      set gap := s.takeWhile fun x => x == blankChar || x == tab with hgap
      split_ifs with h
      · obtain ⟨hc, hnext⟩ := h
        have hlt : gap.length < s.length := (List.getElem?_eq_some_iff.mp hnext).1
        refine ⟨by rw [List.length_cons]; omega, fun _ x hx => ?_⟩
        have hpre : s.take gap.length = gap :=
          (List.prefix_iff_eq_take.mp (List.takeWhile_prefix _)).symm
        rw [List.take_succ_cons, List.take_add_one, hpre, hnext] at hx
        rcases List.mem_cons.mp hx with rfl | hx
        · exact hc ▸ isSpace_lf
        · rcases List.mem_append.mp hx with hx | hx
          · have := List.mem_takeWhile_imp hx
            simp only [Bool.or_eq_true, beq_iff_eq] at this
            rcases this with rfl | rfl <;> decide
          · rw [Option.toList_some, List.mem_singleton] at hx
            exact hx ▸ isSpace_lf
      · exact ⟨Nat.zero_le _, fun h => absurd h (lt_irrefl 0)⟩

/-- **One piece of the split.**  The piece stands at `q`, only blanks lie between
the cursor and `q`, and the rest is laid out from any cursor behind which only
blanks lie up to the end of the piece. -/
theorem layout_textBlocks_cons {text raw : Str} {rest : List Str} {cursor q : ℕ}
    (hc : cursor ≤ q) (hq : q ≤ text.length) (hst : StandsAt text raw q)
    (hb : BlankOn isSpace text cursor q)
    (hrest : ∀ cursor', cursor' ≤ q + raw.length →
      BlankOn isSpace text cursor' (q + raw.length) →
        Layout isSpace text cursor' ((textBlocks text cursor' rest).map ParsedBlock.span)) :
    Layout isSpace text cursor ((textBlocks text cursor (raw :: rest)).map ParsedBlock.span) := by
  by_cases hraw : strip isSpace raw = []
  · -- A blank piece: found at `q` or earlier, and dropped.
    obtain ⟨i, hf, hci, hiq, -⟩ := exists_find_le hc hq hst
    have hblank := hb.join (hst.blankOn ((strip_eq_nil_iff isSpace).mp hraw))
    simp only [textBlocks, hf, Option.getD_some, hraw, if_true]
    exact (hrest (i + raw.length) (by omega) (hblank.mono (by omega) le_rfl)).extend (by omega)
      (hblank.mono le_rfl (by omega))
  · -- A piece with text is found where it was cut.
    have hf : find text raw cursor = some q := find_eq_of_blankOn isSpace hc hst hb hraw
    have hlead : BlankOn isSpace text cursor (q + lead isSpace raw) := by
      have hpre := hst.trans (j := 0)
        (standsAt_zero (List.takeWhile_prefix isSpace (l := raw)))
      have hbl : BlankOn isSpace text _ _ := hpre.blankOn fun x hx => List.mem_takeWhile_imp hx
      rw [← lead_eq_length_takeWhile, Nat.add_zero] at hbl
      exact hb.join hbl
    have htail : BlankOn isSpace text (q + lead isSpace raw + (strip isSpace raw).length)
        (q + raw.length) := by
      intro n x hn hn' hx
      obtain ⟨m, rfl⟩ := Nat.exists_eq_add_of_le (show q ≤ n by omega)
      rw [hst.getElem? (by omega)] at hx
      exact blankOn_tail isSpace raw m x (by omega) (by omega) hx
    have hle := length_strip_le isSpace raw
    simp only [textBlocks, hf, Option.getD_some, hraw, if_false, List.map_cons, ParsedBlock.span]
    refine .cons (Nat.le_add_right_of_le hc) hlead
      (hst.trans (standsAt_strip isSpace raw)) hraw (stripped_strip isSpace raw) ?_
    exact (hrest (q + raw.length) le_rfl fun n _ h h' => absurd h' (by omega)).extend
      (by omega) htail

/-- **The text parser lays its blocks out in the text.**  By induction on the
cut of the text into pieces: behind each piece only blanks lie between the
cursor and the position of the next. -/
theorem layout_textBlocks {text s : Str} {raws : List Str}
    (h : Cut (fun sep => ∀ x ∈ sep, isSpace x = true) s raws) :
    ∀ cursor q, cursor ≤ q → q ≤ text.length → text.drop q = s → BlankOn isSpace text cursor q →
      Layout isSpace text cursor ((textBlocks text cursor raws).map ParsedBlock.span) := by
  induction h with
  | last p =>
      intro cursor q hc hq hs hb
      refine layout_textBlocks_cons hc hq (hs ▸ List.prefix_rfl) hb fun cursor' _ hb' => ?_
      have hlen := congrArg List.length hs
      rw [List.length_drop] at hlen
      exact .nil (by rwa [show q + p.length = text.length by omega] at hb')
  | @cons p sep s ps hsep _ ih =>
      intro cursor q hc hq hs hb
      have hlen := congrArg List.length hs
      simp only [List.length_drop, List.length_append] at hlen
      have hdrop : ∀ u v : Str, text.drop q = u ++ v → text.drop (q + u.length) = v :=
        fun u v h => by rw [← List.drop_drop, h, List.drop_left]
      have hstp : StandsAt text p q := by
        rw [StandsAt, hs, List.append_assoc]
        exact List.prefix_append ..
      refine layout_textBlocks_cons hc hq hstp hb fun cursor' hc' hb' => ?_
      have hst : StandsAt text sep (q + p.length) := by
        rw [StandsAt, hdrop p (sep ++ s) (by rw [hs, List.append_assoc])]
        exact List.prefix_append ..
      refine ih cursor' (q + (p ++ sep).length) ?_ ?_ (hdrop _ _ hs) ?_
      · rw [List.length_append]; omega
      · rw [List.length_append]; omega
      · rw [List.length_append, ← Nat.add_assoc]
        exact hb'.join (hst.blankOn hsep)

theorem TextParser.layout (data : List UInt8) (filename : Option Str) :
    Layout isSpace (decodeUtf8 data) 0
      ((TextParser.parse data filename).blocks.map ParsedBlock.span) :=
  layout_textBlocks (cut_split separates_blockSeparatorLen (decodeUtf8 data)) 0 0 le_rfl
    (Nat.zero_le _) rfl fun n _ _ h => absurd h (Nat.not_lt_zero n)

/-- The blocks of the text parser have their offsets set, and no page. -/
theorem textBlocks_positioned (text : Str) (raws : List Str) :
    ∀ cursor, ∀ b ∈ textBlocks text cursor raws, b.Positioned ∧ b.page = none := by
  induction raws with
  | nil => exact fun _ b hb => absurd hb List.not_mem_nil
  | cons raw rest ih =>
      intro cursor b hb
      simp only [textBlocks] at hb
      by_cases hraw : strip isSpace raw = []
      · rw [if_pos hraw] at hb
        exact ih _ b hb
      · rw [if_neg hraw] at hb
        rcases List.mem_cons.mp hb with rfl | hb
        · exact ⟨⟨rfl, rfl⟩, rfl⟩
        · exact ih _ b hb

/-! ### PDF -/

/-- The page texts `pypdf` returns. -/
def PdfFile.texts (file : PdfFile) : List Str :=
  file.pages.map fun page => (page.toOption.getD none).getD []

/-- The stripped page texts that hold any text. -/
def contributions (texts : List Str) : List Str :=
  (texts.map (strip isSpace)).filter (· ≠ [])

/-- The texts joined by one line feed. -/
def joinLines (texts : List Str) : Str := [lf].intercalate texts

/-- The document whose offsets the blocks of a PDF carry. -/
def pdfDocument (texts : List Str) : Str := joinLines (contributions texts)

/-- Where the text of page `i + 1` starts in the document. -/
def pageStart (texts : List Str) (i : ℕ) : ℕ :=
  ((contributions (texts.take i)).map fun t => t.length + 1).sum

theorem joinLines_cons_cons (t t' : Str) (ts : List Str) :
    joinLines (t :: t' :: ts) = t ++ [lf] ++ joinLines (t' :: ts) := by
  simp [joinLines, List.intercalate]

theorem contributions_cons (t : Str) (ts : List Str) :
    contributions (t :: ts) = if strip isSpace t = [] then contributions ts
      else strip isSpace t :: contributions ts := by
  simp only [contributions, List.map_cons, List.filter_cons, decide_not, Bool.not_eq_true',
    decide_eq_false_iff_not]
  split_ifs <;> rfl

theorem pageStart_cons_succ (t : Str) (ts : List Str) (i : ℕ) :
    pageStart (t :: ts) (i + 1) = (if strip isSpace t = [] then 0
      else (strip isSpace t).length + 1) + pageStart ts i := by
  rw [pageStart, List.take_succ_cons, contributions_cons]
  split_ifs
  · rw [Nat.zero_add, pageStart]
  · rw [List.map_cons, List.sum_cons, pageStart]

/-- One page of `pdfBlocks`, when the parser returns: the page gave a text, and
either it is blank or it is the first block. -/
theorem pdfBlocks_cons {filename : Option Str} {number offset : ℕ}
    {page : Except Exc (Option Str)} {rest : List (Except Exc (Option Str))}
    {blocks : List ParsedBlock}
    (h : pdfBlocks filename number offset (page :: rest) = .ok blocks) :
    ∃ extracted, page = .ok extracted ∧
      ((strip isSpace (extracted.getD []) = [] ∧
          pdfBlocks filename (number + 1) offset rest = .ok blocks) ∨
        strip isSpace (extracted.getD []) ≠ [] ∧ ∃ b tail, blocks = b :: tail ∧
          pdfBlocks filename (number + 1)
            (offset + ((strip isSpace (extracted.getD [])).length + 1)) rest = .ok tail ∧
          b.text = strip isSpace (extracted.getD []) ∧ b.page = some number ∧ b.Positioned ∧
          b.span.2 = offset) := by
  cases page with
  | error e => rw [pdfBlocks] at h; split_ifs at h
  | ok extracted =>
      refine ⟨extracted, rfl, ?_⟩
      simp only [pdfBlocks] at h
      by_cases ht : strip isSpace (extracted.getD []) = []
      · rw [if_pos ht] at h
        exact Or.inl ⟨ht, h⟩
      · rw [if_neg ht] at h
        cases hr : pdfBlocks filename (number + 1)
            (offset + ((strip isSpace (extracted.getD [])).length + 1)) rest with
        | error e => rw [hr] at h; cases h
        | ok tail =>
            rw [hr] at h
            obtain rfl := Except.ok.inj h
            exact Or.inr ⟨ht, _, tail, rfl, rfl, rfl, rfl, ⟨rfl, rfl⟩, rfl⟩

/-- The page texts of a list of pages. -/
theorem texts_cons (extracted : Option Str) (rest : List (Except Exc (Option Str))) :
    PdfFile.texts { pages := .ok extracted :: rest } =
      extracted.getD [] :: PdfFile.texts { pages := rest } := rfl

/-- **The PDF parser lays its blocks out in the joined document**: wherever the
document continues with the contributions of the remaining pages, it is laid
out as their blocks. -/
theorem layout_pdfBlocks {filename : Option Str} {D : Str}
    (pages : List (Except Exc (Option Str))) :
    ∀ number offset blocks, pdfBlocks filename number offset pages = .ok blocks →
      match contributions (PdfFile.texts { pages }) with
      | [] => blocks = []
      | t :: ts => StandsAt D (joinLines (t :: ts)) offset →
          offset + (joinLines (t :: ts)).length = D.length →
            Layout isSpace D offset (blocks.map ParsedBlock.span) := by
  induction pages with
  | nil => exact fun _ _ _ h => (Except.ok.inj h).symm
  | cons page rest ih =>
      intro number offset blocks h
      obtain ⟨extracted, rfl, h | ⟨ht, b, tail, rfl, hr, hb, -, -, ho⟩⟩ := pdfBlocks_cons h
      · rw [texts_cons, contributions_cons, if_pos h.1]
        exact ih _ _ _ h.2
      · rw [texts_cons, contributions_cons, if_neg ht]
        have hne : ParsedBlock.span b = (strip isSpace (extracted.getD []), offset) :=
          Prod.ext hb ho
        have htail := ih _ _ _ hr
        set t := strip isSpace (extracted.getD []) with ht'
        have hstrip : Stripped isSpace t := stripped_strip isSpace _
        cases hts : contributions (PdfFile.texts { pages := rest }) with
        | nil =>
            rw [hts] at htail
            intro hst hlen
            have hj : joinLines [t] = t := by simp [joinLines, List.intercalate]
            rw [hj] at hst hlen
            rw [List.map_cons, hne, htail]
            refine .cons le_rfl (fun n _ h h' => absurd h' (by omega)) hst ht hstrip (.nil ?_)
            exact fun n _ h h' => absurd h' (by omega)
        | cons t' ts =>
            rw [hts] at htail
            intro hst hlen
            rw [joinLines_cons_cons] at hst hlen
            rw [List.length_append, List.length_append, List.length_singleton] at hlen
            have hself : StandsAt D t offset :=
              hst.trans (j := 0) (standsAt_zero (by simp [List.append_assoc]))
            have hmid := hst.trans (standsAt_append t [lf] (joinLines (t' :: ts)))
            have hrest : StandsAt D (joinLines (t' :: ts)) (offset + (t.length + 1)) := by
              have := standsAt_append (t ++ [lf]) (joinLines (t' :: ts)) []
              rw [List.append_nil, List.length_append, List.length_singleton] at this
              exact hst.trans this
            have hblank : BlankOn isSpace D (offset + t.length) (offset + (t.length + 1)) :=
              hmid.blankOn fun x hx => List.mem_singleton.mp hx ▸ isSpace_lf
            rw [List.map_cons, hne]
            refine .cons le_rfl (fun n _ h h' => absurd h' (by omega)) hself ht hstrip ?_
            exact (htail hrest (by omega)).extend (by omega) hblank

theorem PdfParser.blocks_of_parse {file : PdfFile} {filename : Option Str} {doc : ParsedDocument}
    (h : PdfParser.parse (.ok file) filename = .ok doc) :
    pdfBlocks filename 1 0 file.pages = .ok doc.blocks := by
  simp only [PdfParser.parse] at h
  have hread : (do
      let blocks ← pdfBlocks filename 1 0 file.pages
      return { blocks
               pageCount := some file.pages.length
               metadata := filenameMetadata filename } : Except Exc ParsedDocument) = .ok doc →
        pdfBlocks filename 1 0 file.pages = .ok doc.blocks := by
    intro h
    obtain ⟨blocks, hb, h⟩ := bind_eq_ok.mp h
    rw [hb, ← Except.ok.inj h]
  -- A PDF that stays locked raises, whatever its pages hold.
  split_ifs at h
  · cases hd : file.decryptRaises with
    | none =>
        simp only [hd] at h
        exact hread h
    | some e =>
        simp only [hd] at h
        split_ifs at h <;> cases h
  · exact hread h

theorem PdfParser.layout {file : PdfFile} {filename : Option Str} {doc : ParsedDocument}
    (h : PdfParser.parse (.ok file) filename = .ok doc) :
    Layout isSpace (pdfDocument file.texts) 0 (doc.blocks.map ParsedBlock.span) := by
  have hl := layout_pdfBlocks (D := pdfDocument file.texts) file.pages 1 0 doc.blocks
    (PdfParser.blocks_of_parse h)
  rw [show PdfFile.texts { pages := file.pages } = file.texts from rfl] at hl
  cases hc : contributions file.texts with
  | nil =>
      have hD : pdfDocument file.texts = [] := by rw [pdfDocument, hc]; rfl
      rw [hc] at hl
      rw [hl, hD]
      exact .nil fun n _ _ h => absurd h (Nat.not_lt_zero n)
  | cons t ts =>
      have hD : pdfDocument file.texts = joinLines (t :: ts) := by rw [pdfDocument, hc]
      rw [hc] at hl
      exact hl (hD ▸ List.prefix_rfl) (by rw [hD, Nat.zero_add])

/-- **Each block of a PDF is the text of its page.** -/
theorem pdfBlocks_page {filename : Option Str} (pages : List (Except Exc (Option Str))) :
    ∀ number offset blocks, pdfBlocks filename number offset pages = .ok blocks →
      ∀ b ∈ blocks, b.Positioned ∧ ∃ i raw, (PdfFile.texts { pages })[i]? = some raw ∧
        b.page = some (number + i) ∧ b.text = strip isSpace raw ∧
        b.span.2 = offset + pageStart (PdfFile.texts { pages }) i := by
  induction pages with
  | nil =>
      intro _ _ _ h b hb
      rw [← Except.ok.inj h] at hb
      exact absurd hb List.not_mem_nil
  | cons page rest ih =>
      intro number offset blocks h b hb
      obtain ⟨extracted, rfl, hcase⟩ := pdfBlocks_cons h
      rw [texts_cons]
      rcases hcase with ⟨ht, hr⟩ | ⟨ht, b', tail, rfl, hr, hb', hp, hpos, ho⟩
      · obtain ⟨hpos, i, raw, hi, hp, htext, ho⟩ := ih _ _ _ hr b hb
        refine ⟨hpos, i + 1, raw, hi, by rw [hp]; congr 1; omega, htext, ?_⟩
        rw [ho, pageStart_cons_succ, if_pos ht, Nat.zero_add]
      · rcases List.mem_cons.mp hb with rfl | hb
        · exact ⟨hpos, 0, _, rfl, hp, hb', by rw [ho]; rfl⟩
        · obtain ⟨hpos, i, raw, hi, hp, htext, ho⟩ := ih _ _ _ hr b hb
          refine ⟨hpos, i + 1, raw, hi, by rw [hp]; congr 1; omega, htext, ?_⟩
          rw [ho, pageStart_cons_succ, if_neg ht]
          omega

end Ingest
end EvidenceLab
