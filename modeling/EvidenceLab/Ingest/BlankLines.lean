/-
# Blank lines and blocks

`_BLOCK_SEPARATOR` is a line feed, spaces and tabs, and a line feed.  A blank line may as well
end with a carriage return and a line feed, and then it is no separator.  So the blocks hold no
blank line iff every stretch of blanks with a blank line in it has a separator, too; and a text
with line feeds alone and its version with both characters give the same blocks iff there is no
blank line inside it (`blank_lines_separate_iff`).
-/

import EvidenceLab.Ingest.BlockLayout
import EvidenceLab.Text.Stretches

namespace EvidenceLab
namespace Ingest

open Text

/-! ### Lines -/

/-- A line feed, alone or behind a carriage return. -/
def IsTerminator (s : Str) : Prop := s = [lf] ∨ s = [cr, lf]

/-- Spaces and tabs. -/
def IsIndent (s : Str) : Prop := ∀ c ∈ s, c = blankChar ∨ c = tab

/-- Two line terminators with spaces or tabs between them. -/
def BlankLine (s : Str) : Prop :=
  ∃ t gap t', IsTerminator t ∧ IsIndent gap ∧ IsTerminator t' ∧ s = t ++ gap ++ t'

/-- What `_BLOCK_SEPARATOR` matches. -/
def IsSeparator (s : Str) : Prop := ∃ gap, IsIndent gap ∧ s = lf :: (gap ++ [lf])

/-- A blank line stands in a text. -/
def HoldsBlankLine (s : Str) : Prop := ∃ line, BlankLine line ∧ line <:+: s

/-- A separator stands in a text. -/
def HoldsSeparator (s : Str) : Prop := ∃ sep, IsSeparator sep ∧ sep <:+: s

theorem IsSeparator.blankLine {s : Str} (h : IsSeparator s) : BlankLine s := by
  obtain ⟨gap, hgap, rfl⟩ := h
  exact ⟨[lf], gap, [lf], Or.inl rfl, hgap, Or.inl rfl, rfl⟩

theorem isSpace_cr : isSpace cr = true := by decide

theorem isSpace_of_isTerminator {s : Str} (h : IsTerminator s) : ∀ c ∈ s, isSpace c = true := by
  rcases h with rfl | rfl
  · simp [isSpace_lf]
  · simp [isSpace_lf, isSpace_cr]

theorem isSpace_of_isIndent {s : Str} (h : IsIndent s) : ∀ c ∈ s, isSpace c = true := by
  intro c hc
  rcases h c hc with rfl | rfl <;> decide

/-- A blank line is blank. -/
theorem BlankLine.isSpace {s : Str} (h : BlankLine s) : ∀ c ∈ s, isSpace c = true := by
  obtain ⟨t, gap, t', ht, hgap, ht', rfl⟩ := h
  intro c hc
  rcases List.mem_append.mp hc with hc | hc
  · exact (List.mem_append.mp hc).elim (isSpace_of_isTerminator ht c) (isSpace_of_isIndent hgap c)
  · exact isSpace_of_isTerminator ht' c hc

theorem BlankLine.ne_nil {s : Str} (h : BlankLine s) : s ≠ [] := by
  obtain ⟨t, gap, t', ht, -, -, rfl⟩ := h
  rcases ht with rfl | rfl <;> simp

/-- Without carriage returns a blank line is a separator. -/
theorem BlankLine.isSeparator {s : Str} (h : BlankLine s) (hcr : cr ∉ s) : IsSeparator s := by
  obtain ⟨t, gap, t', ht, hgap, ht', rfl⟩ := h
  rcases ht with rfl | rfl
  · rcases ht' with rfl | rfl
    · exact ⟨gap, hgap, rfl⟩
    · exact absurd (by simp) hcr
  · exact absurd (by simp) hcr

/-! ### The split -/

theorem blockSeparatorLen_pos {sep : Str} (h : IsSeparator sep) (v : Str) :
    0 < blockSeparatorLen (sep ++ v) := by
  obtain ⟨gap, hgap, rfl⟩ := h
  have htake : (gap ++ [lf] ++ v).takeWhile (fun x => x == blankChar || x == tab) = gap := by
    rw [List.append_assoc, List.takeWhile_append_of_pos]
    · rw [List.singleton_append, List.takeWhile_cons_of_neg (by decide), List.append_nil]
    · intro c hc
      simpa using hgap c hc
  rw [List.cons_append, blockSeparatorLen, htake, if_pos]
  · omega
  · exact ⟨rfl, by simp⟩

theorem isSeparator_of_blockSeparatorLen :
    Separates blockSeparatorLen IsSeparator := by
  intro s
  cases s with
  | nil => exact ⟨le_rfl, fun h => absurd h (lt_irrefl 0)⟩
  | cons c s =>
      rw [blockSeparatorLen]
      set gap := s.takeWhile fun x => x == blankChar || x == tab with hgap
      have hpre : gap <+: s := List.takeWhile_prefix _
      split_ifs with h
      · obtain ⟨rfl, hnext⟩ := h
        have hlt : gap.length < s.length := (List.getElem?_eq_some_iff.mp hnext).1
        refine ⟨by rw [List.length_cons]; omega, fun _ => ⟨gap, ?_, ?_⟩⟩
        · intro c hc
          simpa using List.mem_takeWhile_imp hc
        · rw [List.take_succ_cons, List.take_add_one, hnext, ← List.prefix_iff_eq_take.mp hpre]
          rfl
      · exact ⟨Nat.zero_le _, fun h => absurd h (lt_irrefl 0)⟩

theorem cut_splitBlocks (text : Str) : Cut IsSeparator text (splitBlocks text) :=
  cut_split isSeparator_of_blockSeparatorLen text

theorem isSpace_of_isSeparator {s : Str} (h : IsSeparator s) : ∀ c ∈ s, isSpace c = true :=
  h.blankLine.isSpace

/-- **No separator is left in a piece.** -/
theorem not_holdsSeparator_of_mem {text piece : Str} (h : piece ∈ splitBlocks text) :
    ¬ HoldsSeparator piece := by
  rintro ⟨sep, hsep, hin⟩
  exact not_infix_of_mem_split (fun _ v h => blockSeparatorLen_pos h v)
    (fun _ h => h.blankLine.ne_nil) h sep hsep hin

/-- The texts of the blocks are what the pieces leave when they are stripped. -/
theorem texts_textBlocks (text : Str) (cursor : ℕ) (raws : List Str) :
    (textBlocks text cursor raws).map (·.text) =
      (raws.map (strip isSpace)).filter (· ≠ []) := by
  induction raws generalizing cursor with
  | nil => rfl
  | cons raw raws ih =>
      rw [textBlocks, List.map_cons, List.filter_cons]
      by_cases hraw : strip isSpace raw = []
      · rw [if_pos hraw, if_neg (by simp [hraw]), ih]
      · rw [if_neg hraw, if_pos (decide_eq_true hraw), List.map_cons, ih]

theorem texts_parse (data : List UInt8) (filename : Option Str) :
    (TextParser.parse data filename).blocks.map (·.text) =
      ((splitBlocks (decodeUtf8 data)).map (strip isSpace)).filter (· ≠ []) :=
  texts_textBlocks ..

/-! ### Both conventions -/

/-- A text with `\r\n` for `\n`. -/
def crlf (s : Str) : Str := s.flatMap fun c => if c = lf then [cr, lf] else [c]

/-- The bytes with `\r\n` for `\n`. -/
def crlfBytes (data : List UInt8) : List UInt8 :=
  data.flatMap fun b => if b = 0x0A then [0x0D, 0x0A] else [b]

/-- A text with `\n` for `\r\n`. -/
def unify : Str → Str
  | [] => []
  | c :: s => if c = cr ∧ s.head? = some lf then unify s else c :: unify s

theorem crlf_append (s t : Str) : crlf (s ++ t) = crlf s ++ crlf t := List.flatMap_append

theorem crlf_cons_of_ne {c : CodePoint} (h : c ≠ lf) (s : Str) : crlf (c :: s) = c :: crlf s := by
  rw [crlf, List.flatMap_cons, if_neg h]
  rfl

theorem crlf_eq_self {s : Str} (h : lf ∉ s) : crlf s = s := by
  induction s with
  | nil => rfl
  | cons c s ih =>
      rw [List.mem_cons, not_or] at h
      rw [crlf_cons_of_ne (Ne.symm h.1), ih h.2]

theorem mem_crlf {c : CodePoint} {s : Str} (h : c ∈ crlf s) : c ∈ s ∨ isSpace c = true := by
  obtain ⟨d, hd, hc⟩ := List.mem_flatMap.mp h
  split_ifs at hc with hlf
  · rcases List.mem_pair.mp hc with rfl | rfl
    · exact Or.inr isSpace_cr
    · exact Or.inr isSpace_lf
  · exact Or.inl (List.mem_singleton.mp hc ▸ hd)

/-- **Decoding goes with the line ends.** -/
theorem decodeFrom_crlfBytes {p : Option Pending} (hp : ∀ q ∈ p, q.Sound) (data : List UInt8) :
    decodeFrom p (crlfBytes data) = crlf (decodeFrom p data) := by
  have hpending : ∀ p : Option Pending,
      crlf (p.elim [] fun _ => [replacementChar]) = p.elim [] fun _ => [replacementChar] := by
    intro p
    cases p with
    | none => rfl
    | some p => exact crlf_cons_of_ne (by decide) []
  induction data generalizing p with
  | nil =>
      cases p with
      | none => exact (hpending none).symm
      | some p => exact (hpending (some p)).symm
  | cons b bs ih =>
      rw [crlfBytes, List.flatMap_cons]
      split_ifs with hb
      · subst hb
        have hcr := decodeStep_ascii hp (b := 0x0D) (by decide)
        have hlf := decodeStep_ascii hp (b := 0x0A) (by decide)
        have hlf' := decodeStep_ascii (p := none) (by simp) (b := 0x0A) (by decide)
        rw [List.cons_append, List.singleton_append, decodeFrom_cons, hcr, decodeFrom_cons, hlf',
          decodeFrom_cons, hlf, crlf_append, crlf_append, hpending]
        have hrest := ih (p := none) (by simp)
        rw [crlfBytes] at hrest
        simp only [hrest, List.append_assoc]
        rfl
      · have hrest : ∀ q ∈ (decodeStep p b).2, q.Sound := by
          rcases Nat.lt_or_ge b.toNat 0x80 with hlt | hge
          · rw [decodeStep_ascii hp hlt]
            simp
          · exact (decodeStep_high hp hge).2
        have hno : crlf (decodeStep p b).1 = (decodeStep p b).1 := by
          rcases Nat.lt_or_ge b.toNat 0x80 with hlt | hge
          · rw [decodeStep_ascii hp hlt, crlf_append, hpending, crlf_eq_self (s := [_])]
            rw [List.mem_singleton]
            intro heq
            have hval := congrArg Fin.val heq
            rw [Fin.val_ofNat, Nat.mod_eq_of_lt (by omega)] at hval
            exact hb (UInt8.toNat_inj.mp hval.symm)
          · refine crlf_eq_self fun hmem => ?_
            exact absurd ((decodeStep_high hp hge).1 lf hmem) (by decide)
        rw [List.singleton_append, decodeFrom_cons, decodeFrom_cons, crlf_append, hno]
        exact congrArg _ (ih hrest)

theorem decodeUtf8_crlfBytes (data : List UInt8) :
    decodeUtf8 (crlfBytes data) = crlf (decodeUtf8 data) :=
  decodeFrom_crlfBytes (by simp) data

/-- A line feed of the result stands behind a carriage return. -/
theorem exists_cr_of_crlf {s v w : Str} (h : crlf s = v ++ lf :: w) : ∃ v', v = v' ++ [cr] := by
  induction s generalizing v with
  | nil =>
      have := congrArg List.length h
      simp [crlf] at this
  | cons c s ih =>
      by_cases hc : c = lf
      · have hcons : crlf (c :: s) = cr :: lf :: crlf s := by
          rw [crlf, List.flatMap_cons, if_pos hc]
          rfl
        rw [hcons] at h
        rcases v with _ | ⟨x, _ | ⟨y, v⟩⟩
        · exact absurd (List.cons.inj h).1 (by decide)
        · exact ⟨[], congrArg (· :: []) (List.cons.inj h).1.symm⟩
        · obtain ⟨v', rfl⟩ := ih (List.cons.inj (List.cons.inj h).2).2
          exact ⟨x :: y :: v', rfl⟩
      · rw [crlf_cons_of_ne hc] at h
        rcases v with _ | ⟨x, v⟩
        · exact absurd (List.cons.inj h).1 hc
        · obtain ⟨v', rfl⟩ := ih (List.cons.inj h).2
          exact ⟨x :: v', rfl⟩

/-- So it has no separator, and is one piece. -/
theorem splitBlocks_crlf (s : Str) : splitBlocks (crlf s) = [crlf s] := by
  refine split_eq_singleton ?_
  rintro u ⟨z, hz⟩
  by_contra hpos
  obtain ⟨gap, hgap, htake⟩ := (isSeparator_of_blockSeparatorLen u).2 (Nat.pos_of_ne_zero hpos)
  have hu := List.take_append_drop (blockSeparatorLen u) u
  have hcut : crlf s = (z ++ lf :: gap) ++ lf :: u.drop (blockSeparatorLen u) := by
    rw [← hz]
    conv_lhs => rw [← hu, htake]
    simp
  obtain ⟨v', hv⟩ := exists_cr_of_crlf hcut
  have hlast := congrArg List.getLast? hv
  rw [List.getLast?_append_of_ne_nil _ (List.cons_ne_nil lf gap), List.getLast?_concat] at hlast
  rcases List.mem_cons.mp (List.mem_of_getLast? hlast) with hcr | hcr
  · exact absurd hcr (by decide)
  · rcases hgap cr hcr with h | h <;> exact absurd h (by decide)

theorem unify_crlf {s : Str} (h : cr ∉ s) : unify (crlf s) = s := by
  induction s with
  | nil => rfl
  | cons c s ih =>
      rw [List.mem_cons, not_or] at h
      by_cases hc : c = lf
      · have hcons : crlf (c :: s) = cr :: lf :: crlf s := by
          rw [crlf, List.flatMap_cons, if_pos hc]
          rfl
        rw [hcons, unify, if_pos ⟨rfl, rfl⟩, unify, if_neg fun h => absurd h.1 (by decide), ih h.2,
          hc]
      · rw [crlf_cons_of_ne hc, unify, if_neg fun hcr => h.1 hcr.1.symm, ih h.2]

theorem stripped_crlf {s : Str} (h : Stripped isSpace s) : Stripped isSpace (crlf s) := by
  rcases List.eq_nil_or_concat s with rfl | ⟨front, y, rfl⟩
  · exact h
  · rw [List.concat_eq_append] at h ⊢
    have hne : ∀ c, isSpace c = false → c ≠ lf := by
      rintro c hc rfl
      rw [isSpace_lf] at hc
      cases hc
    have hy := h.2 y (by simp)
    have hlast : crlf [y] = [y] := crlf_cons_of_ne (hne y hy) []
    refine ⟨?_, ?_⟩
    · intro x hx
      cases front with
      | nil =>
          rw [List.nil_append, hlast] at hx
          exact h.1 x hx
      | cons z front =>
          have hz := h.1 z rfl
          rw [List.cons_append, crlf_cons_of_ne (hne z hz), List.head?_cons] at hx
          exact Option.some.inj hx ▸ hz
    · intro x hx
      rw [crlf_append, hlast, List.getLast?_concat] at hx
      exact Option.some.inj hx ▸ hy

/-- **Stripping goes with the line ends.** -/
theorem strip_crlf (s : Str) : strip isSpace (crlf s) = crlf (strip isSpace s) := by
  obtain ⟨front, back, hs, hfront, hback⟩ := exists_strip isSpace s
  have hblank : ∀ u : Str, (∀ c ∈ u, isSpace c = true) → ∀ c ∈ crlf u, isSpace c = true :=
    fun u hu c hc => (mem_crlf hc).elim (hu c) id
  conv_lhs => rw [hs, crlf_append, crlf_append]
  exact strip_eq (hblank front hfront) (hblank back hback)
    (stripped_crlf (stripped_strip isSpace s))

/-! ### What is separated -/

/-- Every stretch of blanks that holds a blank line holds a separator. -/
def Separated (text : Str) : Prop :=
  ∀ run, Gap isSpace text run → HoldsBlankLine run → HoldsSeparator run

/-- What holds of the texts of the blocks holds of what the pieces leave. -/
theorem forall_blocks_iff (data : List UInt8) (filename : Option Str) (P : Str → Prop) :
    (∀ block ∈ (TextParser.parse data filename).blocks, P block.text) ↔
      ∀ piece ∈ splitBlocks (decodeUtf8 data), strip isSpace piece ≠ [] →
        P (strip isSpace piece) := by
  have htexts : (∀ block ∈ (TextParser.parse data filename).blocks, P block.text) ↔
      ∀ s ∈ (TextParser.parse data filename).blocks.map (·.text), P s :=
    List.forall_mem_map.symm
  rw [htexts, texts_parse]
  simp only [List.mem_filter, List.mem_map, decide_eq_true_eq, and_imp, forall_exists_index,
    forall_apply_eq_imp_iff₂]

/-- **The blocks hold no blank line iff the text is separated.** -/
theorem not_holdsBlankLine_iff (data : List UInt8) (filename : Option Str) :
    (∀ block ∈ (TextParser.parse data filename).blocks, ¬ HoldsBlankLine block.text) ↔
      Separated (decodeUtf8 data) := by
  have hcut := cut_splitBlocks (decodeUtf8 data)
  rw [forall_blocks_iff data filename fun s => ¬ HoldsBlankLine s]
  constructor
  · intro hno run hgap hline
    by_contra hsep
    obtain ⟨hblank, x, y, hx, hy, hin⟩ := hgap
    have hends : Stripped isSpace (x :: run ++ [y]) := by
      refine ⟨?_, ?_⟩
      · rintro z ⟨⟩
        exact hx
      · intro z hz
        rw [List.getLast?_concat] at hz
        exact Option.some.inj hz ▸ hy
    -- A separator in it would lie in the stretch.
    have huncut : ∀ sep, IsSeparator sep → ¬ sep <:+: x :: run ++ [y] := by
      intro sep h hsub
      exact hsep ⟨sep, h, infix_of_blank hx hy h.blankLine.ne_nil (isSpace_of_isSeparator h) hsub⟩
    obtain ⟨piece, hpiece, hsub⟩ := hcut.exists_mem (fun _ h => isSpace_of_isSeparator h)
      (by simp) hends huncut hin
    have hkept := infix_strip (by simp) hends hsub
    have hne : strip isSpace piece ≠ [] := by
      intro hnil
      rw [hnil] at hkept
      exact absurd (List.infix_nil.mp hkept) (by simp)
    obtain ⟨line, hline, hrun⟩ := hline
    refine hno piece hpiece hne ⟨line, hline, hrun.trans (List.IsInfix.trans ?_ hkept)⟩
    exact ⟨[x], [y], rfl⟩
  · intro hseparated piece hpiece _ hline
    obtain ⟨line, hline, hin⟩ := hline
    obtain ⟨run, ⟨hblank, x, y, hx, hy, hgap⟩, hrun⟩ :=
      exists_gap (stripped_strip isSpace piece) hline.ne_nil hline.isSpace hin
    have hsub : x :: run ++ [y] <:+: piece := hgap.trans (strip_isInfix isSpace piece)
    have htext : piece <:+: decodeUtf8 data := hcut.infix_of_mem hpiece
    obtain ⟨sep, hsep, hrun'⟩ := hseparated run ⟨hblank, x, y, hx, hy, hsub.trans htext⟩
      ⟨line, hline, hrun⟩
    have hinner : run <:+: x :: run ++ [y] := ⟨[x], [y], rfl⟩
    exact not_holdsSeparator_of_mem hpiece ⟨sep, hsep, hrun'.trans (hinner.trans hsub)⟩

/-- **With carriage returns the whole text is one block**: its lines again, once the breaks are
those of the text. -/
theorem texts_crlf {data : List UInt8} (hcr : cr ∉ strip isSpace (decodeUtf8 data))
    (filename : Option Str) :
    (TextParser.parse (crlfBytes data) filename).blocks.map (fun block => unify block.text) =
      [strip isSpace (decodeUtf8 data)].filter (· ≠ []) := by
  have htexts := congrArg (List.map unify) (texts_parse (crlfBytes data) filename)
  rw [List.map_map] at htexts
  refine htexts.trans ?_
  rw [decodeUtf8_crlfBytes, splitBlocks_crlf, List.map_singleton, strip_crlf]
  by_cases hnil : strip isSpace (decodeUtf8 data) = []
  · rw [hnil]
    rfl
  · have hne : crlf (strip isSpace (decodeUtf8 data)) ≠ [] := by
      intro heq
      have := unify_crlf hcr
      rw [heq] at this
      exact hnil this.symm
    rw [List.filter_cons, List.filter_cons, if_pos (decide_eq_true hne),
      if_pos (decide_eq_true hnil), List.filter_nil, List.map_singleton, unify_crlf hcr]

/-- **Both conventions give the same blocks iff no blank line is inside the text.** -/
theorem same_blocks_iff {data : List UInt8} (hdata : (0x0D : UInt8) ∉ data)
    (filename : Option Str) :
    (TextParser.parse (crlfBytes data) filename).blocks.map (fun block => unify block.text) =
        (TextParser.parse data filename).blocks.map (·.text) ↔
      ¬ HoldsBlankLine (strip isSpace (decodeUtf8 data)) := by
  have hcr : cr ∉ strip isSpace (decodeUtf8 data) := by
    intro hmem
    obtain ⟨b, hb, hval⟩ := (mem_decodeUtf8 (by decide)).mp ((strip_isInfix isSpace _).subset hmem)
    exact hdata (UInt8.toNat_inj.mp (show b.toNat = (0x0D : UInt8).toNat from hval) ▸ hb)
  have hcut := cut_splitBlocks (decodeUtf8 data)
  rw [texts_crlf hcr, texts_parse]
  by_cases hnil : strip isSpace (decodeUtf8 data) = []
  · rw [hcut.stripped_pieces_nil (fun _ h => isSpace_of_isSeparator h) hnil, hnil]
    refine iff_of_true rfl ?_
    rintro ⟨line, hline, hin⟩
    exact hline.ne_nil (List.infix_nil.mp hin)
  · rw [List.filter_cons, if_pos (decide_eq_true hnil), List.filter_nil]
    constructor
    · rintro hsame ⟨line, hline, hin⟩
      have hmem := List.mem_singleton_self (strip isSpace (decodeUtf8 data))
      rw [hsame] at hmem
      obtain ⟨piece, hpiece, heq⟩ := List.mem_map.mp (List.mem_filter.mp hmem).1
      have hsep : IsSeparator line := hline.isSeparator fun hmem => hcr (hin.subset hmem)
      rw [← heq] at hin
      exact not_holdsSeparator_of_mem hpiece ⟨line, hsep, hin.trans (strip_isInfix isSpace piece)⟩
    · intro hno
      refine (hcut.stripped_pieces (fun _ h => isSpace_of_isSeparator h) hnil ?_).symm
      intro sep hsep hin
      exact hno ⟨sep, hsep.blankLine, hin⟩

/-- **When a blank line separates blocks.**  No block holds one iff every stretch of blanks of
the text that holds one holds a separator; and a text with line feeds alone has the blocks of
its version with carriage returns iff it has no blank line inside. -/
theorem blank_lines_separate_iff (data : List UInt8) (filename : Option Str) :
    ((∀ block ∈ (TextParser.parse data filename).blocks, ¬ HoldsBlankLine block.text) ↔
      Separated (decodeUtf8 data)) ∧
    ((0x0D : UInt8) ∉ data →
      ((TextParser.parse (crlfBytes data) filename).blocks.map (fun block => unify block.text) =
          (TextParser.parse data filename).blocks.map (·.text) ↔
        ¬ HoldsBlankLine (strip isSpace (decodeUtf8 data)))) :=
  ⟨not_holdsBlankLine_iff data filename, fun h => same_blocks_iff h filename⟩

/-- Two letters with a blank line between them, in the other convention. -/
theorem blank_lines_separate_iff_sample :
    (TextParser.parse (crlfBytes [0x61, 0x0A, 0x0A, 0x62]) none).blocks.map
        (fun block => unify block.text) =
      (TextParser.parse [0x61, 0x0A, 0x0A, 0x62] none).blocks.map (·.text) ↔
    ¬ HoldsBlankLine (strip isSpace (decodeUtf8 [0x61, 0x0A, 0x0A, 0x62])) :=
  (blank_lines_separate_iff [0x61, 0x0A, 0x0A, 0x62] none).2 (by decide)

/-- Two letters with a blank line of the one convention between them. -/
theorem blank_line_kept : ¬ ∀ (data : List UInt8) (filename : Option Str),
    ∀ block ∈ (TextParser.parse data filename).blocks, ¬ HoldsBlankLine block.text := by
  intro hclaim
  have hblocks : (TextParser.parse [0x61, 0x0D, 0x0A, 0x0D, 0x0A, 0x62] none).blocks.map (·.text) =
      [[0x61, cr, lf, cr, lf, 0x62]] := by decide
  have hmem : ([0x61, cr, lf, cr, lf, 0x62] : Str) ∈
      (TextParser.parse [0x61, 0x0D, 0x0A, 0x0D, 0x0A, 0x62] none).blocks.map (·.text) := by
    rw [hblocks]
    exact List.mem_singleton_self _
  obtain ⟨block, hblock, htext⟩ := List.mem_map.mp hmem
  refine hclaim _ none block hblock ?_
  rw [htext]
  exact ⟨[cr, lf] ++ [] ++ [cr, lf], ⟨_, _, _, Or.inr rfl, fun _ h => absurd h List.not_mem_nil,
    Or.inr rfl, rfl⟩, [0x61], [0x62], rfl⟩

end Ingest
end EvidenceLab
