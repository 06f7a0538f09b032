/-
# Apostrophes that quote

The rule for quotations takes an apostrophe for a mark, whatever stands around it.  It pairs each
with the next, if two characters or more are between them; so two contractions quote what is
between them (`unquoted_iff`).
-/

import EvidenceLab.Routing.Signals

namespace EvidenceLab
namespace Routing

open Text Text.Regex Retrieval

variable {table : WordTable} {s : Str} {mark : Char} {i j : ℕ}

/-! ### Marks -/

theorem among_singleton {c : CodePoint} : among [mark] c = true ↔ c = ofChar mark := by
  rw [among, List.contains_iff_mem, List.map_singleton, List.mem_singleton]

theorem holdsAt_mark : holdsAt s (among [mark]) i = true ↔ s[i]? = some (ofChar mark) := by
  rw [holdsAt_iff]
  constructor
  · rintro ⟨c, hc, hmark⟩
    exact among_singleton.mp hmark ▸ hc
  · intro h
    exact ⟨_, h, among_singleton.mpr rfl⟩

/-- **Where a text in marks ends**: behind the mark that comes two characters or more after the
first, with none between them. -/
theorem mem_ends_inMarks : j ∈ ends table.isWord s (inMarks mark) i ↔
    s[i]? = some (ofChar mark) ∧ ∃ k, i + 3 ≤ k ∧ Run (fun c => !among [mark] c) s (i + 1) k ∧
      s[k]? = some (ofChar mark) ∧ j = k + 1 := by
  have hinner : ∀ k, k ∈ ends table.isWord s (atLeast 2 fun c => !among [mark] c) (i + 1) ↔
      i + 1 + 2 ≤ k ∧ Run (fun c => !among [mark] c) s (i + 1) k := (ends_atLeast 2).1
  rw [inMarks, ends, exact, ends]
  split_ifs with hmark
  · rw [List.flatMap_singleton, ends, List.mem_flatMap]
    constructor
    · rintro ⟨k, hk, hj⟩
      obtain ⟨hle, hrun⟩ := (hinner k).mp hk
      rw [ends] at hj
      split_ifs at hj with hend
      · exact ⟨holdsAt_mark.mp hmark, k, by omega, hrun, holdsAt_mark.mp hend,
          List.mem_singleton.mp hj⟩
      · cases hj
    · rintro ⟨-, k, hle, hrun, hend, rfl⟩
      refine ⟨k, (hinner k).mpr ⟨by omega, hrun⟩, ?_⟩
      rw [ends, if_pos (holdsAt_mark.mpr hend)]
      exact List.mem_singleton_self _
  · rw [List.flatMap_nil]
    exact iff_of_false List.not_mem_nil fun h => hmark (holdsAt_mark.mpr h.1)

/-- A quotation ends with a mark. -/
theorem exists_mark (h : j ∈ ends table.isWord s quotation i) :
    ∃ k, j = k + 1 ∧ ∃ c, s[k]? = some c ∧ (c = ofChar '"' ∨ c = ofChar '\'') := by
  rw [quotation, ends, List.mem_append] at h
  rcases h with h | h
  · obtain ⟨-, k, -, -, hc, hj⟩ := mem_ends_inMarks.mp h
    exact ⟨k, hj, _, hc, Or.inl rfl⟩
  · obtain ⟨-, k, -, -, hc, hj⟩ := mem_ends_inMarks.mp h
    exact ⟨k, hj, _, hc, Or.inr rfl⟩

/-! ### Quotes -/

/-- Two successive marks of the text have two characters or more between them. -/
def HoldsQuote (mark : Char) (s : Str) : Prop :=
  ∃ mid, 2 ≤ mid.length ∧ ofChar mark ∉ mid ∧ ofChar mark :: mid ++ [ofChar mark] <:+: s

theorem holdsQuote_of_infix {t : Str} (h : HoldsQuote mark t) (hts : t <:+: s) :
    HoldsQuote mark s := by
  obtain ⟨mid, hlength, hmid, hin⟩ := h
  exact ⟨mid, hlength, hmid, hin.trans hts⟩

/-- A text without the mark quotes nothing. -/
theorem not_holdsQuote (h : ofChar mark ∉ s) : ¬ HoldsQuote mark s := by
  rintro ⟨mid, -, -, hin⟩
  exact h (hin.subset (List.mem_cons_self ..))

/-- What is between two marks, each at its place. -/
theorem infix_of_marks {k : ℕ} (hik : i < k) (hi : s[i]? = some (ofChar mark))
    (hk : s[k]? = some (ofChar mark)) :
    ofChar mark :: slice s (i + 1) k ++ [ofChar mark] <:+: s := by
  obtain ⟨hi, hget⟩ := List.getElem?_eq_some_iff.mp hi
  obtain ⟨hk, hget'⟩ := List.getElem?_eq_some_iff.mp hk
  have hcut : s = s.take i ++ (ofChar mark :: slice s (i + 1) k ++ [ofChar mark]) ++
      s.drop (k + 1) := by
    have hrest : s.drop (i + 1) = slice s (i + 1) k ++ s.drop k := by
      have hdrop : s.drop k = (s.drop (i + 1)).drop (k - (i + 1)) := by
        rw [List.drop_drop, Nat.add_sub_cancel' hik]
      rw [slice, hdrop, List.take_append_drop]
    calc s = s.take i ++ s.drop i := (List.take_append_drop i s).symm
      _ = s.take i ++ (ofChar mark :: (slice s (i + 1) k ++ (ofChar mark :: s.drop (k + 1)))) := by
          rw [List.drop_eq_getElem_cons hi, hget, hrest, List.drop_eq_getElem_cons hk, hget']
      _ = _ := by simp only [List.cons_append, List.append_assoc, List.nil_append]
  exact ⟨_, _, hcut.symm⟩

/-- **A text in marks is found iff the text holds a quote.** -/
theorem exists_inMarks_iff (table : WordTable) :
    (∃ i j, j ∈ ends table.isWord s (inMarks mark) i) ↔ HoldsQuote mark s := by
  simp only [mem_ends_inMarks]
  constructor
  · rintro ⟨i, -, hi, k, hik, hrun, hk, -⟩
    refine ⟨slice s (i + 1) k, ?_, ?_, infix_of_marks (by omega) hi hk⟩
    · have := (List.getElem?_eq_some_iff.mp hk).1
      rw [length_slice]
      omega
    · intro hmem
      obtain ⟨n, hn⟩ := List.mem_iff_getElem?.mp hmem
      have hlt := (List.getElem?_eq_some_iff.mp hn).1
      rw [length_slice] at hlt
      rw [getElem?_slice (by omega)] at hn
      obtain ⟨c, hc, hnot⟩ := holdsAt_iff.mp (hrun.2 (i + 1 + n) (by omega) (by omega))
      rw [hn] at hc
      rw [← Option.some.inj hc, among_singleton.mpr rfl] at hnot
      cases hnot
  · rintro ⟨mid, hlength, hmid, u, v, rfl⟩
    have hstands := standsAt_append u (ofChar mark :: mid ++ [ofChar mark]) v
    have hwhole : (ofChar mark :: mid ++ [ofChar mark]).length = mid.length + 2 := by simp
    refine ⟨u.length, _, ?_, u.length + (mid.length + 1), by omega, ⟨by omega, ?_⟩, ?_, rfl⟩
    · exact hstands.getElem? (n := 0) (Nat.zero_lt_succ _)
    · intro n hn hn'
      obtain ⟨m, rfl⟩ := Nat.exists_eq_add_of_le hn
      have hm : m < mid.length := by omega
      have hget := hstands.getElem? (n := m + 1) (by omega)
      rw [List.cons_append, List.getElem?_cons_succ, List.getElem?_append_left hm,
        List.getElem?_eq_getElem hm] at hget
      refine holdsAt_iff.mpr ⟨mid[m], by rw [← hget]; congr 1; omega, ?_⟩
      rw [Bool.not_eq_true', Bool.eq_false_iff, ne_eq, among_singleton]
      exact fun heq => hmid (heq ▸ List.getElem_mem hm)
    · rw [hstands.getElem? (by omega), List.cons_append, List.getElem?_cons_succ,
        List.getElem?_concat_length]

/-- Stripping keeps the quotes, as no mark is blank. -/
theorem holdsQuote_strip (hmark : isSpace (ofChar mark) = false) :
    HoldsQuote mark (strip isSpace s) ↔ HoldsQuote mark s := by
  constructor
  · intro h
    exact holdsQuote_of_infix h (strip_isInfix isSpace s)
  · rintro ⟨mid, hlength, hmid, hin⟩
    refine ⟨mid, hlength, hmid, infix_strip (List.cons_ne_nil _ _) ⟨?_, ?_⟩ hin⟩
    · rintro x ⟨⟩
      exact hmark
    · intro x hx
      rw [List.getLast?_concat] at hx
      exact Option.some.inj hx ▸ hmark

/-- **What the rule for quotations finds.** -/
theorem search_quotation (table : WordTable) (s : Str) : search table.isWord quotation s = true ↔
    HoldsQuote '"' s ∨ HoldsQuote '\'' s := by
  rw [search_iff_exists, ← exists_inMarks_iff table, ← exists_inMarks_iff table]
  constructor
  · rintro ⟨i, -, j, hj⟩
    rw [quotation, ends, List.mem_append] at hj
    exact hj.imp (fun h => ⟨i, j, h⟩) fun h => ⟨i, j, h⟩
  · have hbound : ∀ {mark i j}, j ∈ ends table.isWord s (inMarks mark) i → i ≤ s.length := by
      intro mark i j hj
      exact (List.getElem?_eq_some_iff.mp (mem_ends_inMarks.mp hj).1).1.le
    rintro (⟨i, j, hj⟩ | ⟨i, j, hj⟩)
    · exact ⟨i, hbound hj, j, List.mem_append_left _ hj⟩
    · exact ⟨i, hbound hj, j, List.mem_append_right _ hj⟩

theorem quotedPhrases_eq_nil_iff (table : WordTable) (s : Str) :
    quotedPhrases table s = [] ↔ ¬ HoldsQuote '"' s ∧ ¬ HoldsQuote '\'' s := by
  rw [quotedPhrases, List.map_eq_nil_iff, ← search_eq_false_iff, ← Bool.not_eq_true,
    search_quotation, not_or]

/-! ### The signal -/

/-- **The signal of a quotation is there iff something is quoted.** -/
theorem quoted_phrase_mem_iff (text : Str) :
    "quoted_phrase" ∈ (analyze table text).signals ↔
      quotedPhrases table (strip isSpace text) ≠ [] := by
  have htype : Signal.quotedPhrase.str ≠ (Signal.type (analyze table text).queryType).str :=
    fun h => Signal.noConfusion (Signal.str_injective h)
  have hstr : "quoted_phrase" = Signal.quotedPhrase.str := rfl
  rw [signals_analyze, List.mem_append, List.mem_singleton, hstr,
    List.mem_map_of_injective Signal.str_injective, mem_fired_iff]
  exact or_iff_left htype

/-! ### Contractions -/

/-- Every apostrophe of the text is between two letters. -/
def BetweenLetters (text : Str) : Prop :=
  ∀ i < text.length, holdsAt text (among ['\'']) i = true →
    0 < i ∧ holdsAt text isLetter (i - 1) = true ∧ holdsAt text isLetter (i + 1) = true

instance (text : Str) : Decidable (BetweenLetters text) :=
  inferInstanceAs (Decidable (∀ i < text.length, holdsAt text (among ['\'']) i = true → _))

/-- The text with each apostrophe replaced by nothing. -/
def withoutApostrophes (text : Str) : Str := text.filter fun c => !among ['\''] c

theorem not_mem_withoutApostrophes {c : CodePoint} (text : Str) (h : c ∉ text ∨ c = ofChar '\'') :
    c ∉ withoutApostrophes text := by
  intro hmem
  obtain ⟨hc, hnot⟩ := List.mem_filter.mp hmem
  rcases h with h | rfl
  · exact h hc
  · rw [among_singleton.mpr rfl] at hnot
    cases hnot

/-- **When a text without double quotes quotes nothing**: no two successive apostrophes have two
characters or more between them. -/
theorem unquoted_iff (table : WordTable) (text : Str) (h : ofChar '"' ∉ text) :
    ("quoted_phrase" ∉ (analyze table text).signals ∧
      quotedPhrases table (strip isSpace text) = [] ∧
      quotedPhrases table (strip isSpace (withoutApostrophes text)) =
        quotedPhrases table (strip isSpace text)) ↔
      ¬ HoldsQuote '\'' text := by
  have hquoted : ∀ s, quotedPhrases table (strip isSpace s) = [] ↔
      ¬ HoldsQuote '"' s ∧ ¬ HoldsQuote '\'' s := by
    intro s
    rw [quotedPhrases_eq_nil_iff, holdsQuote_strip (by decide), holdsQuote_strip (by decide)]
  have hwithout : quotedPhrases table (strip isSpace (withoutApostrophes text)) = [] :=
    (hquoted _).mpr ⟨not_holdsQuote (not_mem_withoutApostrophes text (Or.inl h)),
      not_holdsQuote (not_mem_withoutApostrophes text (Or.inr rfl))⟩
  rw [quoted_phrase_mem_iff, not_not, hwithout, hquoted]
  constructor
  · rintro ⟨⟨-, happostrophe⟩, -⟩
    exact happostrophe
  · intro happostrophe
    have hnone := not_holdsQuote h
    exact ⟨⟨hnone, happostrophe⟩, ⟨hnone, happostrophe⟩,
      ((hquoted text).mpr ⟨hnone, happostrophe⟩).symm⟩

/-- One contraction. -/
def dont : Str := lit ['d', 'o', 'n', '\'', 't']

/-- Two contractions. -/
def dontCant : Str := dont ++ lit [' ', 'c', 'a', 'n', '\'', 't']

theorem unquoted_iff_dont : ofChar '"' ∉ dont ∧
    (("quoted_phrase" ∉ (analyze asciiTable dont).signals ∧
      quotedPhrases asciiTable (strip isSpace dont) = [] ∧
      quotedPhrases asciiTable (strip isSpace (withoutApostrophes dont)) =
        quotedPhrases asciiTable (strip isSpace dont)) ↔
      ¬ HoldsQuote '\'' dont) :=
  ⟨by decide, unquoted_iff asciiTable dont (by decide)⟩

/-- **Two contractions quote what is between them.** -/
theorem contractions_quote : ¬ ∀ (table : WordTable) (text : Str), ofChar '"' ∉ text →
    BetweenLetters text →
      "quoted_phrase" ∉ (analyze table text).signals ∧
        quotedPhrases table (strip isSpace text) = [] ∧
        quotedPhrases table (strip isSpace (withoutApostrophes text)) =
          quotedPhrases table (strip isSpace text) := by
  intro hclaim
  have hsignal := (hclaim asciiTable dontCant (by decide) (by decide +kernel)).1
  exact hsignal (by decide +kernel)

end Routing
end EvidenceLab
