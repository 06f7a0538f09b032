/-
# Phrases inside phrases

The rules of the analyzer look for phrases, and a phrase of one list may hold a phrase of another.
Of the comparative ones this is so for "difference between" only, in which the rule on numeric
reasoning finds its "between" (`overlap`).  That rule comes first: a query with these words is
taken for a numeric one, although nothing else in it speaks for that (`comparative_wins_iff`).
-/

import EvidenceLab.Routing.Signals
import EvidenceLab.Text.Spellings

namespace EvidenceLab
namespace Routing

open Text Text.Regex Retrieval

variable {table : WordTable} {s : Str} {i : ℕ}

/-! ### The phrases -/

theorem spells_folded (chars : List Char) :
    Spells foldCase (folded chars) ((chars.map ofChar).map fun x => [x]) :=
  spells_one fun _ => List.contains_iff_mem

theorem spells_phrase (text : String) : Spells foldCase (phrase text) [lit text.toList] := by
  rw [phrase]
  induction text.toList with
  | nil => exact spells_empty foldCase
  | cons x l ih => exact (spells_folded [x]).seq ih

/-- The texts that `_COMPARATIVE` finds, in lower case. -/
def comparativePhrases : List Str :=
  ["vs.", "vs", "versus", "compared", "compares", "compare", "comparison", "difference between",
    "better than", "worse than", "rather than"].map fun text => lit text.toList

/-- The texts that `_NUMERIC_REASONING` finds. -/
def numericPhrases : List Str :=
  ["how many", "how much", "average", "mean", "median", "total", "sum", "percent", "percentage",
    "rate", "ratio", "more than", "less than", "at least", "at most", "between"].map fun text =>
      lit text.toList

/-- The phrase that holds one of the other list. -/
def differenceBetween : Regex CodePoint := word (phrase "difference between")

theorem mem_ends_comparative {j : ℕ} : j ∈ ends table.isWord s comparative i ↔
    boundaryAt table.isWord s i = true ∧ boundaryAt table.isWord s j = true ∧
      ∃ w ∈ comparativePhrases, StandsAt (s.map foldCase) w i ∧ j = i + w.length := by
  refine Spells.mem_ends_word ?_
  exact spells_oneOf
    (.cons ((spells_phrase "vs").seq (spells_folded ['.']).opt)
    (.cons (spells_phrase "versus")
    (.cons ((spells_phrase "compare").seq (spells_folded ['d', 's']).opt)
    (.cons (spells_phrase "comparison")
    (.cons (spells_phrase "difference between")
    (.cons (spells_phrase "better than")
    (.cons (spells_phrase "worse than")
    (.cons (spells_phrase "rather than") .nil))))))))

theorem mem_ends_numericReasoning {j : ℕ} : j ∈ ends table.isWord s numericReasoning i ↔
    boundaryAt table.isWord s i = true ∧ boundaryAt table.isWord s j = true ∧
      ∃ w ∈ numericPhrases, StandsAt (s.map foldCase) w i ∧ j = i + w.length := by
  refine Spells.mem_ends_word ?_
  have hphrases : ∀ texts : List String, Spells foldCase (oneOf (texts.map phrase))
      (texts.map fun text => [lit text.toList]).flatten := by
    intro texts
    refine spells_oneOf ?_
    rw [List.forall₂_map_left_iff, List.forall₂_map_right_iff, List.forall₂_same]
    exact fun text _ => spells_phrase text
  exact hphrases _

/-- **The only overlap** of the two lists. -/
theorem overlap : ∀ w ∈ comparativePhrases, ∀ v ∈ numericPhrases, v <:+: w →
    w = lit "difference between".toList := by decide +kernel

/-! ### The word inside the phrase -/

theorem foldCase_capital {c : CodePoint} (h : isCapital c = true) :
    (foldCase c).val = c.val + 0x20 := by
  have hle : c ≤ ofChar 'Z' := of_decide_eq_true (Bool.and_eq_true_iff.mp h).2
  have hval : c.val ≤ 90 := hle
  rw [foldCase, if_pos h]
  exact Nat.mod_eq_of_lt (by omega)

/-- No blank is taken for another character. -/
theorem eq_blank_of_foldCase {c : CodePoint} (h : foldCase c = ofChar ' ') : c = ofChar ' ' := by
  by_cases hcapital : isCapital c = true
  · have hge : ofChar 'A' ≤ c := of_decide_eq_true (Bool.and_eq_true_iff.mp hcapital).1
    have hval : 65 ≤ c.val := hge
    have hfold := foldCase_capital hcapital
    rw [h] at hfold
    have hblank : (ofChar ' ').val = 32 := rfl
    omega
  · rw [foldCase, if_neg hcapital] at h
    split_ifs at h
    · cases h
    · cases h
    · cases h
    · exact h

/-- Only the letters `b` and `B` are taken for a `b`. -/
theorem isLetter_of_foldCase {c : CodePoint} (h : foldCase c = ofChar 'b') : isLetter c = true := by
  by_cases hcapital : isCapital c = true
  · exact Bool.or_eq_true_iff.mpr (Or.inl hcapital)
  · rw [foldCase, if_neg hcapital] at h
    split_ifs at h
    · cases h
    · cases h
    · cases h
    · rw [h]
      rfl

theorem boundaryAt_succ (h : holdsAt s table.isWord i = false)
    (h' : holdsAt s table.isWord (i + 1) = true) : boundaryAt table.isWord s (i + 1) = true := by
  rw [boundaryAt, Nat.add_sub_cancel, h, h', Bool.and_false]
  rfl

/-- The word "between" begins where the blank before it ends. -/
theorem boundaryAt_between (table : WordTable)
    (h : StandsAt (s.map foldCase) (lit "difference between".toList) i) :
    boundaryAt table.isWord s (i + 11) = true := by
  have hcut : lit "difference between".toList = lit "difference".toList ++
      ([ofChar ' '] ++ ([ofChar 'b'] ++ lit "etween".toList)) := rfl
  rw [hcut, standsAt_append_iff, standsAt_append_iff, standsAt_append_iff] at h
  obtain ⟨-, hblank, hletter, -⟩ := h
  rw [standsAt_singleton, List.getElem?_map, Option.map_eq_some_iff] at hblank hletter
  obtain ⟨c, hc, hfold⟩ := hblank
  obtain ⟨d, hd, hfold'⟩ := hletter
  have hword : table.isWord d = true := isWord_of_isLetter (isLetter_of_foldCase hfold')
  refine boundaryAt_succ ?_ (holdsAt_iff.mpr ⟨d, hd, hword⟩)
  rw [Bool.eq_false_iff, ne_eq, holdsAt_iff]
  rintro ⟨c', hc', hblank⟩
  rw [Option.some.inj (hc'.symm.trans hc), eq_blank_of_foldCase hfold,
    not_isWord_of_isSpace _ (by decide)] at hblank
  cases hblank

/-- **A text that is said to differ between things is taken to reason on numbers.** -/
theorem numericReasoning_of_differenceBetween
    (h : search table.isWord differenceBetween s = true) :
    search table.isWord numericReasoning s = true := by
  obtain ⟨i, hi, j, hj⟩ := search_iff_exists.mp h
  obtain ⟨-, hend, w, hw, hstands, rfl⟩ := (spells_phrase _).mem_ends_word.mp hj
  rw [List.mem_singleton.mp hw] at hstands hend
  have hcut : lit "difference between".toList = lit "difference ".toList ++ lit "between".toList :=
    rfl
  have hbetween := boundaryAt_between table hstands
  rw [hcut] at hstands hend
  obtain ⟨-, hstands⟩ := standsAt_append_iff.mp hstands
  refine search_iff_exists.mpr ⟨i + 11, ?_, i + 18, ?_⟩
  · have hle := hstands.add_le (by decide +kernel)
    rw [List.length_map] at hle
    exact (Nat.le_add_right _ _).trans hle
  · exact mem_ends_numericReasoning.mpr ⟨hbetween, hend, lit "between".toList, by decide +kernel,
      hstands, rfl⟩

/-- **Where the rule on numbers fires inside comparative phrases only**, it fires on this one. -/
theorem numericReasoning_iff
    (hinside : ∀ m ∈ findAll table.isWord numericReasoning s,
      ∃ m' ∈ findAll table.isWord comparative s, m'.1 ≤ m.1 ∧ m.2 ≤ m'.2) :
    search table.isWord numericReasoning s = true ↔
      search table.isWord differenceBetween s = true := by
  refine ⟨fun h => ?_, numericReasoning_of_differenceBetween⟩
  obtain ⟨m, hm⟩ := List.exists_mem_of_ne_nil _ (search_iff.mp h)
  obtain ⟨m', hm', hle, hle'⟩ := hinside m hm
  obtain ⟨-, hmatch, -⟩ := mem_findAll_iff.mp hm
  obtain ⟨hi, hmatch', -⟩ := mem_findAll_iff.mp hm'
  obtain ⟨-, -, v, hv, hstands, hend⟩ := mem_ends_numericReasoning.mp (List.mem_of_head? hmatch)
  obtain ⟨hword, hword', w, hw, hstands', hend'⟩ :=
    mem_ends_comparative.mp (List.mem_of_head? hmatch')
  have hinfix : v <:+: w := infix_of_inside hstands' hstands hle (by omega)
  obtain rfl := overlap w hw v hv hinfix
  exact search_iff_exists.mpr ⟨m'.1, hi, m'.2, (spells_phrase _).mem_ends_word.mpr
    ⟨hword, hword', _, List.mem_singleton_self _, hstands', hend'⟩⟩

/-! ### Comparisons that win -/

/-- **A comparison is not taken for one iff its phrase is "difference between"**: of a text that
matches a comparative phrase, has no multi-hop phrase, one question mark at most, no entity, and
no phrase on numbers but inside a comparative one. -/
theorem comparative_wins_iff (table : WordTable) (text : Str)
    (hcomparative : search table.isWord comparative (strip isSpace text) = true)
    (hmultihop : search table.isWord multiHop (strip isSpace text) = false)
    (hquestions : (strip isSpace text).count (ofChar '?') ≤ 1)
    (hentities : (analyze table text).entities = [])
    (hinside : ∀ m ∈ findAll table.isWord numericReasoning (strip isSpace text),
      ∃ m' ∈ findAll table.isWord comparative (strip isSpace text), m'.1 ≤ m.1 ∧ m.2 ≤ m'.2) :
    ((analyze table text).queryType = .comparative ∧
      some (defaultPolicy.profileFor (analyze table text).queryType) =
        defaultProfiles.lookup .comparative ∧
      (analyze table text).requiresNumericReasoning = false) ↔
      search table.isWord differenceBetween (strip isSpace text) = false := by
  have hreasoning : search table.isWord numericReasoning (strip isSpace text) = false ↔
      search table.isWord differenceBetween (strip isSpace text) = false := by
    rw [← Bool.not_eq_true, ← Bool.not_eq_true, numericReasoning_iff hinside]
  rw [← hreasoning]
  constructor
  · exact fun h => h.2.2
  · intro hnone
    have htype : (analyze table text).queryType = .comparative := by
      have hhops : ¬ Fires table (strip isSpace text) .multiHopPhrase := by
        rintro (hphrase | hmarks)
        · cases hphrase.symm.trans hmultihop
        · exact absurd hmarks (Nat.not_lt.mpr hquestions)
      have hnumbers : ¬ Fires table (strip isSpace text) .numericReasoning :=
        fun hphrase => Bool.false_ne_true (hnone.symm.trans hphrase)
      have hnames : ¬ NamesEntity (fired table (strip isSpace text)) :=
        entities_ne_nil_iff.not.mp (not_not.mpr hentities)
      have hphrase : Fires table (strip isSpace text) .comparativePhrase := hcomparative
      rw [queryType_eq_typeOf, typeOf, if_neg (mem_fired_iff.not.mpr hhops),
        if_neg (mem_fired_iff.not.mpr hnumbers), if_neg hnames,
        if_pos (mem_fired_iff.mpr hphrase)]
    refine ⟨htype, ?_, hnone⟩
    rw [htype]
    rfl

/-- A comparison of two things. -/
def catsAndDogs : Str := lit "compare cats with dogs".toList

/-- The same question, in words of which one is a phrase on numbers too. -/
def catsFromDogs : Str := lit "difference between cats and dogs".toList

theorem comparative_wins_cats :
    ((analyze asciiTable catsAndDogs).queryType = .comparative ∧
      some (defaultPolicy.profileFor (analyze asciiTable catsAndDogs).queryType) =
        defaultProfiles.lookup .comparative ∧
      (analyze asciiTable catsAndDogs).requiresNumericReasoning = false) ∧
    findAll asciiTable.isWord numericReasoning (strip isSpace catsFromDogs) = [(11, 18)] ∧
    ¬ ((analyze asciiTable catsFromDogs).queryType = .comparative ∧
      some (defaultPolicy.profileFor (analyze asciiTable catsFromDogs).queryType) =
        defaultProfiles.lookup .comparative ∧
      (analyze asciiTable catsFromDogs).requiresNumericReasoning = false) := by
  refine ⟨?_, by decide +kernel, ?_⟩
  · exact (comparative_wins_iff asciiTable catsAndDogs (by decide +kernel) (by decide +kernel)
      (by decide +kernel) (by decide +kernel) (by decide +kernel)).mpr (by decide +kernel)
  · exact (comparative_wins_iff asciiTable catsFromDogs (by decide +kernel) (by decide +kernel)
      (by decide +kernel) (by decide +kernel) (by decide +kernel)).not.mpr (by decide +kernel)

/-- **A comparative phrase that never wins.** -/
theorem differenceBetween_loses : ¬ ∀ (table : WordTable) (text : Str),
    search table.isWord comparative (strip isSpace text) = true →
    search table.isWord multiHop (strip isSpace text) = false →
    (strip isSpace text).count (ofChar '?') ≤ 1 → (analyze table text).entities = [] →
    (∀ m ∈ findAll table.isWord numericReasoning (strip isSpace text),
      ∃ m' ∈ findAll table.isWord comparative (strip isSpace text), m'.1 ≤ m.1 ∧ m.2 ≤ m'.2) →
    (analyze table text).queryType = .comparative ∧
      some (defaultPolicy.profileFor (analyze table text).queryType) =
        defaultProfiles.lookup .comparative ∧
      (analyze table text).requiresNumericReasoning = false := by
  intro hclaim
  have hwins := hclaim asciiTable catsFromDogs (by decide +kernel) (by decide +kernel)
    (by decide +kernel) (by decide +kernel) (by decide +kernel)
  have hreasons : (analyze asciiTable catsFromDogs).requiresNumericReasoning = true := by
    decide +kernel
  exact Bool.false_ne_true (hwins.2.2.symm.trans hreasons)

end Routing
end EvidenceLab
