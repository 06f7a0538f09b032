/-
# The characters of the rules

Which of the classes that the patterns are made of exclude one another: no blank and no letter is
a decimal digit, no blank is a word character, and every letter is one.
-/

import EvidenceLab.Routing.QueryAnalyzer

namespace EvidenceLab
namespace Routing

open Text Text.Regex Retrieval

variable {table : WordTable}

/-- A decimal digit is one of ten from a zero on. -/
theorem exists_of_isDecimal {c : CodePoint} (h : isDecimal c = true) :
    ∃ z ∈ decimalZeros, ∃ d < 10, c = Fin.ofNat _ (z + d) := by
  rw [isDecimal, decimalDigit, Option.isSome_map] at h
  obtain ⟨z, hz⟩ := Option.isSome_iff_exists.mp h
  have hrange := List.find?_some hz
  rw [Bool.and_eq_true, decide_eq_true_eq, decide_eq_true_eq] at hrange
  refine ⟨z, List.mem_of_find?_eq_some hz, c.val - z, by omega, ?_⟩
  rw [Fin.ext_iff, Fin.val_ofNat, Nat.add_sub_cancel' hrange.1, Nat.mod_eq_of_lt (by omega)]

/-- What holds of none of the digits from the zeros on does not hold of a decimal digit. -/
theorem not_isDecimal {p : CodePoint → Bool}
    (hdigits : ∀ z ∈ decimalZeros, ∀ d < 10, p (Fin.ofNat _ (z + d)) = false) {c : CodePoint}
    (h : p c = true) : isDecimal c = false := by
  by_contra hdecimal
  obtain ⟨z, hz, d, hd, rfl⟩ := exists_of_isDecimal (Bool.eq_true_of_not_eq_false hdecimal)
  rw [hdigits z hz d hd] at h
  cases h

theorem not_isDecimal_of_isSpace {c : CodePoint} (h : isSpace c = true) : isDecimal c = false :=
  not_isDecimal (p := isSpace) (by decide +kernel) h

theorem not_isDecimal_of_isLetter {c : CodePoint} (h : isLetter c = true) :
    isDecimal c = false :=
  not_isDecimal (p := isLetter) (by decide +kernel) h

theorem val_of_isLetter {c : CodePoint} (h : isLetter c = true) :
    (0x41 ≤ c.val ∧ c.val ≤ 0x5A) ∨ (0x61 ≤ c.val ∧ c.val ≤ 0x7A) := by
  rw [isLetter, Bool.or_eq_true, within, within, Bool.and_eq_true, Bool.and_eq_true] at h
  exact h.imp (And.imp of_decide_eq_true of_decide_eq_true)
    (And.imp of_decide_eq_true of_decide_eq_true)

theorem not_isLetter_of_isSpace {c : CodePoint} (h : isSpace c = true) : isLetter c = false := by
  by_contra hletter
  have hval := val_of_isLetter (Bool.eq_true_of_not_eq_false hletter)
  simp only [isSpace, Bool.or_eq_true, Bool.and_eq_true, decide_eq_true_eq, beq_iff_eq] at h
  omega

/-- What holds of none of some characters does not hold of one among them. -/
theorem not_among {chars : List Char} {p : CodePoint → Bool}
    (hchars : chars.all (fun x => !p (ofChar x)) = true) {c : CodePoint} (h : p c = true) :
    among chars c = false := by
  by_contra hamong
  rw [Bool.not_eq_false, among, List.contains_iff_mem] at hamong
  obtain ⟨x, hx, rfl⟩ := List.mem_map.mp hamong
  have hx' := List.all_eq_true.mp hchars x hx
  rw [h] at hx'
  cases hx'

theorem not_isSpecial_of_isSpace {c : CodePoint} (h : isSpace c = true) : isSpecial c = false := by
  rw [isSpecial, not_isDecimal_of_isSpace h, not_among (p := isSpace) rfl h]
  rfl

theorem isWord_of_isLetter {c : CodePoint} (h : isLetter c = true) : table.isWord c = true := by
  have hval := val_of_isLetter h
  rw [WordTable.isWord, table.ascii c (by omega), h]
  rfl

theorem not_isWord_of_isSpace (c : CodePoint) (h : isSpace c = true) :
    table.isWord c = false := by
  rw [WordTable.isWord, table.solid c h, Bool.false_or]
  refine beq_eq_false_iff_ne.mpr ?_
  rintro rfl
  exact absurd h (by decide)

theorem not_isSolid_of_isSpace {c : CodePoint} (h : isSpace c = true) : isSolid c = false := by
  rw [isSolid, h]
  rfl

/-- The ASCII part of the table, with nothing else in it. -/
def asciiTable : WordTable where
  isAlnum c := isLetter c || within '0' '9' c
  ascii _ _ := rfl
  solid c h := by
    have hdigit : within '0' '9' c = false := by
      by_contra hdigit
      rw [Bool.not_eq_false, within, Bool.and_eq_true, decide_eq_true_eq, decide_eq_true_eq]
        at hdigit
      have hlow : 0x30 ≤ c.val := hdigit.1
      have hhigh : c.val ≤ 0x39 := hdigit.2
      simp only [isSpace, Bool.or_eq_true, Bool.and_eq_true, decide_eq_true_eq, beq_iff_eq] at h
      omega
    rw [not_isLetter_of_isSpace h, hdigit]
    rfl

end Routing
end EvidenceLab
