/-
# Which integer a value denotes

A JSON value denotes an integer as an integer, as a number equal to it, or as its decimal
string (`denotes`).  `int` reads an integer off every value that denotes one
(`toInt_of_denotes`): a decimal string is read back, up to the length that `int` refuses
(`intOfStr_decimal`).  The converse fails, since `int` takes booleans and many other strings
for numbers and cuts fractions towards zero (`tdiv_eq_iff`).
-/

import EvidenceLab.Data.Json
import Mathlib.Data.Rat.Floor

namespace EvidenceLab
namespace Data

open Text EvidenceLab.Core

namespace Json

/-- `str` of a natural number. -/
def decimal (n : ℕ) : Str := lit (Nat.toDigits 10 n)

/-- The value denotes the integer `i`: it is the integer, a number equal to it, or its decimal
string, as long as `int` reads strings of that length. -/
def denotes (value : Json) (i : ℕ) : Bool :=
  match value with
  | .int z => z = i
  | .float (.finite q _) => q = i
  | .float .negZero => i = 0
  | .str s => s = decimal i ∧ s.length ≤ intMaxStrDigits
  | _ => false

/-! ### Decimal strings -/

theorem decimalDigit_ofChar {c : Char} (h : c.isDigit = true) :
    decimalDigit (ofChar c) = some (c.toNat - '0'.toNat) := by
  obtain ⟨hlow, hhigh⟩ : 48 ≤ c.toNat ∧ c.toNat ≤ 57 := Char.isDigit_iff_toNat.mp h
  have hval : (ofChar c).val = c.toNat := Nat.mod_eq_of_lt (by omega)
  rw [decimalDigit, decimalZeros, List.find?_cons_of_pos, Option.map_some, hval]
  · rfl
  · rw [hval]
    simp only [Bool.and_eq_true, decide_eq_true_eq]
    omega

/-- The digits of a numeral that is written with digits only. -/
theorem digits_lit {cs : List Char} (hne : cs ≠ []) (h : ∀ c ∈ cs, c.isDigit = true) :
    digits (lit cs) = some (cs.map fun c => c.toNat - '0'.toNat) := by
  induction cs with
  | nil => exact absurd rfl hne
  | cons c cs ih =>
      have hc := decimalDigit_ofChar (h c List.mem_cons_self)
      cases cs with
      | nil =>
          rw [lit, List.map_singleton, digits, hc]
          rfl
      | cons c' cs =>
          have hc' := h c' (by simp)
          have hunderscore : ofChar c' ≠ underscore := by
            intro heq
            have hnone : decimalDigit underscore = none := by decide
            rw [← heq, decimalDigit_ofChar hc'] at hnone
            cases hnone
          have hrest := ih (List.cons_ne_nil _ _) fun c hc => h c (List.mem_cons_of_mem _ hc)
          rw [lit, List.map_cons] at hrest
          rw [lit, List.map_cons, List.map_cons, digits, if_neg hunderscore, hc, hrest]
          rfl

theorem isDigit_of_mem_toDigits {n : ℕ} : ∀ c ∈ Nat.toDigits 10 n, c.isDigit = true :=
  fun _ hc => Nat.isDigit_of_mem_toDigits (by decide) (by decide) hc

/-- A digit is no blank around a number. -/
theorem not_isIntSpace_decimal {n : ℕ} : ∀ c ∈ decimal n, isIntSpace c = false := by
  intro c hc
  obtain ⟨d, hd, rfl⟩ := List.mem_map.mp hc
  obtain ⟨hlow, hhigh⟩ : 48 ≤ d.toNat ∧ d.toNat ≤ 57 :=
    Char.isDigit_iff_toNat.mp (isDigit_of_mem_toDigits d hd)
  have hval : (ofChar d).val = d.toNat := Nat.mod_eq_of_lt (by omega)
  have hspace : isSpace (ofChar d) = false := by
    simp only [isSpace, hval, Bool.or_eq_false_iff, Bool.and_eq_false_iff, decide_eq_false_iff_not,
      beq_eq_false_iff_ne]
    omega
  rw [isIntSpace, hspace, Bool.false_and]

theorem decimal_ne_nil (n : ℕ) : decimal n ≠ [] := by
  rw [decimal, lit, Ne, List.map_eq_nil_iff]
  exact Nat.toDigits_ne_nil

/-- **`int` reads a decimal string back**, up to the length it refuses. -/
theorem intOfStr_decimal (n : ℕ) : intOfStr (decimal n) =
    if (decimal n).length ≤ intMaxStrDigits then some (n : ℤ) else none := by
  have hnat : natOfStr (decimal n) =
      if (decimal n).length ≤ intMaxStrDigits then some n else none := by
    have hvalue := Nat.ofDigitChars_ten_toDigits (n := n)
    rw [Nat.ofDigitChars_eq_foldl] at hvalue
    rw [natOfStr, decimal, digits_lit Nat.toDigits_ne_nil isDigit_of_mem_toDigits,
      Option.bind_some, List.length_map, List.foldl_map, lit, List.length_map]
    split_ifs
    · exact congrArg some hvalue
    · rfl
  have hstrip : strip isIntSpace (decimal n) = decimal n := by
    rw [strip, lstrip, List.dropWhile_eq_self_iff.mpr, List.rdropWhile_eq_self_iff.mpr]
    · intro hne
      rw [not_isIntSpace_decimal _ (List.getLast_mem hne)]
      exact Bool.false_ne_true
    · intro hpos
      rw [not_isIntSpace_decimal _ (List.getElem_mem hpos)]
      exact Bool.false_ne_true
  have hhead : ∀ c ∈ decimal n, c ≠ minusSign ∧ c ≠ plusSign := by
    intro c hc
    obtain ⟨d, hd, rfl⟩ := List.mem_map.mp hc
    have hsome := decimalDigit_ofChar (isDigit_of_mem_toDigits d hd)
    constructor
    · intro heq
      rw [heq] at hsome
      exact absurd (hsome.symm.trans (by decide : decimalDigit minusSign = none)) (by simp)
    · intro heq
      rw [heq] at hsome
      exact absurd (hsome.symm.trans (by decide : decimalDigit plusSign = none)) (by simp)
  obtain ⟨c, rest, hcons⟩ := List.exists_cons_of_ne_nil (decimal_ne_nil n)
  obtain ⟨hminus, hplus⟩ := hhead c (hcons ▸ List.mem_cons_self)
  rw [intOfStr, hstrip]
  rw [hcons] at hnat ⊢
  simp only [if_neg hminus, if_neg hplus, hnat]
  split_ifs <;> rfl

/-! ### What `int` makes of a value -/

theorem toInt_of_denotes {value : Json} {i : ℕ} (h : denotes value i = true) :
    value.toInt = .ok (i : ℤ) := by
  cases value with
  | int z =>
      rw [of_decide_eq_true h]
      rfl
  | float x =>
      cases x with
      | finite q _ =>
          have hq : q = i := of_decide_eq_true h
          simp [toInt, hq]
      | negZero =>
          rw [of_decide_eq_true h]
          rfl
      | inf => cases h
      | negInf => cases h
      | nan => cases h
  | str s =>
      obtain ⟨rfl, hlength⟩ := of_decide_eq_true h
      rw [toInt, intOfStr_decimal, if_pos hlength]
      rfl
  | null => cases h
  | bool b => cases h
  | list xs => cases h
  | dict es => cases h

/-- Cutting a number towards zero: down from above zero, and to zero from closely below. -/
theorem tdiv_eq_iff {q : ℚ} {i : ℕ} :
    q.num.tdiv q.den = (i : ℤ) ↔ (i : ℚ) ≤ q ∧ q < i + 1 ∨ i = 0 ∧ -1 < q ∧ q < 0 := by
  rcases le_or_gt 0 q with hq | hq
  · have hfloor : q.num.tdiv q.den = ⌊q⌋ := by
      rw [Int.tdiv_eq_ediv_of_nonneg (Rat.num_nonneg.mpr hq), Rat.floor_def']
    rw [hfloor, Int.floor_eq_iff, Int.cast_natCast]
    exact (or_iff_left fun h => absurd h.2.2 (not_lt.mpr hq)).symm
  · have hfloor : q.num.tdiv q.den = -⌊-q⌋ := by
      have hnum : 0 ≤ -q.num := by
        rw [← Rat.num_neg_eq_neg_num]
        exact Rat.num_nonneg.mpr (by linarith)
      rw [Rat.floor_def', Rat.den_neg_eq_den, Rat.num_neg_eq_neg_num,
        ← Int.tdiv_eq_ediv_of_nonneg hnum, Int.neg_tdiv, neg_neg]
    have hpos : 0 ≤ ⌊-q⌋ := Int.floor_nonneg.mpr (by linarith)
    have hi : ¬ ((i : ℚ) ≤ q ∧ q < i + 1) := by
      rintro ⟨h, -⟩
      have : (0 : ℚ) ≤ i := Nat.cast_nonneg i
      linarith
    rw [hfloor, or_iff_right hi]
    constructor
    · intro h
      have hzero : ⌊-q⌋ = 0 := by omega
      obtain ⟨-, hlt⟩ := Int.floor_eq_iff.mp hzero
      exact ⟨by omega, by push_cast at hlt; linarith, hq⟩
    · rintro ⟨rfl, hlow, -⟩
      have hzero : ⌊-q⌋ = 0 := Int.floor_eq_iff.mpr ⟨by push_cast; linarith, by push_cast; linarith⟩
      rw [hzero]
      rfl

end Json
end Data
end EvidenceLab
