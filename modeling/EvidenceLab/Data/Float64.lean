/-
# Double precision

IEEE 754 `binary64`, as a language with `float` uses it.  A finite number is a rational that
is its own rounding (`IsDouble`), so a `Float64` is always a double; zero has two signs, and
there are two infinities and NaN.  Each operation is the exact one, rounded to nearest with
ties to even (`nearest`), beyond the greatest double to an infinity.

A rounding keeps the order of numbers that are not negative (`nearest_mono`), keeps what is a
multiple of a power of two with at most 53 binary digits (`nearest_dyadic`), and errs by no
more than half a unit of the last place (`abs_nearest_sub_le`).  What comparisons see of a
number is its `value`: the two zeros have the same, and NaN has none.
-/

import Mathlib.Algebra.Order.Field.Power
import Mathlib.Algebra.Order.Field.Rat
import Mathlib.Data.Int.Log
import Mathlib.Data.Rat.Floor
import Mathlib.Order.WithBot
import Mathlib.Tactic.Linarith
import Mathlib.Tactic.NormNum
import Mathlib.Tactic.Positivity
import Mathlib.Tactic.Ring

namespace EvidenceLab
namespace Data

/-! ### The nearest integer -/

/-- The integer nearest to a rational, a tie going to the even one. -/
def roundEven (x : ℚ) : ℤ :=
  if x - ⌊x⌋ < 1 / 2 ∨ (x - ⌊x⌋ = 1 / 2 ∧ ⌊x⌋ % 2 = 0) then ⌊x⌋ else ⌊x⌋ + 1

@[simp] theorem roundEven_intCast (n : ℤ) : roundEven n = n := by
  rw [roundEven, Int.floor_intCast, sub_self, if_pos (Or.inl (by norm_num))]

theorem abs_roundEven_sub_le (x : ℚ) : |(roundEven x : ℚ) - x| ≤ 1 / 2 := by
  have hle := Int.floor_le x
  have hlt := Int.lt_floor_add_one x
  rw [roundEven, abs_le]
  split_ifs with h
  · have : x - ⌊x⌋ ≤ 1 / 2 := h.elim le_of_lt fun h => h.1.le
    constructor <;> linarith
  · rw [not_or] at h
    have := not_lt.mp h.1
    push_cast
    constructor <;> linarith

theorem roundEven_mono {x y : ℚ} (h : x ≤ y) : roundEven x ≤ roundEven y := by
  rcases (Int.floor_mono h).lt_or_eq with hlt | heq
  · -- The rounding of `x` is at most the next integer, that of `y` at least its floor.
    have hx : roundEven x ≤ ⌊x⌋ + 1 := by
      rw [roundEven]
      split_ifs <;> omega
    have hy : ⌊y⌋ ≤ roundEven y := by
      rw [roundEven]
      split_ifs <;> omega
    omega
  · have hrest : x - ⌊x⌋ ≤ y - ⌊y⌋ := by
      rw [heq]
      linarith
    rw [roundEven, roundEven, heq]
    rw [heq] at hrest
    split_ifs with hx hy hy
    · exact le_rfl
    · omega
    · refine absurd ?_ hx
      rcases hy with hlt | ⟨htie, heven⟩
      · exact Or.inl (hrest.trans_lt hlt)
      · exact hrest.trans htie.le |>.lt_or_eq.imp_right fun h => ⟨h, heven⟩
    · exact le_rfl

theorem roundEven_nonneg {x : ℚ} (h : 0 ≤ x) : 0 ≤ roundEven x := by
  have := roundEven_mono h
  rwa [← Int.cast_zero, roundEven_intCast] at this

/-! ### The nearest double -/

/-- The exponent of the unit in the last place: 53 digits, and none below `2 ^ (-1074)`. -/
def unitExponent (q : ℚ) : ℤ := if q = 0 then -1074 else max (Int.log 2 |q| - 52) (-1074)

/-- The unit in the last place. -/
def unit (q : ℚ) : ℚ := 2 ^ unitExponent q

/-- A rational rounded to 53 binary digits, or to a multiple of `2 ^ (-1074)`. -/
def nearest (q : ℚ) : ℚ := roundEven (q / unit q) * unit q

theorem unit_pos (q : ℚ) : 0 < unit q := zpow_pos (by norm_num) _

@[simp] theorem unitExponent_zero : unitExponent 0 = -1074 := if_pos rfl

theorem unitExponent_of_ne {q : ℚ} (hq : q ≠ 0) :
    unitExponent q = max (Int.log 2 |q| - 52) (-1074) := if_neg hq

theorem neg_1074_le_unitExponent (q : ℚ) : -1074 ≤ unitExponent q := by
  rw [unitExponent]
  split
  · exact le_rfl
  · exact le_max_right _ _

theorem abs_lt_unit (q : ℚ) : |q| < 2 ^ 53 * unit q := by
  rcases eq_or_ne q 0 with rfl | hq
  · have := unit_pos 0
    rw [abs_zero]
    positivity
  have hlt : |q| < (2 : ℕ) ^ (Int.log 2 |q| + 1) := Int.lt_zpow_succ_log_self (by norm_num) _
  have hle : Int.log 2 |q| + 1 ≤ 53 + unitExponent q := by
    rw [unitExponent_of_ne hq]
    omega
  calc |q| < 2 ^ (Int.log 2 |q| + 1) := by exact_mod_cast hlt
    _ ≤ 2 ^ (53 + unitExponent q) := zpow_le_zpow_right₀ (by norm_num) hle
    _ = 2 ^ 53 * unit q := by
      rw [zpow_add₀ (by norm_num), unit]
      norm_num

/-- The rounding errs by at most half a unit. -/
theorem abs_nearest_sub_le (q : ℚ) : |nearest q - q| ≤ unit q / 2 := by
  have hunit := unit_pos q
  have hq : nearest q - q = (roundEven (q / unit q) - q / unit q) * unit q := by
    rw [nearest, sub_mul, div_mul_cancel₀ _ hunit.ne']
  rw [hq, abs_mul, abs_of_pos hunit]
  have := mul_le_mul_of_nonneg_right (abs_roundEven_sub_le (q / unit q)) hunit.le
  linarith

/-- A multiple of the unit bounds the rounding of what it bounds. -/
theorem nearest_le_of_le {q : ℚ} {m : ℤ} (h : q ≤ m * unit q) : nearest q ≤ m * unit q := by
  have hdiv : q / unit q ≤ m := (div_le_iff₀ (unit_pos q)).mpr h
  have hround : roundEven (q / unit q) ≤ m := by simpa using roundEven_mono hdiv
  exact mul_le_mul_of_nonneg_right (by exact_mod_cast hround) (unit_pos q).le

theorem le_nearest_of_le {q : ℚ} {m : ℤ} (h : m * unit q ≤ q) : m * unit q ≤ nearest q := by
  have hdiv : (m : ℚ) ≤ q / unit q := (le_div_iff₀ (unit_pos q)).mpr h
  have hround : m ≤ roundEven (q / unit q) := by simpa using roundEven_mono hdiv
  exact mul_le_mul_of_nonneg_right (by exact_mod_cast hround) (unit_pos q).le

/-- A multiple of the unit is its own rounding. -/
theorem nearest_of_multiple {q : ℚ} {m : ℤ} (h : q = m * unit q) : nearest q = q :=
  le_antisymm ((nearest_le_of_le h.le).trans h.ge) (h.le.trans (le_nearest_of_le h.ge))

theorem unitExponent_le {q : ℚ} {e : ℤ} (he : -1074 ≤ e) (h : |q| < 2 ^ (53 + e)) :
    unitExponent q ≤ e := by
  rcases eq_or_ne q 0 with rfl | hq
  · rwa [unitExponent_zero]
  · have hlog : Int.log 2 |q| < 53 + e :=
      (Int.lt_zpow_iff_log_lt (by norm_num) (abs_pos.mpr hq)).mp (by exact_mod_cast h)
    rw [unitExponent_of_ne hq]
    exact max_le (by omega) he

/-- A multiple of a power of two is one of any lower power. -/
theorem multiple_of_le {m e e' : ℤ} (h : e' ≤ e) :
    (m : ℚ) * 2 ^ e = (m * 2 ^ (e - e').toNat : ℤ) * 2 ^ e' := by
  have hsplit : (2 : ℚ) ^ e = 2 ^ (e - e').toNat * 2 ^ e' := by
    rw [← zpow_natCast, ← zpow_add₀ (by norm_num), Int.toNat_of_nonneg (by omega),
      sub_add_cancel]
  rw [hsplit]
  push_cast
  ring

/-- **Up to 53 binary digits are kept.** -/
theorem nearest_dyadic {m e : ℤ} (hm : |m| ≤ 2 ^ 53) (he : -1074 ≤ e) :
    nearest (m * 2 ^ e) = m * 2 ^ e := by
  have hkeep : ∀ {m e : ℤ}, |m| < 2 ^ 53 → -1074 ≤ e →
      nearest (m * 2 ^ e) = m * 2 ^ e := by
    intro m e hm he
    have habs : |(m : ℚ) * 2 ^ e| < 2 ^ (53 + e) := by
      rw [abs_mul, abs_of_pos (zpow_pos (by norm_num : (0 : ℚ) < 2) e),
        zpow_add₀ (by norm_num)]
      exact mul_lt_mul_of_pos_right (by exact_mod_cast hm) (zpow_pos (by norm_num) _)
    exact nearest_of_multiple (multiple_of_le (unitExponent_le he habs))
  rcases hm.lt_or_eq with hlt | heq
  · exact hkeep hlt he
  · -- The one number with 54 digits is a shorter one of the next power.
    obtain ⟨m', rfl, hm'⟩ : ∃ m' : ℤ, m = m' * 2 ∧ |m'| < 2 ^ 53 := by
      rcases abs_choice m with h | h
      · exact ⟨2 ^ 52, by omega, by norm_num⟩
      · exact ⟨-2 ^ 52, by omega, by norm_num⟩
    have hpow : ((m' * 2 : ℤ) : ℚ) * 2 ^ e = m' * 2 ^ (e + 1) := by
      rw [zpow_add₀ (by norm_num)]
      push_cast
      ring
    rw [hpow]
    exact hkeep hm' (by omega)

theorem abs_roundEven_le (q : ℚ) : |roundEven (q / unit q)| ≤ 2 ^ 53 := by
  have habs : |q / unit q| ≤ 2 ^ 53 := by
    rw [abs_div, abs_of_pos (unit_pos q), div_le_iff₀ (unit_pos q)]
    exact (abs_lt_unit q).le
  rw [abs_le] at habs ⊢
  have hpow : ((2 ^ 53 : ℤ) : ℚ) = 2 ^ 53 := by push_cast; rfl
  rw [← hpow] at habs
  have hlow := roundEven_mono ((Int.cast_neg _).trans_le habs.1)
  have hhigh := roundEven_mono habs.2
  rw [roundEven_intCast] at hlow hhigh
  exact ⟨hlow, hhigh⟩

/-- **A rounding is its own rounding.** -/
@[simp] theorem nearest_nearest (q : ℚ) : nearest (nearest q) = nearest q :=
  nearest_dyadic (abs_roundEven_le q) (neg_1074_le_unitExponent q)

@[simp] theorem nearest_zero : nearest 0 = 0 := by
  have := roundEven_intCast 0
  rw [Int.cast_zero] at this
  rw [nearest, zero_div, this, Int.cast_zero, zero_mul]

theorem nearest_nonneg {q : ℚ} (h : 0 ≤ q) : 0 ≤ nearest q :=
  mul_nonneg (by exact_mod_cast roundEven_nonneg (div_nonneg h (unit_pos q).le)) (unit_pos q).le

theorem unitExponent_mono {x y : ℚ} (hx : 0 ≤ x) (h : x ≤ y) :
    unitExponent x ≤ unitExponent y := by
  rcases hx.lt_or_eq with hpos | rfl
  · have hlog : Int.log 2 x ≤ Int.log 2 y := Int.log_mono_right hpos h
    rw [unitExponent_of_ne hpos.ne', unitExponent_of_ne (hpos.trans_le h).ne', abs_of_pos hpos,
      abs_of_pos (hpos.trans_le h)]
    exact max_le_max_right _ (by omega)
  · rw [unitExponent_zero]
    exact neg_1074_le_unitExponent y

/-- **Rounding keeps the order.** -/
theorem nearest_mono {x y : ℚ} (hx : 0 ≤ x) (h : x ≤ y) : nearest x ≤ nearest y := by
  rcases (unitExponent_mono hx h).lt_or_eq with hlt | heq
  · -- A power of two between the two numbers is a multiple of both units.
    have hmin := neg_1074_le_unitExponent x
    have hy : 0 < y := by
      rcases (hx.trans h).lt_or_eq with hpos | rfl
      · exact hpos
      · rw [unitExponent_zero] at hlt
        omega
    have hlog : 52 + unitExponent y = Int.log 2 y := by
      rw [unitExponent_of_ne hy.ne', abs_of_pos hy] at hlt ⊢
      omega
    have hbelow : (2 : ℚ) ^ (52 + unitExponent y) ≤ y := by
      have hpow := Int.zpow_log_le_self (b := 2) (by norm_num) hy
      rw [hlog]
      exact_mod_cast hpow
    have habove : x ≤ 2 ^ (53 + unitExponent x) := by
      refine ((le_abs_self x).trans (abs_lt_unit x).le).trans_eq ?_
      rw [zpow_add₀ (by norm_num), unit]
      norm_num
    have hbetween : (2 : ℚ) ^ (53 + unitExponent x) ≤ 2 ^ (52 + unitExponent y) :=
      zpow_le_zpow_right₀ (by norm_num) (by omega)
    have hsplit : ∀ n : ℕ, ∀ e : ℤ, (2 : ℚ) ^ (n + e) = ((2 ^ n : ℤ) : ℚ) * 2 ^ e := by
      intro n e
      rw [zpow_add₀ (by norm_num), zpow_natCast]
      push_cast
      rfl
    have hx' : nearest x ≤ (2 ^ 53 : ℤ) * unit x :=
      nearest_le_of_le (habove.trans_eq (hsplit 53 _))
    have hy' : (2 ^ 52 : ℤ) * unit y ≤ nearest y :=
      le_nearest_of_le ((hsplit 52 _).symm.trans_le hbelow)
    exact hx'.trans ((hsplit 53 _).symm.trans_le (hbetween.trans ((hsplit 52 _).trans_le hy')))
  · have hunit : unit x = unit y := by rw [unit, unit, heq]
    rw [nearest, nearest, hunit]
    refine mul_le_mul_of_nonneg_right ?_ (unit_pos y).le
    exact_mod_cast roundEven_mono (div_le_div_of_nonneg_right h (unit_pos y).le)

/-- A number that is not too small errs by no more than its `2 ^ 53`rd part. -/
theorem abs_nearest_sub_le_of_normal {q : ℚ} (h : 2 ^ (-1022 : ℤ) ≤ q) :
    |nearest q - q| ≤ q / 2 ^ 53 := by
  have hq : 0 < q := (zpow_pos (by norm_num) _).trans_le h
  have hlog : -1022 ≤ Int.log 2 q :=
    (Int.zpow_le_iff_le_log (by norm_num) hq).mp (by exact_mod_cast h)
  have hunit : unitExponent q = Int.log 2 q - 52 := by
    rw [unitExponent_of_ne hq.ne', abs_of_pos hq]
    omega
  have hle : unit q ≤ q / 2 ^ 52 := by
    have hpow : ((2 : ℕ) : ℚ) ^ Int.log 2 q ≤ q := Int.zpow_log_le_self (by norm_num) hq
    rw [unit, hunit, zpow_sub₀ (by norm_num)]
    exact div_le_div_of_nonneg_right (by exact_mod_cast hpow) (by norm_num)
  have := abs_nearest_sub_le q
  linarith

/-- **Rounding keeps two numbers apart** that are not too small nor too close. -/
theorem nearest_lt_nearest {x y : ℚ} (hx : 2 ^ (-1022 : ℤ) ≤ x)
    (h : x * (1 + 1 / 2 ^ 53) < y * (1 - 1 / 2 ^ 53)) : nearest x < nearest y := by
  have hpos : 0 < x := (zpow_pos (by norm_num) _).trans_le hx
  have hy : 2 ^ (-1022 : ℤ) ≤ y := by
    refine hx.trans ?_
    by_contra hlt
    nlinarith [not_le.mp hlt]
  have hx' := (abs_le.mp (abs_nearest_sub_le_of_normal hx)).2
  have hy' := (abs_le.mp (abs_nearest_sub_le_of_normal hy)).1
  linarith

/-! ### The numbers -/

/-- The rational is the value of a finite double. -/
structure IsDouble (q : ℚ) : Prop where
  nearest_eq : nearest q = q
  abs_lt : |q| < 2 ^ 1024

instance decidableIsDouble : DecidablePred IsDouble := fun q =>
  decidable_of_iff (nearest q = q ∧ |q| < 2 ^ 1024)
    ⟨fun h => ⟨h.1, h.2⟩, fun h => ⟨h.nearest_eq, h.abs_lt⟩⟩

/-- A `float`. -/
inductive Float64
  | finite (q : ℚ) (h : IsDouble q)
  | negZero
  | inf
  | negInf
  | nan
  deriving DecidableEq

/-- The rationals with two infinities. -/
abbrev Extended := WithBot (WithTop ℚ)

namespace Float64

/-- The sign bit; NaN has none here. -/
def isNegative : Float64 → Bool
  | finite q _ => q < 0
  | negZero => true
  | negInf => true
  | _ => false

/-- The value of a finite number. -/
def toRat? : Float64 → Option ℚ
  | finite q _ => some q
  | negZero => some 0
  | _ => none

/-- What comparisons see. -/
def value : Float64 → Option Extended
  | finite q _ => some (q : WithTop ℚ)
  | negZero => some (0 : WithTop ℚ)
  | inf => some (⊤ : WithTop ℚ)
  | negInf => some ⊥
  | nan => none

/-! ### Operations -/

def infinite (negative : Bool) : Float64 := if negative then negInf else inf

/-- A rational rounded to a number, with the sign that a zero or an infinity takes. -/
def rounded (negative : Bool) (q : ℚ) : Float64 :=
  if h : |nearest q| < 2 ^ 1024 then
    if nearest q = 0 ∧ negative then negZero else finite (nearest q) ⟨nearest_nearest q, h⟩
  else infinite negative

/-- A literal, or the result of one exact operation. -/
def ofRat (q : ℚ) : Float64 := rounded (q < 0) q

/-- A double is kept. -/
theorem ofRat_of_isDouble {q : ℚ} (hq : IsDouble q) : ofRat q = finite q hq := by
  have hlt : |nearest q| < 2 ^ 1024 := hq.nearest_eq.symm ▸ hq.abs_lt
  unfold ofRat rounded
  split_ifs with h
  · rw [hq.nearest_eq] at h
    exact absurd h.1 (of_decide_eq_true h.2).ne
  · congr 1
    exact hq.nearest_eq

/-- An integer that can be converted; the conversion of any other overflows. -/
def fits (n : ℤ) : Bool := |nearest n| < 2 ^ 1024

/-- `m / n` of integers, rounded once; `none` where it overflows. -/
def quotient (m n : ℤ) : Option Float64 :=
  if |nearest (m / n)| < 2 ^ 1024 then some (ofRat (m / n)) else none

/-- `x + y`. -/
def add : Float64 → Float64 → Float64
  | nan, _ => nan
  | _, nan => nan
  | inf, negInf => nan
  | negInf, inf => nan
  | inf, _ => inf
  | _, inf => inf
  | negInf, _ => negInf
  | _, negInf => negInf
  | negZero, y => y
  | x, negZero => x
  | finite p _, finite q _ => ofRat (p + q)

/-- `x * y`. -/
def mul (x y : Float64) : Float64 :=
  let negative := x.isNegative != y.isNegative
  if x = nan ∨ y = nan then nan
  else
    match x.toRat?, y.toRat? with
    | some p, some q => rounded negative (p * q)
    | none, none => infinite negative
    | some p, none => if p = 0 then nan else infinite negative
    | none, some q => if q = 0 then nan else infinite negative

/-- `x or 0.0`, where `x` may be `None`. -/
def orZero : Option Float64 → Float64
  | none => ofRat 0
  | some x => if x.value = some 0 then ofRat 0 else x

/-- `x / n` for an integer that is not zero and can be converted. -/
def dividedBy (x : Float64) (n : ℤ) : Float64 :=
  match x with
  | finite q _ => rounded (decide (q < 0) != decide (n < 0)) (q / nearest n)
  | negZero => rounded (0 < n) 0
  | inf => infinite (n < 0)
  | negInf => infinite (0 < n)
  | nan => nan

/-- `round(x, digits)`: to the nearest decimal, and that to the nearest double. -/
def round (x : Float64) (digits : ℕ) : Float64 :=
  match x with
  | finite q _ => rounded (q < 0) (roundEven (q * 10 ^ digits) / 10 ^ digits)
  | x => x

/-! ### Numbers that are not negative -/

/-- The value, with NaN below all. -/
def num (x : Float64) : Extended := x.value.getD ⊥

/-- `0 <= x`. -/
def Nonneg (x : Float64) : Prop := 0 ≤ x.num

theorem Nonneg.isSome {x : Float64} (h : x.Nonneg) : x.value.isSome := by
  cases hvalue : x.value with
  | some a => rfl
  | none =>
      rw [Nonneg, num, hvalue] at h
      exact absurd h (WithBot.not_coe_le_bot _)

/-- The value of a rational that is rounded. -/
def roundedValue (q : ℚ) : Extended :=
  if nearest q < 2 ^ 1024 then ((nearest q : ℚ) : WithTop ℚ) else (⊤ : WithTop ℚ)

theorem num_rounded {q : ℚ} (h : 0 ≤ q) {negative : Bool} (hnegative : negative → q = 0) :
    (rounded negative q).num = roundedValue q := by
  have habs : |nearest q| = nearest q := abs_of_nonneg (nearest_nonneg h)
  by_cases hlt : |nearest q| < 2 ^ 1024
  · have hvalue : roundedValue q = ((nearest q : ℚ) : WithTop ℚ) := if_pos (habs ▸ hlt)
    rw [hvalue, rounded, dif_pos hlt]
    split_ifs with hzero
    · rw [hzero.1]
      rfl
    · rfl
  · have hsign : negative = false := by
      by_contra htrue
      rw [hnegative (Bool.eq_true_of_not_eq_false htrue), nearest_zero, abs_zero] at hlt
      exact hlt (by positivity)
    have hvalue : roundedValue q = (⊤ : WithTop ℚ) := if_neg (habs ▸ hlt)
    rw [hvalue, rounded, dif_neg hlt, hsign]
    rfl

theorem roundedValue_mono {p q : ℚ} (hp : 0 ≤ p) (h : p ≤ q) : roundedValue p ≤ roundedValue q := by
  have hle := nearest_mono hp h
  rw [roundedValue, roundedValue]
  split_ifs with hlt hlt' hlt'
  · exact WithBot.coe_le_coe.mpr (WithTop.coe_le_coe.mpr hle)
  · exact WithBot.coe_le_coe.mpr le_top
  · exact absurd (hle.trans_lt hlt') hlt
  · exact le_rfl

theorem roundedValue_nonneg {q : ℚ} (h : 0 ≤ q) : 0 ≤ roundedValue q := by
  have hle := roundedValue_mono le_rfl h
  rwa [roundedValue, nearest_zero, if_pos (by positivity)] at hle

/-- A number that is not negative is a rational that is not, or infinity. -/
theorem Nonneg.cases {x : Float64} (h : x.Nonneg) :
    (∃ q, 0 ≤ q ∧ x.toRat? = some q) ∨ x = inf := by
  cases x with
  | finite q hq => exact Or.inl ⟨q, WithTop.coe_le_coe.mp (WithBot.coe_le_coe.mp h), rfl⟩
  | negZero => exact Or.inl ⟨0, le_rfl, rfl⟩
  | inf => exact Or.inr rfl
  | negInf => exact absurd h (WithBot.not_coe_le_bot _)
  | nan => exact absurd h (WithBot.not_coe_le_bot _)

/-- The value of a finite number is a double. -/
theorem roundedValue_toRat {x : Float64} {q : ℚ} (h : x.toRat? = some q) :
    x.num = roundedValue q ∧ x.num = ((q : ℚ) : WithTop ℚ) := by
  cases x with
  | finite p hp =>
      obtain rfl := Option.some.inj h
      refine ⟨?_, rfl⟩
      rw [roundedValue, hp.nearest_eq, if_pos ((le_abs_self p).trans_lt hp.abs_lt)]
      rfl
  | negZero =>
      obtain rfl := Option.some.inj h
      refine ⟨?_, rfl⟩
      rw [roundedValue, nearest_zero, if_pos (by positivity)]
      rfl
  | inf => cases h
  | negInf => cases h
  | nan => cases h

theorem toRat_of_num {x : Float64} {q : ℚ} (h : x.num = ((q : ℚ) : WithTop ℚ)) :
    x.toRat? = some q := by
  cases x with
  | finite p hp => exact congrArg some (WithTop.coe_inj.mp (WithBot.coe_inj.mp h))
  | negZero => exact congrArg some (WithTop.coe_inj.mp (WithBot.coe_inj.mp h))
  | inf => exact absurd (WithBot.coe_inj.mp h) WithTop.top_ne_coe
  | negInf => exact absurd h WithBot.bot_ne_coe
  | nan => exact absurd h WithBot.bot_ne_coe

/-- Less than some finite number remains finite. -/
theorem nearest_lt_of_le {x : Float64} {p q : ℚ} (hx : x.toRat? = some p) (hq : 0 ≤ q)
    (h : q ≤ p) : nearest q < 2 ^ 1024 := by
  refine (nearest_mono hq h).trans_lt ?_
  cases x with
  | finite r hr =>
      obtain rfl := Option.some.inj hx
      exact hr.nearest_eq.trans_lt ((le_abs_self r).trans_lt hr.abs_lt)
  | negZero =>
      obtain rfl := Option.some.inj hx
      rw [nearest_zero]
      positivity
  | inf => cases hx
  | negInf => cases hx
  | nan => cases hx

theorem roundedValue_lt {p q : ℚ} (h : nearest p < nearest q) (hp : nearest p < 2 ^ 1024) :
    roundedValue p < roundedValue q := by
  rw [roundedValue, roundedValue, if_pos hp]
  split_ifs
  · exact WithBot.coe_lt_coe.mpr (WithTop.coe_lt_coe.mpr h)
  · exact WithBot.coe_lt_coe.mpr (WithTop.coe_lt_top _)

theorem Nonneg.of_toRat {x : Float64} {q : ℚ} (h : x.toRat? = some q) (hq : 0 ≤ q) : x.Nonneg := by
  rw [Nonneg, (roundedValue_toRat h).1]
  exact roundedValue_nonneg hq

theorem num_le_inf (x : Float64) : x.num ≤ inf.num := by
  cases x with
  | finite q hq => exact WithBot.coe_le_coe.mpr le_top
  | negZero => exact WithBot.coe_le_coe.mpr le_top
  | inf => exact le_rfl
  | negInf => exact bot_le
  | nan => exact bot_le

/-- **A sum of two finite numbers.** -/
theorem num_add {x y : Float64} {p q : ℚ} (hx : x.toRat? = some p) (hy : y.toRat? = some q)
    (hp : 0 ≤ p) (hq : 0 ≤ q) : (add x y).num = roundedValue (p + q) := by
  have hzero : ∀ {z : Float64} {r : ℚ}, z.toRat? = some r → z.num = roundedValue r :=
    fun h => (roundedValue_toRat h).1
  cases x with
  | finite p' _ =>
      obtain rfl := Option.some.inj hx
      cases y with
      | finite q' _ =>
          obtain rfl := Option.some.inj hy
          refine num_rounded (add_nonneg hp hq) fun hneg => ?_
          exact absurd (of_decide_eq_true hneg) (add_nonneg hp hq).not_gt
      | negZero =>
          obtain rfl := Option.some.inj hy
          rw [add_zero]
          exact hzero hx
      | inf => cases hy
      | negInf => cases hy
      | nan => cases hy
  | negZero =>
      obtain rfl := Option.some.inj hx
      rw [zero_add]
      cases y with
      | finite q' _ => exact hzero hy
      | negZero => exact hzero hy
      | inf => cases hy
      | negInf => cases hy
      | nan => cases hy
  | inf => cases hx
  | negInf => cases hx
  | nan => cases hx

theorem inf_add {y : Float64} (h : y.Nonneg) : add inf y = inf := by
  cases y with
  | finite q hq => rfl
  | negZero => rfl
  | inf => rfl
  | negInf => exact absurd h (WithBot.not_coe_le_bot _)
  | nan => exact absurd h (WithBot.not_coe_le_bot _)

theorem add_inf {x : Float64} (h : x.Nonneg) : add x inf = inf := by
  cases x with
  | finite q hq => rfl
  | negZero => rfl
  | inf => rfl
  | negInf => exact absurd h (WithBot.not_coe_le_bot _)
  | nan => exact absurd h (WithBot.not_coe_le_bot _)

/-- **A sum grows with both numbers.** -/
theorem num_add_mono {x x' y y' : Float64} (hx : x.Nonneg) (hy : y.Nonneg) (h : x.num ≤ x'.num)
    (h' : y.num ≤ y'.num) : (add x y).num ≤ (add x' y').num := by
  have hx' : x'.Nonneg := hx.trans h
  have hy' : y'.Nonneg := hy.trans h'
  rcases hx'.cases with ⟨p', hp', hx'⟩ | rfl
  · rcases hy'.cases with ⟨q', hq', hy'⟩ | rfl
    · rw [(roundedValue_toRat hx').2] at h
      rw [(roundedValue_toRat hy').2] at h'
      rcases hx.cases with ⟨p, hp, hx⟩ | rfl
      · rcases hy.cases with ⟨q, hq, hy⟩ | rfl
        · rw [(roundedValue_toRat hx).2] at h
          rw [(roundedValue_toRat hy).2] at h'
          rw [num_add hx hy hp hq, num_add hx' hy' hp' hq']
          exact roundedValue_mono (add_nonneg hp hq)
            (add_le_add (WithTop.coe_le_coe.mp (WithBot.coe_le_coe.mp h))
              (WithTop.coe_le_coe.mp (WithBot.coe_le_coe.mp h')))
        · exact absurd (WithBot.coe_le_coe.mp h') (by simp)
      · exact absurd (WithBot.coe_le_coe.mp h) (by simp)
    · rw [add_inf (.of_toRat hx' hp')]
      exact num_le_inf _
  · rw [inf_add hy']
    exact num_le_inf _

theorem Nonneg.add {x y : Float64} (hx : x.Nonneg) (hy : y.Nonneg) : (add x y).Nonneg := by
  have hzero : negZero.Nonneg := le_rfl
  exact (num_add_mono hzero hzero hx hy)

/-- **A quotient of a finite number.** -/
theorem num_dividedBy {x : Float64} {p : ℚ} (hx : x.toRat? = some p) (hp : 0 ≤ p) {n : ℤ} (hn : 0 < n) :
    (dividedBy x n).num = roundedValue (p / nearest n) := by
  have hn' : (0 : ℚ) ≤ nearest n := nearest_nonneg (by exact_mod_cast hn.le)
  have hnneg : decide (n < 0) = false := decide_eq_false hn.not_gt
  cases x with
  | finite q hq =>
      obtain rfl := Option.some.inj hx
      refine num_rounded (div_nonneg hp hn') fun hneg => ?_
      rw [hnneg, decide_eq_false hp.not_gt] at hneg
      exact absurd hneg (by decide)
  | negZero =>
      obtain rfl := Option.some.inj hx
      rw [zero_div]
      exact num_rounded le_rfl fun _ => rfl
  | inf => cases hx
  | negInf => cases hx
  | nan => cases hx

theorem inf_dividedBy {n : ℤ} (hn : 0 < n) : dividedBy inf n = inf := by
  rw [dividedBy, decide_eq_false hn.not_gt]
  rfl

theorem nearest_pos {n : ℤ} (hn : 0 < n) : 0 < nearest n := by
  have hone : nearest 1 = 1 := by decide +kernel
  have hle : nearest 1 ≤ nearest n := nearest_mono zero_le_one (by exact_mod_cast hn)
  rw [hone] at hle
  exact zero_lt_one.trans_le hle

/-- **A quotient falls with its divisor.** -/
theorem num_dividedBy_anti {x : Float64} (hx : x.Nonneg) {m n : ℤ} (hm : 0 < m) (h : m ≤ n) :
    (dividedBy x n).num ≤ (dividedBy x m).num := by
  rcases hx.cases with ⟨p, hp, hx⟩ | rfl
  · rw [num_dividedBy hx hp hm, num_dividedBy hx hp (hm.trans_le h)]
    refine roundedValue_mono (div_nonneg hp (nearest_pos (hm.trans_le h)).le) ?_
    exact div_le_div_of_nonneg_left hp (nearest_pos hm)
      (nearest_mono (by exact_mod_cast hm.le) (by exact_mod_cast h))
  · rw [inf_dividedBy hm]
    exact num_le_inf _

theorem Nonneg.dividedBy {x : Float64} (hx : x.Nonneg) {n : ℤ} (hn : 0 < n) : (dividedBy x n).Nonneg := by
  rcases hx.cases with ⟨p, hp, hx⟩ | rfl
  · rw [Nonneg, num_dividedBy hx hp hn]
    exact roundedValue_nonneg (div_nonneg hp (nearest_pos hn).le)
  · rw [inf_dividedBy hn]
    exact hx

/-- Integers of up to 53 digits are kept. -/
theorem nearest_intCast {n : ℤ} (h : |n| ≤ 2 ^ 53) : nearest n = n := by
  have hdyadic : nearest ((n : ℚ) * 2 ^ (0 : ℤ)) = n * 2 ^ (0 : ℤ) :=
    nearest_dyadic h (by norm_num)
  rwa [zpow_zero, mul_one] at hdyadic

theorem fits_of_le {n : ℤ} (h0 : 0 ≤ n) (h : n ≤ 2 ^ 51) : fits n = true := by
  have habs : |(n : ℚ)| = n := abs_of_nonneg (by exact_mod_cast h0)
  have hle : (n : ℚ) ≤ 2 ^ 51 := by exact_mod_cast h
  rw [fits, nearest_intCast (by rw [abs_of_nonneg h0]; omega), decide_eq_true_eq, habs]
  exact hle.trans_lt (pow_lt_pow_right₀ (by norm_num) (by norm_num))

/-- **It falls strictly** where neither the divisor nor the quotient is extreme. -/
theorem num_dividedBy_lt {x : Float64} {p : ℚ} (hx : x.toRat? = some p) {m n : ℤ} (hm : 0 < m)
    (hmn : m < n) (hn : n ≤ 2 ^ 51) (hp : n * 2 ^ (-1022 : ℤ) ≤ p) :
    (dividedBy x n).num < (dividedBy x m).num := by
  have hkept : ∀ i : ℤ, 0 < i → i ≤ 2 ^ 51 → nearest i = i := fun i hi hle =>
    nearest_intCast (by rw [abs_of_pos hi]; omega)
  have hn0 : 0 < n := hm.trans hmn
  have hm' : (0 : ℚ) < m := by exact_mod_cast hm
  have hn' : (0 : ℚ) < n := by exact_mod_cast hn0
  have hp0 : 0 < p := (mul_pos hn' (zpow_pos (by norm_num) _)).trans_le hp
  have hlt : nearest (p / n) < nearest (p / m) := by
    refine nearest_lt_nearest ((le_div_iff₀ hn').mpr (by linarith)) ?_
    -- Successive quotients differ by more than twice the error of a rounding.
    have hmn' : (m : ℚ) + 1 ≤ n := by exact_mod_cast hmn
    have hnbig : (n : ℚ) ≤ 2 ^ 51 := by exact_mod_cast hn
    rw [div_mul_eq_mul_div, div_mul_eq_mul_div, div_lt_div_iff₀ hn' hm', mul_assoc, mul_assoc]
    refine mul_lt_mul_of_pos_left ?_ hp0
    linarith
  have hbound : nearest (p / n) < 2 ^ 1024 :=
    nearest_lt_of_le hx (div_nonneg hp0.le hn'.le) (div_le_self hp0.le (by exact_mod_cast hn0))
  rw [num_dividedBy hx hp0.le hm, num_dividedBy hx hp0.le hn0, hkept m hm (hmn.le.trans hn), hkept n hn0 hn]
  exact roundedValue_lt hlt hbound

/-- Zero adds nothing to what comparisons see. -/
theorem value_zero_add (x : Float64) : (add (ofRat 0) x).value = x.value := by
  rw [ofRat_of_isDouble ⟨nearest_zero, by norm_num⟩]
  cases x with
  | finite q hq =>
      show (ofRat (0 + q)).value = _
      rw [zero_add, ofRat_of_isDouble hq]
  | negZero => rfl
  | inf => rfl
  | negInf => rfl
  | nan => rfl

end Float64
end Data
end EvidenceLab
