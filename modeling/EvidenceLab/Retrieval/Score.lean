/-
# The arithmetic of scores

The retrievers compute their scores in `float`, and what a fusion is for is said over exact
rationals.  `Score` is what the fusion needs of either: literals, sums, quotients by an integer,
which is converted first, and the value that comparisons see.  Over the rationals every integer
is converted and nothing is rounded; doubles are rounded after each step, the greatest integers
overflow, and NaN compares with nothing.
-/

import EvidenceLab.Data.Float64
import EvidenceLab.Data.Uuid
import Mathlib.Algebra.BigOperators.Group.List.Basic

namespace EvidenceLab
namespace Retrieval

open Data

/-- The numbers that scores are. -/
class Score (S : Type) where
  /-- A literal. -/
  ofRat : ℚ → S
  add : S → S → S
  /-- `x / n` for an integer that is not zero. -/
  dividedBy : S → ℤ → S
  /-- The integer can be converted; the quotient by any other raises `OverflowError`. -/
  fits : ℤ → Bool
  /-- What comparisons see; nothing of NaN. -/
  value : S → Option Extended

instance exactScore : Score ℚ where
  ofRat q := q
  add x y := x + y
  dividedBy x n := x / n
  fits _ := true
  value q := some (q : WithTop ℚ)

instance floatScore : Score Float64 where
  ofRat := Float64.ofRat
  add := Float64.add
  dividedBy := Float64.dividedBy
  fits := Float64.fits
  value := Float64.value

namespace Score

variable {S : Type} [Score S]

/-- `x < y`. -/
def lt (x y : S) : Bool :=
  match value x, value y with
  | some a, some b => a < b
  | _, _ => false

/-- `x == y`. -/
def eq (x y : S) : Bool :=
  match value x, value y with
  | some a, some b => a = b
  | _, _ => false

/-- The value, with NaN below all. -/
def num (x : S) : Extended := (value x).getD ⊥

/-- Numbers added up from `0.0`. -/
def total (xs : List S) : S := xs.foldl add (ofRat 0)

/-- What a position in a ranking is worth: `weight / (k + position + 1)`. -/
def share (k : ℤ) (weight : S) (position : ℕ) : S := dividedBy weight (k + position + 1)

/-! ### Exact scores -/

@[simp] theorem num_exact (q : ℚ) : num q = ((q : WithTop ℚ) : Extended) := rfl

theorem num_lt_num {p q : ℚ} : num p < num q ↔ p < q :=
  WithBot.coe_lt_coe.trans WithTop.coe_lt_coe

theorem num_inj {p q : ℚ} : num p = num q ↔ p = q :=
  WithBot.coe_inj.trans WithTop.coe_inj

theorem lt_exact {p q : ℚ} : lt p q = true ↔ p < q := decide_eq_true_iff.trans num_lt_num

theorem eq_exact {p q : ℚ} : eq p q = true ↔ p = q := decide_eq_true_iff.trans num_inj

theorem total_exact (qs : List ℚ) : total qs = qs.sum := List.sum_eq_foldl.symm

theorem share_exact (k : ℤ) (w : ℚ) (p : ℕ) : share k w p = w / ((k : ℚ) + p + 1) := by
  show w / ((k + p + 1 : ℤ) : ℚ) = _
  push_cast
  rfl

/-! ### Scores that are doubles -/

section Doubles

variable {k : ℤ} {w x : Float64} {xs : List Float64}

theorem num_zero : num (ofRat 0 : Float64) = 0 := by
  show (Float64.ofRat 0).num = 0
  rw [Float64.ofRat_of_isDouble ⟨nearest_zero, by norm_num⟩]
  rfl

theorem nonneg_zero : (ofRat 0 : Float64).Nonneg := num_zero.ge

theorem nonneg_total (h : ∀ x ∈ xs, x.Nonneg) : (total xs).Nonneg := by
  refine List.foldlRecOn xs _ nonneg_zero ?_
  intro sum hsum x hx
  exact hsum.add (h x hx)

theorem nonneg_share (hk : 0 < k) (hw : w.Nonneg) (p : ℕ) : (share k w p).Nonneg :=
  hw.dividedBy (by omega)

/-- A score of one share compares as the share does. -/
theorem value_total_singleton (x : Float64) : value (total [x]) = value x :=
  Float64.value_zero_add x

theorem num_total_singleton (x : Float64) : num (total [x]) = num x :=
  congrArg (Option.getD · ⊥) (value_total_singleton x)

/-- Numbers added to more make more. -/
theorem num_foldl_mono (h : ∀ x ∈ xs, x.Nonneg) {sum sum' : Float64} (hsum : sum.Nonneg)
    (hle : num sum ≤ num sum') : num (xs.foldl add sum) ≤ num (xs.foldl add sum') := by
  induction xs generalizing sum sum' with
  | nil => exact hle
  | cons x xs ih =>
      have hx := h x List.mem_cons_self
      exact ih (fun y hy => h y (List.mem_cons_of_mem x hy)) (hsum.add hx)
        (Float64.num_add_mono hsum hx hle le_rfl)

/-- What a share of a finite weight is. -/
theorem num_share {r : ℚ} (hk : 0 < k) (hw : w.toRat? = some r) (hr : 0 ≤ r) (p : ℕ) :
    num (share k w p) = Float64.roundedValue (r / nearest ((k + p + 1 : ℤ) : ℚ)) :=
  Float64.num_dividedBy hw hr (by omega)

/-- A later position is worth no more. -/
theorem num_share_anti (hk : 0 < k) (hw : w.Nonneg) {p q : ℕ} (h : p ≤ q) :
    num (share k w q) ≤ num (share k w p) :=
  Float64.num_dividedBy_anti hw (by omega) (by omega)

end Doubles

end Score

/-! ### The order of a fusion -/

/-- The order of the output: descending score, ties by the text of the id. -/
def Before {L : Type} [LT L] (a b : Uuid × L) : Prop := b.2 < a.2 ∨ (a.2 = b.2 ∧ a.1.str < b.1.str)

instance decidableBefore {L : Type} [LT L] [DecidableLT L] [DecidableEq L] (a b : Uuid × L) :
    Decidable (Before a b) :=
  inferInstanceAs (Decidable (_ ∨ _ ∧ _))

section Before

variable {L : Type} [LinearOrder L]

/-- `Before` is strict. -/
theorem Before.asymm {a b : Uuid × L} (h : Before a b) (h' : Before b a) : a = b := by
  rcases h with h | ⟨h, hs⟩ <;> rcases h' with h' | ⟨h', hs'⟩
  · exact absurd h h'.asymm
  · exact absurd h (h' ▸ lt_irrefl _)
  · exact absurd h' (h ▸ lt_irrefl _)
  · exact absurd hs hs'.asymm

theorem Before.irrefl (a : Uuid × L) : ¬ Before a a := by
  rintro (h | ⟨-, h⟩)
  · exact lt_irrefl _ h
  · exact lt_irrefl _ h

theorem not_before {a b : Uuid × L} :
    ¬ Before b a ↔ b.2 < a.2 ∨ (a.2 = b.2 ∧ a.1.str ≤ b.1.str) := by
  rw [Before, not_or, not_and, not_lt, not_lt]
  constructor
  · rintro ⟨hle, hstr⟩
    rcases hle.lt_or_eq with hlt | heq
    · exact Or.inl hlt
    · exact Or.inr ⟨heq.symm, hstr heq⟩
  · rintro (hlt | ⟨heq, hstr⟩)
    · exact ⟨hlt.le, fun heq => absurd hlt (heq ▸ lt_irrefl _)⟩
    · exact ⟨heq.ge, fun _ => hstr⟩

theorem not_before_trans {a b c : Uuid × L} (hab : ¬ Before b a) (hbc : ¬ Before c b) :
    ¬ Before c a := by
  rw [not_before] at *
  rcases hab with hab | ⟨hab, hs⟩ <;> rcases hbc with hbc | ⟨hbc, hs'⟩
  · exact Or.inl (hbc.trans hab)
  · exact Or.inl (hbc ▸ hab)
  · exact Or.inl (hab ▸ hbc)
  · exact Or.inr ⟨hab.trans hbc, hs.trans hs'⟩

theorem not_before_total (a b : Uuid × L) : ¬ Before b a ∨ ¬ Before a b := by
  by_contra h
  rw [not_or, not_not, not_not] at h
  exact Before.irrefl _ (h.1.asymm h.2 ▸ h.1)

/-- Of two chunks one is before the other. -/
theorem before_or_before {x y : Uuid} {s t : L} (hne : x ≠ y) :
    Before (x, s) (y, t) ∨ Before (y, t) (x, s) := by
  rcases lt_trichotomy s t with hlt | rfl | hlt
  · exact Or.inr (Or.inl hlt)
  · rcases lt_or_gt_of_ne fun heq => hne (Uuid.str_injective heq) with hstr | hstr
    · exact Or.inl (Or.inr ⟨rfl, hstr⟩)
    · exact Or.inr (Or.inr ⟨rfl, hstr⟩)
  · exact Or.inl (Or.inl hlt)

/-- The order is kept where the first score rises and the second falls. -/
theorem Before.mono {a b : Uuid} {s s' t t' : L} (h : Before (a, s') (b, t')) (hs : s' ≤ s)
    (ht : t ≤ t') : Before (a, s) (b, t) := by
  rcases h with hlt | ⟨heq, hstr⟩
  · exact Or.inl (ht.trans_lt (hlt.trans_le hs))
  · rcases (ht.trans (heq.ge.trans hs)).lt_or_eq with hlt | heq'
    · exact Or.inl hlt
    · exact Or.inr ⟨heq'.symm, hstr⟩

end Before

theorem before_num {a b : Uuid} {p q : ℚ} :
    Before (a, Score.num p) (b, Score.num q) ↔ Before (a, p) (b, q) := by
  rw [Before, Before, Score.num_lt_num, Score.num_inj]

end Retrieval
end EvidenceLab
