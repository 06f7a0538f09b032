/-
# UUIDs and their text

A `UUID` is a number of 128 bits, and `str` writes it as 32 hexadecimal digits
in five groups.  Two UUIDs are equal when their texts are (`str_injective`): the
digits can be read back, and the hyphens are no digits.
-/

import EvidenceLab.Text.Unicode

namespace EvidenceLab
namespace Data

open Text

/-- A `UUID`. -/
abbrev Uuid := Fin (2 ^ 128)

instance neZero_uuid : NeZero (2 ^ 128) := ⟨by decide⟩

instance lawfulBEq_uuid : LawfulBEq Uuid := inferInstance

/-- The hexadecimal digit of value `d`, in lower case. -/
def hexDigit (d : ℕ) : CodePoint := Fin.ofNat _ (if d < 10 then 0x30 + d else 0x57 + d)

def hyphen : CodePoint := 0x2D

/-- The last `n` hexadecimal digits of a number, most significant first. -/
def hex : ℕ → ℕ → Str
  | 0, _ => []
  | n + 1, v => hex n (v / 16) ++ [hexDigit (v % 16)]

/-- `str(uuid)`. -/
def Uuid.str (u : Uuid) : Str :=
  let h := hex 32 u.val
  h.take 8 ++ hyphen :: (h.drop 8).take 4 ++ hyphen :: (h.drop 12).take 4 ++
    hyphen :: (h.drop 16).take 4 ++ hyphen :: h.drop 20

theorem hexDigit_injective : ∀ d < 16, ∀ e < 16, hexDigit d = hexDigit e → d = e := by decide

theorem hexDigit_ne_hyphen : ∀ d < 16, hexDigit d ≠ hyphen := by decide

theorem length_hex (n v : ℕ) : (hex n v).length = n := by
  induction n generalizing v with
  | zero => rfl
  | succ n ih => rw [hex, List.length_append, ih, List.length_singleton]

theorem hex_ne_hyphen (n v : ℕ) : ∀ x ∈ hex n v, x ≠ hyphen := by
  induction n generalizing v with
  | zero => exact fun x hx => absurd hx List.not_mem_nil
  | succ n ih =>
      intro x hx
      rcases List.mem_append.mp hx with hx | hx
      · exact ih _ x hx
      · rw [List.mem_singleton.mp hx]
        exact hexDigit_ne_hyphen _ (Nat.mod_lt _ (by decide))

/-- Numbers of `n` hexadecimal digits are read back from them. -/
theorem hex_injective {n v w : ℕ} (hv : v < 16 ^ n) (hw : w < 16 ^ n) (h : hex n v = hex n w) :
    v = w := by
  induction n generalizing v w with
  | zero => rw [Nat.pow_zero, Nat.lt_one_iff] at hv hw; rw [hv, hw]
  | succ n ih =>
      obtain ⟨hdiv, hmod⟩ := List.append_inj h (by rw [length_hex, length_hex])
      rw [Nat.pow_succ] at hv hw
      have h₁ : v / 16 = w / 16 := ih (by omega) (by omega) hdiv
      have h₂ : v % 16 = w % 16 := hexDigit_injective _ (Nat.mod_lt _ (by decide)) _
        (Nat.mod_lt _ (by decide)) (List.singleton_inj.mp hmod)
      omega

theorem filter_hex (n v : ℕ) : (hex n v).filter (· ≠ hyphen) = hex n v :=
  List.filter_eq_self.mpr fun x hx => decide_eq_true (hex_ne_hyphen n v x hx)

/-- Without its hyphens, the text of a UUID is its digits. -/
theorem filter_str (u : Uuid) : u.str.filter (· ≠ hyphen) = hex 32 u.val := by
  set h := hex 32 u.val with hh
  have hcut : h = h.take 8 ++ (h.drop 8).take 4 ++ (h.drop 12).take 4 ++ (h.drop 16).take 4 ++
      h.drop 20 := by
    conv_lhs => rw [← List.take_append_drop 8 h, ← List.take_append_drop 4 (h.drop 8),
      List.drop_drop, ← List.take_append_drop 4 (h.drop 12), List.drop_drop,
      ← List.take_append_drop 4 (h.drop 16), List.drop_drop]
    simp only [List.append_assoc]
  have hf := filter_hex 32 u.val
  rw [← hh, hcut] at hf
  simp only [List.filter_append] at hf
  rw [hcut, ← hf, Uuid.str, ← hh]
  simp [List.filter_append]

/-- **A UUID is determined by its text.** -/
theorem Uuid.str_injective : Function.Injective Uuid.str := by
  intro u v h
  have hhex : hex 32 u.val = hex 32 v.val := by rw [← filter_str, ← filter_str, h]
  have hlt : ∀ u : Uuid, u.val < 16 ^ 32 := fun u => u.isLt.trans_eq (by decide)
  exact Fin.ext (hex_injective (hlt u) (hlt v) hhex)

end Data
end EvidenceLab
