/-
# Rankings

A list in which nothing occurs twice ranks its members.  One member precedes another where it
stands earlier, and what is not ranked is preceded by all that is (`Precedes`).  In a list
that is sorted by a strict order, precedence is that order (`precedes_iff`).

A ranking promotes a member where that member is moved to an earlier place or put in, and the
others keep their order (`Promotes`): nothing else comes closer to the front
(`Promotes.idxOf_le`).
-/

import EvidenceLab.Data.Prefixes
import Mathlib.Data.List.Nodup
import Mathlib.Data.List.Basic
import Mathlib.Data.List.Perm.Subperm
import Mathlib.Order.Lattice

namespace EvidenceLab
namespace Data

variable {α : Type*} [DecidableEq α]

/-! ### Precedence -/

/-- `y` is in the list and stands before `x`, or `x` is not in the list. -/
def Precedes (xs : List α) (y x : α) : Prop := xs.idxOf y < xs.idxOf x

instance decidablePrecedes (xs : List α) (y x : α) : Decidable (Precedes xs y x) :=
  inferInstanceAs (Decidable (_ < _))

theorem Precedes.mem {xs : List α} {x y : α} (h : Precedes xs y x) : y ∈ xs :=
  List.idxOf_lt_length_iff.mp (Nat.lt_of_lt_of_le h List.idxOf_le_length)

theorem Precedes.ne {xs : List α} {x y : α} (h : Precedes xs y x) : y ≠ x := by
  rintro rfl
  exact lt_irrefl _ h

/-- **Precedence in a sorted list is its order.** -/
theorem precedes_iff {R : α → α → Prop} (hasymm : ∀ a b, R a b → ¬ R b a) {xs : List α}
    (hsorted : xs.Pairwise R) {x y : α} : Precedes xs y x ↔ y ∈ xs ∧ (x ∈ xs → R y x) := by
  have hrel : ∀ a ∈ xs, ∀ b ∈ xs, xs.idxOf a < xs.idxOf b → R a b := by
    intro a ha b hb hlt
    have h := List.pairwise_iff_getElem.mp hsorted _ _ (List.idxOf_lt_length_of_mem ha)
      (List.idxOf_lt_length_of_mem hb) hlt
    rwa [List.getElem_idxOf, List.getElem_idxOf] at h
  constructor
  · intro h
    exact ⟨h.mem, fun hx => hrel y h.mem x hx h⟩
  · rintro ⟨hy, h⟩
    rw [Precedes]
    by_cases hx : x ∈ xs
    · rcases lt_trichotomy (xs.idxOf y) (xs.idxOf x) with hlt | heq | hlt
      · exact hlt
      · obtain rfl := (List.idxOf_inj hy).mp heq
        exact absurd (h hx) (hasymm _ _ (h hx))
      · exact absurd (hrel x hx y hy hlt) (hasymm _ _ (h hx))
    · rw [List.idxOf_of_notMem hx]
      exact List.idxOf_lt_length_of_mem hy

/-- What is among the first precedes what is not. -/
theorem precedes_of_mem_take {xs : List α} {x y : α} {n : ℕ} (hy : y ∈ xs.take n)
    (hx : x ∉ xs.take n) : Precedes xs y x := by
  have hyn := (List.mem_take_iff_idxOf_lt (List.mem_of_mem_take hy)).mp hy
  by_cases hmem : x ∈ xs
  · have hxn := mt (List.mem_take_iff_idxOf_lt hmem).mpr hx
    exact lt_of_lt_of_le hyn (not_lt.mp hxn)
  · rw [Precedes, List.idxOf_of_notMem hmem]
    exact List.idxOf_lt_length_of_mem (List.mem_of_mem_take hy)

/-- Rankings that give the same elements the same positions are the same. -/
theorem eq_of_idxOf_eq {xs ys : List α} (hxs : xs.Nodup) (hys : ys.Nodup)
    (h : ∀ x ∈ xs, x ∈ ys ∧ ys.idxOf x = xs.idxOf x) (hsub : ∀ x ∈ ys, x ∈ xs) : xs = ys := by
  have hperm : xs.Perm ys :=
    (List.perm_ext_iff_of_nodup hxs hys).mpr fun x => ⟨fun hx => (h x hx).1, hsub x⟩
  refine List.ext_getElem hperm.length_eq ?_
  intro i hi hi'
  obtain ⟨hmem, hidx⟩ := h xs[i] (List.getElem_mem hi)
  rw [hxs.idxOf_getElem i hi] at hidx
  have hget := List.getElem_idxOf (List.idxOf_lt_length_of_mem hmem)
  simpa only [hidx] using hget.symm

/-- Where less precedes a member, it stands no later. -/
theorem idxOf_le_of_precedes {xs xs' : List α} (hnodup' : xs'.Nodup) {x : α}
    (h : ∀ y, Precedes xs' y x → Precedes xs y x) : xs'.idxOf x ≤ xs.idxOf x := by
  have hsub : xs'.take (xs'.idxOf x) ⊆ xs.take (xs.idxOf x) := by
    intro y hy
    have hprecedes := h y ((List.mem_take_iff_idxOf_lt (List.mem_of_mem_take hy)).mp hy)
    exact (List.mem_take_iff_idxOf_lt hprecedes.mem).mpr hprecedes
  have hle := (List.subperm_of_subset (hnodup'.sublist (List.take_sublist _ _)) hsub).length_le
  rw [List.length_take, List.length_take, min_eq_left List.idxOf_le_length,
    min_eq_left List.idxOf_le_length] at hle
  exact hle

/-- Rankings that begin alike agree on what their first members precede. -/
theorem precedes_of_take_eq {xs ys : List α} {n : ℕ} {x y : α} (hmem : y ∈ xs)
    (heq : xs.take n = ys.take n) (hx : x ∈ ys.take n) (h : Precedes ys x y) : Precedes xs x y := by
  have hplace : ∀ a ∈ ys.take n, xs.idxOf a = ys.idxOf a := by
    intro a ha
    rw [← (List.take_prefix n ys).idxOf_eq_of_mem ha, ← heq]
    exact ((List.take_prefix n xs).idxOf_eq_of_mem (heq ▸ ha)).symm
  rw [Precedes, hplace x hx]
  by_cases hyn : y ∈ ys.take n
  · rw [hplace y hyn]
    exact h
  · have hxn := (List.mem_take_iff_idxOf_lt h.mem).mp hx
    have hyn' : ¬ xs.idxOf y < n := by
      rw [← List.mem_take_iff_idxOf_lt hmem, heq]
      exact hyn
    omega

/-- A relation of the first members to all that they precede holds along them. -/
theorem pairwise_take_of_precedes {R : α → α → Prop} {ys : List α} (hnodup : ys.Nodup) {n : ℕ}
    (h : ∀ x ∈ ys.take n, ∀ y ∈ ys, Precedes ys x y → R x y) : (ys.take n).Pairwise R := by
  refine List.pairwise_iff_getElem.mpr ?_
  intro i j hi hj hij
  refine h _ (List.getElem_mem hi) _ (List.mem_of_mem_take (List.getElem_mem hj)) ?_
  have hnodup' := hnodup.sublist (List.take_sublist n ys)
  rw [Precedes, ← (List.take_prefix n ys).idxOf_eq_of_mem (List.getElem_mem hi),
    ← (List.take_prefix n ys).idxOf_eq_of_mem (List.getElem_mem hj), hnodup'.idxOf_getElem,
    hnodup'.idxOf_getElem]
  exact hij

/-- **A ranking begins as its sorting does** iff each of its first members comes, in the order of
the sorting, before all that it precedes. -/
theorem take_eq_take_iff {R : α → α → Prop} (hasymm : ∀ a b, R a b → ¬ R b a) {xs ys : List α}
    (hsorted : xs.Pairwise R) (hnodup : ys.Nodup) (hmem : ∀ a, a ∈ xs ↔ a ∈ ys) (n : ℕ) :
    xs.take n = ys.take n ↔ ∀ x ∈ ys.take n, ∀ y ∈ ys, Precedes ys x y → R x y := by
  constructor
  · intro heq x hx y hy hprecedes
    have hlater := precedes_of_take_eq ((hmem y).mpr hy) heq hx hprecedes
    exact ((precedes_iff hasymm hsorted).mp hlater).2 ((hmem y).mpr hy)
  · intro h
    have hfront := pairwise_take_of_precedes hnodup h
    have happend := eq_append_of_before hasymm hsorted hfront
      (fun y hy => (hmem y).mpr (List.mem_of_mem_take hy))
      fun y hy x hx hno => h y hy x ((hmem x).mp hx) (precedes_of_mem_take hy hno)
    have hperm : xs.Perm ys := (List.perm_ext_iff_of_nodup (nodup_of_pairwise hasymm hsorted)
      hnodup).mpr hmem
    by_cases hlength : n ≤ ys.length
    · rw [happend, List.take_left' (by rw [List.length_take, min_eq_left hlength])]
    · have hall : (ys.take n).length = xs.length := by
        rw [List.take_of_length_le (Nat.le_of_not_le hlength), hperm.length_eq]
      have hsame : ys.take n = xs :=
        (List.IsPrefix.eq_of_length ⟨_, happend.symm⟩ hall)
      rw [hsame, List.take_of_length_le]
      rw [hperm.length_eq]
      exact Nat.le_of_not_le hlength

/-! ### Promotion -/

/-- `x` is moved to an earlier place, or put in at some place. -/
def Promotes (x : α) (xs xs' : List α) : Prop :=
  ∃ a b c, xs' = a ++ x :: (b ++ c) ∧ (xs = a ++ (b ++ x :: c) ∨ xs = a ++ (b ++ c))

namespace Promotes

variable {x y : α} {xs xs' : List α}

omit [DecidableEq α] in
theorem mem_iff (h : Promotes x xs xs') (hy : y ≠ x) : y ∈ xs' ↔ y ∈ xs := by
  obtain ⟨a, b, c, rfl, rfl | rfl⟩ := h
  · simp only [List.mem_append, List.mem_cons, hy, false_or]
  · simp only [List.mem_append, List.mem_cons, hy, false_or]

omit [DecidableEq α] in
theorem mem_self (h : Promotes x xs xs') : x ∈ xs' := by
  obtain ⟨a, b, c, rfl, -⟩ := h
  exact List.mem_append_right _ List.mem_cons_self

/-- Nothing else comes closer to the front. -/
theorem idxOf_le (h : Promotes x xs xs') (hy : y ≠ x) : xs.idxOf y ≤ xs'.idxOf y := by
  obtain ⟨a, b, c, rfl, hxs⟩ := h
  have hbefore : xs.idxOf y ≤ (a ++ (b ++ x :: c)).idxOf y := by
    rcases hxs with rfl | rfl
    · exact le_rfl
    · by_cases ha : y ∈ a
      · rw [List.idxOf_append_of_mem ha, List.idxOf_append_of_mem ha]
      · rw [List.idxOf_append_of_notMem ha, List.idxOf_append_of_notMem ha]
        by_cases hb : y ∈ b
        · rw [List.idxOf_append_of_mem hb, List.idxOf_append_of_mem hb]
        · rw [List.idxOf_append_of_notMem hb, List.idxOf_append_of_notMem hb,
            List.idxOf_cons_ne _ hy.symm]
          omega
  refine hbefore.trans ?_
  by_cases ha : y ∈ a
  · rw [List.idxOf_append_of_mem ha, List.idxOf_append_of_mem ha]
  · rw [List.idxOf_append_of_notMem ha, List.idxOf_append_of_notMem ha,
      List.idxOf_cons_ne _ hy.symm]
    by_cases hb : y ∈ b
    · rw [List.idxOf_append_of_mem hb, List.idxOf_append_of_mem hb]
      omega
    · rw [List.idxOf_append_of_notMem hb, List.idxOf_append_of_notMem hb,
        List.idxOf_cons_ne _ hy.symm]
      omega

/-- What is promoted stands no later than before. -/
theorem idxOf_self_le (h : Promotes x xs xs') (hnodup : xs.Nodup) (hx : x ∈ xs)
    (hnodup' : xs'.Nodup) : xs'.idxOf x ≤ xs.idxOf x := by
  obtain ⟨a, b, c, rfl, hxs⟩ := h
  have ha : x ∉ a := by
    intro hmem
    exact (List.nodup_append.mp hnodup').2.2 x hmem x List.mem_cons_self rfl
  rw [List.idxOf_append_of_notMem ha, List.idxOf_cons_self]
  rcases hxs with rfl | rfl
  · rw [List.idxOf_append_of_notMem ha]
    omega
  · rw [List.idxOf_append_of_notMem ha]
    omega

end Promotes

end Data
end EvidenceLab
