/-
# The first elements of a sorted list

Where no two elements are each before the other, an element is among the first `t` of a
sorted list iff fewer than `t` of its elements are before it (`mem_take_iff_countP`), and
a sorted list begins with another one whose elements are all before the rest of it
(`eq_append_of_before`).
-/

import Mathlib.Data.List.Nodup
import Mathlib.Data.List.Sort

namespace EvidenceLab
namespace Data

variable {α : Type*} {R : α → α → Prop} {xs front : List α} {x y : α} {t : ℕ}

/-- A sorted list has no duplicates. -/
theorem nodup_of_pairwise (hasymm : ∀ a b, R a b → ¬ R b a) (h : xs.Pairwise R) : xs.Nodup := by
  refine h.imp ?_
  rintro a b hab rfl
  exact hasymm a a hab hab

/-- What is among the first is before what is not. -/
theorem before_of_mem_take (h : xs.Pairwise R) (hy : y ∈ xs.take t) (hx : x ∈ xs)
    (hno : x ∉ xs.take t) : R y x := by
  have happend : (xs.take t ++ xs.drop t).Pairwise R := by rwa [List.take_append_drop]
  have hdrop : x ∈ xs.drop t := by
    rw [← List.take_append_drop t xs] at hx
    exact (List.mem_append.mp hx).resolve_left hno
  exact (List.pairwise_append.mp happend).2.2 y hy x hdrop

/-- **Being among the first** is having few before oneself. -/
theorem mem_take_iff_countP [DecidableRel R] (hasymm : ∀ a b, R a b → ¬ R b a)
    (h : xs.Pairwise R) :
    y ∈ xs.take t ↔ y ∈ xs ∧ xs.countP (fun x => R x y) < t := by
  induction xs generalizing t with
  | nil => simp
  | cons x xs ih =>
      obtain ⟨hx, hxs⟩ := List.pairwise_cons.mp h
      cases t with
      | zero => simp
      | succ t =>
          rw [List.take_succ_cons, List.mem_cons, ih hxs, List.mem_cons, List.countP_cons]
          by_cases hy : y = x
          · subst hy
            have hnone : xs.countP (fun z => R z y) = 0 := by
              refine List.countP_eq_zero.mpr ?_
              intro z hz
              simpa using hasymm y z (hx z hz)
            have hirrefl : ¬ decide (R y y) = true := by
              intro hyy
              exact hasymm y y (of_decide_eq_true hyy) (of_decide_eq_true hyy)
            rw [hnone, if_neg hirrefl]
            exact iff_of_true (Or.inl rfl) ⟨Or.inl rfl, Nat.succ_pos t⟩
          · simp only [hy, false_or]
            constructor
            · rintro ⟨hmem, hlt⟩
              refine ⟨hmem, ?_⟩
              split <;> omega
            · rintro ⟨hmem, hlt⟩
              have hxy : decide (R x y) = true := decide_eq_true (hx y hmem)
              rw [if_pos hxy] at hlt
              exact ⟨hmem, by omega⟩

/-- **A sorted list begins with what is before the rest of it.** -/
theorem eq_append_of_before [DecidableEq α] (hasymm : ∀ a b, R a b → ¬ R b a)
    (hxs : xs.Pairwise R) (hfront : front.Pairwise R) (hsub : ∀ y ∈ front, y ∈ xs)
    (hbefore : ∀ y ∈ front, ∀ x ∈ xs, x ∉ front → R y x) :
    xs = front ++ xs.filter (· ∉ front) := by
  have hnodup := nodup_of_pairwise hasymm hxs
  have hsorted : (front ++ xs.filter (· ∉ front)).Pairwise R := by
    refine List.pairwise_append.mpr ⟨hfront, hxs.sublist List.filter_sublist, ?_⟩
    intro y hy x hx
    obtain ⟨hx, hno⟩ := List.mem_filter.mp hx
    exact hbefore y hy x hx (of_decide_eq_true hno)
  have hperm : xs.Perm (front ++ xs.filter (· ∉ front)) := by
    refine (List.perm_ext_iff_of_nodup hnodup (nodup_of_pairwise hasymm hsorted)).mpr ?_
    intro x
    rw [List.mem_append, List.mem_filter, decide_eq_true_eq]
    constructor
    · intro hx
      by_cases hmem : x ∈ front
      · exact Or.inl hmem
      · exact Or.inr ⟨hx, hmem⟩
    · rintro (hx | ⟨hx, -⟩)
      · exact hsub x hx
      · exact hx
  refine hperm.eq_of_pairwise ?_ hxs hsorted
  intro a b _ _ hab hba
  exact absurd hba (hasymm a b hab)

end Data
end EvidenceLab
