/-
# Sorting by a key

A list that is sorted by a key which no two of its elements share is the only sorted
one among its rearrangements (`eq_of_perm`): whatever sorts it, stable or not, gives
the same.  Where two elements share their key there is another one
(`exists_perm_of_not_nodup`).
-/

import Mathlib.Data.List.Sort
import Mathlib.Order.Basic

namespace EvidenceLab
namespace Data

variable {α κ : Type*} [LinearOrder κ] {key : α → κ}

/-- **Distinct keys leave one sorted rearrangement.** -/
theorem eq_of_perm {xs ys : List α} (hperm : xs.Perm ys)
    (hxs : xs.Pairwise fun a b => key a ≤ key b) (hys : ys.Pairwise fun a b => key a < key b) :
    xs = ys := by
  refine hperm.eq_of_pairwise ?_ hxs (hys.imp le_of_lt)
  intro a b ha hb hab hba
  have hkey : key a = key b := le_antisymm hab hba
  have hinj := List.pairwise_map.mpr (hys.imp ne_of_lt)
  exact List.inj_on_of_nodup_map (f := key) hinj (hperm.mem_iff.mp ha) hb hkey

/-- `sorted(xs, key=key)` of a rearrangement. -/
theorem mergeSort_eq_of_perm {xs ys : List α} (hperm : xs.Perm ys)
    (hys : ys.Pairwise fun a b => key a < key b) :
    xs.mergeSort (fun a b => decide (key a ≤ key b)) = ys := by
  refine eq_of_perm ((List.mergeSort_perm _ _).trans hperm) ?_ hys
  have hsorted := @List.pairwise_mergeSort _ (fun a b => decide (key a ≤ key b))
    (fun a b c hab hbc => by
      rw [decide_eq_true_eq] at *
      exact le_trans hab hbc)
    (fun a b => by
      rw [Bool.or_eq_true, decide_eq_true_eq, decide_eq_true_eq]
      exact le_total _ _) xs
  exact hsorted.imp of_decide_eq_true

/-- A sorted list in which two elements share their key has another sorted
rearrangement, unless these are equal. -/
theorem exists_perm_of_not_nodup {ys : List α} (hys : ys.Pairwise fun a b => key a ≤ key b)
    (hdup : ¬ (ys.map key).Nodup) (hdistinct : ys.Nodup) :
    ∃ xs : List α, xs.Perm ys ∧ xs.Pairwise (fun a b => key a ≤ key b) ∧ xs ≠ ys := by
  induction ys with
  | nil => exact absurd List.nodup_nil hdup
  | cons a ys ih =>
      obtain ⟨hle, hys'⟩ := List.pairwise_cons.mp hys
      obtain ⟨hnew, hdistinct'⟩ := List.nodup_cons.mp hdistinct
      by_cases hdup' : (ys.map key).Nodup
      · -- The first element shares its key with a later one, hence with the next one.
        cases ys with
        | nil => exact absurd (List.nodup_singleton (key a)) hdup
        | cons b ys =>
            have hkey : key a = key b := by
              have hmem : key a ∈ (b :: ys).map key := by
                by_contra hno
                exact hdup (List.nodup_cons.mpr ⟨hno, hdup'⟩)
              obtain ⟨c, hc, hkey⟩ := List.mem_map.mp hmem
              rcases List.mem_cons.mp hc with rfl | hc
              · exact hkey.symm
              · have hbc := (List.pairwise_cons.mp hys').1 c hc
                exact le_antisymm (hle b (List.mem_cons_self ..)) (hbc.trans hkey.le)
            obtain ⟨hb, hrest⟩ := List.pairwise_cons.mp hys'
            refine ⟨b :: a :: ys, List.Perm.swap a b ys, ?_, ?_⟩
            · refine List.pairwise_cons.mpr ⟨?_, List.pairwise_cons.mpr ⟨?_, hrest⟩⟩
              · intro c hc
                rcases List.mem_cons.mp hc with rfl | hc
                · exact hkey.ge
                · exact hb c hc
              · intro c hc
                exact hle c (List.mem_cons_of_mem _ hc)
            · intro heq
              exact hnew ((List.cons.inj heq).1 ▸ List.mem_cons_self ..)
      · obtain ⟨xs, hperm, hsorted, hne⟩ := ih hys' hdup' hdistinct'
        refine ⟨a :: xs, hperm.cons a, ?_, fun heq => hne (List.cons.inj heq).2⟩
        refine List.pairwise_cons.mpr ⟨?_, hsorted⟩
        intro c hc
        exact hle c (hperm.mem_iff.mp hc)

end Data
end EvidenceLab
