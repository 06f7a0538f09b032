/-
# Ties

A list that is sorted by a key may come in any order of the elements that share one
(`IsSorting`).  Each element then has an earliest and a latest position, and these bound its
position in every sorting (`IsSorting.earliest_le`, `IsSorting.le_latest`).  They are taken:
a second key that sorts the ties puts one element first and another one last among its own
(`exists_apart`).

Of the rankings that are possible, the first `n` are always the same iff each element that is
ever ranked is behind `n` others for good, or is always ranked and comes always before or
always after each other one (`take_eq_iff`).
-/

import EvidenceLab.Data.Rankings
import Mathlib.Data.List.Sort
import Mathlib.Data.Prod.Lex

namespace EvidenceLab
namespace Data

/-! ### Sortings -/

/-- A rearrangement that is sorted by the key. -/
structure IsSorting {α κ : Type*} [LE κ] (key : α → κ) (xs ys : List α) : Prop where
  perm : ys.Perm xs
  sorted : ys.Pairwise fun a b => key a ≤ key b

section Sortings

variable {α β κ : Type*} [LinearOrder κ] {key : α → κ} {xs ys : List α} {x y : α}

theorem exists_isSorting (key : α → κ) (xs : List α) : ∃ ys, IsSorting key xs ys := by
  have : IsTrans α fun a b => key a ≤ key b := ⟨fun _ _ _ => le_trans⟩
  have : Std.Total fun a b : α => key a ≤ key b := ⟨fun _ _ => le_total _ _⟩
  exact ⟨xs.insertionSort fun a b => key a ≤ key b, List.perm_insertionSort _ _,
    List.pairwise_insertionSort _ _⟩

/-- A second key sorts the ties of the first. -/
theorem IsSorting.of_tieBreak {τ : Type*} [LinearOrder τ] {tie : α → τ}
    (h : IsSorting (fun a => toLex (key a, tie a)) xs ys) : IsSorting key xs ys := by
  refine ⟨h.perm, h.sorted.imp ?_⟩
  intro a b hab
  rcases Prod.Lex.toLex_le_toLex.mp hab with hlt | ⟨heq, -⟩
  · exact hlt.le
  · exact heq.le

/-- The names of sorted rows are sorted by what they say of the key. -/
theorem IsSorting.map {name : α → β} {key' : β → κ} (h : IsSorting key xs ys)
    (hkey : ∀ a ∈ xs, key' (name a) = key a) : IsSorting key' (xs.map name) (ys.map name) := by
  refine ⟨h.perm.map name, List.pairwise_map.mpr (h.sorted.imp_of_mem ?_)⟩
  intro a b ha hb hab
  rwa [hkey a (h.perm.mem_iff.mp ha), hkey b (h.perm.mem_iff.mp hb)]

/-- A sorting of the names is one of the rows. -/
theorem IsSorting.exists_rows {name : α → β} {key' : β → κ} {names : List β}
    (h : IsSorting key' (xs.map name) names) (hkey : ∀ a ∈ xs, key' (name a) = key a) :
    ∃ ys, IsSorting key xs ys ∧ ys.map name = names := by
  have hcomp := congrFun (congrFun (List.eq_map_comp_perm name) names) xs
  obtain ⟨ys, rfl, hperm⟩ := hcomp.mpr h.perm
  refine ⟨ys, ⟨hperm, (List.pairwise_map.mp h.sorted).imp_of_mem ?_⟩, rfl⟩
  intro a b ha hb hab
  rwa [hkey a (hperm.mem_iff.mp ha), hkey b (hperm.mem_iff.mp hb)] at hab

variable [DecidableEq α]

/-- The position of an element if it comes first among its ties. -/
def earliest (key : α → κ) (xs : List α) (x : α) : ℕ := xs.countP fun y => key y < key x

/-- Its position if it comes last among them. -/
def latest (key : α → κ) (xs : List α) (x : α) : ℕ := xs.countP fun y => key y ≤ key x ∧ y ≠ x

/-- A sorting, before and after one of its elements. -/
theorem IsSorting.exists_split (h : IsSorting key xs ys) (hx : x ∈ xs) :
    ∃ before after, xs.Perm (before ++ x :: after) ∧ ys.idxOf x = before.length ∧ x ∉ before ∧
      (∀ y ∈ before, key y ≤ key x) ∧ ∀ y ∈ after, key x ≤ key y := by
  obtain ⟨before, after, rfl, hno⟩ := List.eq_append_cons_of_mem (h.perm.mem_iff.mpr hx)
  obtain ⟨-, htail, hcross⟩ := List.pairwise_append.mp h.sorted
  refine ⟨before, after, h.perm.symm, ?_, hno, ?_, (List.pairwise_cons.mp htail).1⟩
  · rw [List.idxOf_append_of_notMem hno, List.idxOf_cons_self, Nat.add_zero]
  · exact fun y hy => hcross y hy x (List.mem_cons_self ..)

theorem IsSorting.earliest_le (h : IsSorting key xs ys) (hx : x ∈ xs) :
    earliest key xs x ≤ ys.idxOf x := by
  obtain ⟨before, after, hperm, hidx, -, -, hafter⟩ := h.exists_split hx
  have hrest : (x :: after).countP (fun y => key y < key x) = 0 := by
    refine List.countP_eq_zero.mpr ?_
    intro y hy
    rw [decide_eq_true_eq, not_lt]
    rcases List.mem_cons.mp hy with rfl | hy
    · exact le_rfl
    · exact hafter y hy
  rw [earliest, hperm.countP_eq, List.countP_append, hrest, hidx]
  exact List.countP_le_length

theorem IsSorting.le_latest (h : IsSorting key xs ys) (hx : x ∈ xs) :
    ys.idxOf x ≤ latest key xs x := by
  obtain ⟨before, after, hperm, hidx, hno, hbefore, -⟩ := h.exists_split hx
  have hall : before.countP (fun y => key y ≤ key x ∧ y ≠ x) = before.length := by
    refine List.countP_eq_length.mpr ?_
    intro y hy
    exact decide_eq_true ⟨hbefore y hy, fun heq => hno (heq ▸ hy)⟩
  rw [latest, hperm.countP_eq, List.countP_append, hall, hidx]
  exact Nat.le_add_right _ _

section TieBreak

variable {τ : Type*} [LinearOrder τ] {tie : α → τ}

/-- What the second key puts first among its ties. -/
theorem IsSorting.idxOf_eq_earliest (h : IsSorting (fun a => toLex (key a, tie a)) xs ys)
    (hx : x ∈ xs) (hfirst : ∀ y ∈ xs, y ≠ x → tie x < tie y) :
    ys.idxOf x = earliest key xs x := by
  refine le_antisymm ?_ (h.of_tieBreak.earliest_le hx)
  obtain ⟨before, after, hperm, hidx, hno, hbefore, -⟩ := h.exists_split hx
  have hall : before.countP (fun y => key y < key x) = before.length := by
    refine List.countP_eq_length.mpr ?_
    intro y hy
    rw [decide_eq_true_eq]
    have hmem : y ∈ xs := hperm.mem_iff.mpr (List.mem_append_left _ hy)
    have htie := hfirst y hmem fun heq => hno (heq ▸ hy)
    rcases Prod.Lex.toLex_le_toLex.mp (hbefore y hy) with hlt | ⟨-, hle⟩
    · exact hlt
    · exact absurd htie (not_lt.mpr hle)
  rw [earliest, hperm.countP_eq, List.countP_append, hall, hidx]
  exact Nat.le_add_right _ _

/-- What it puts last among them. -/
theorem IsSorting.idxOf_eq_latest (h : IsSorting (fun a => toLex (key a, tie a)) xs ys)
    (hx : x ∈ xs) (hlast : ∀ y ∈ xs, y ≠ x → tie y < tie x) :
    ys.idxOf x = latest key xs x := by
  refine le_antisymm (h.of_tieBreak.le_latest hx) ?_
  obtain ⟨before, after, hperm, hidx, -, -, hafter⟩ := h.exists_split hx
  have hrest : (x :: after).countP (fun y => key y ≤ key x ∧ y ≠ x) = 0 := by
    refine List.countP_eq_zero.mpr ?_
    intro y hy
    rw [decide_eq_true_eq]
    rintro ⟨hle, hne⟩
    have hmem : y ∈ xs := hperm.mem_iff.mpr (List.mem_append_right _ hy)
    have hy' := (List.mem_cons.mp hy).resolve_left hne
    rcases Prod.Lex.toLex_le_toLex.mp (hafter y hy') with hlt | ⟨-, htie⟩
    · exact absurd hle (not_le.mpr hlt)
    · exact absurd (hlast y hmem hne) (not_lt.mpr htie)
  rw [latest, hperm.countP_eq, List.countP_append, hrest, hidx]
  exact List.countP_le_length

end TieBreak

/-- The second key that puts `y` first and `x` last. -/
def apart (x y : α) (a : α) : ℕ := if a = y then 0 else if a = x then 2 else 1

/-- **One element at its latest and another at its earliest position.** -/
theorem IsSorting.apart (hne : x ≠ y)
    (h : IsSorting (fun a => toLex (key a, apart x y a)) xs ys) :
    (x ∈ xs → ys.idxOf x = latest key xs x) ∧ (y ∈ xs → ys.idxOf y = earliest key xs y) := by
  constructor
  · intro hx
    refine h.idxOf_eq_latest hx ?_
    intro a _ ha
    simp only [Data.apart, hne, ha, if_true, if_false]
    split <;> omega
  · intro hy
    refine h.idxOf_eq_earliest hy ?_
    intro a _ ha
    simp only [Data.apart, ha, if_true, if_false]
    split <;> omega

/-- Where no element shares its key, the two positions are the same. -/
theorem earliest_eq_latest (hnodup : (xs.map key).Nodup) (hx : x ∈ xs) :
    earliest key xs x = latest key xs x := by
  refine List.countP_congr ?_
  intro y hy
  rw [decide_eq_true_eq, decide_eq_true_eq]
  constructor
  · intro hlt
    refine ⟨hlt.le, ?_⟩
    rintro rfl
    exact lt_irrefl _ hlt
  · rintro ⟨hle, hne⟩
    exact lt_of_le_of_ne hle fun heq => hne (List.inj_on_of_nodup_map hnodup hy hx heq)

end Sortings

/-! ### Rankings that are possible -/

section Possible

variable {α : Type*} [DecidableEq α] {Possible : List α → Prop} {x y : α} {n : ℕ}

/-- `x` precedes `y` in every one. -/
def AlwaysPrecedes (Possible : List α → Prop) (x y : α) : Prop :=
  ∀ xs, Possible xs → Precedes xs x y

/-- Some `n` others precede `x` in every one. -/
def AlwaysBehind (Possible : List α → Prop) (n : ℕ) (x : α) : Prop :=
  ∃ ys : List α, ys.Nodup ∧ ys.length = n ∧ ∀ y ∈ ys, y ≠ x ∧ AlwaysPrecedes Possible y x

/-- What is behind `n` others is not among the first `n`. -/
theorem AlwaysBehind.not_mem_take (h : AlwaysBehind Possible n x) {xs : List α}
    (hxs : Possible xs) : x ∉ xs.take n := by
  intro hx
  obtain ⟨ys, hnodup, hlength, hys⟩ := h
  have hsub : ys ⊆ xs.take (xs.idxOf x) := by
    intro y hy
    have hprecedes := (hys y hy).2 xs hxs
    exact (List.mem_take_iff_idxOf_lt hprecedes.mem).mpr hprecedes
  have hle := (List.subperm_of_subset hnodup hsub).length_le
  rw [List.length_take, min_eq_left List.idxOf_le_length, hlength] at hle
  have hlt := (List.mem_take_iff_idxOf_lt (List.mem_of_mem_take hx)).mp hx
  omega

/-- An element whose place among the others is settled has one position. -/
theorem idxOf_eq_of_settled {xs xs' : List α} (hnodup : xs.Nodup) (hnodup' : xs'.Nodup)
    (hxs : Possible xs) (hxs' : Possible xs')
    (h : ∀ y, y ≠ x → AlwaysPrecedes Possible y x ∨ AlwaysPrecedes Possible x y) :
    xs.idxOf x = xs'.idxOf x := by
  have hle : ∀ {as bs : List α}, as.Nodup → Possible as → Possible bs →
      as.idxOf x ≤ bs.idxOf x := by
    intro as bs hnodup has hbs
    refine idxOf_le_of_precedes hnodup ?_
    intro y hy
    rcases h y hy.ne with hyx | hxy
    · exact hyx bs hbs
    · exact absurd (hxy as has) (not_lt.mpr hy.le)
  exact le_antisymm (hle hnodup hxs hxs') (hle hnodup' hxs' hxs)

/-- Where the first `n` are the same, they are ahead of all others, and in one order. -/
theorem settled_of_take_eq (hnodup : ∀ xs, Possible xs → xs.Nodup)
    (h : ∀ xs xs', Possible xs → Possible xs' → xs.take n = xs'.take n) {xs : List α}
    (hxs : Possible xs) (hx : x ∈ xs) : AlwaysBehind Possible n x ∨
      (∀ xs, Possible xs → x ∈ xs) ∧
        ∀ y, y ≠ x → AlwaysPrecedes Possible y x ∨ AlwaysPrecedes Possible x y := by
  have hfront : ∀ {y}, y ∈ xs.take n → ∀ xs', Possible xs' →
      y ∈ xs'.take n ∧ xs'.idxOf y = (xs.take n).idxOf y := by
    intro y hy xs' hxs'
    rw [h xs xs' hxs hxs'] at hy ⊢
    exact ⟨hy, ((List.take_prefix n xs').idxOf_eq_of_mem hy).symm⟩
  by_cases hx' : x ∈ xs.take n
  · refine Or.inr ⟨fun xs' hxs' => List.mem_of_mem_take (hfront hx' xs' hxs').1, ?_⟩
    intro y hne
    by_cases hy : y ∈ xs.take n
    · -- Both have their positions in the common front.
      rcases Nat.lt_or_gt_of_ne (fun heq => hne ((List.idxOf_inj hy).mp heq)) with hlt | hlt
      · refine Or.inl fun xs' hxs' => ?_
        rwa [Precedes, (hfront hx' xs' hxs').2, (hfront hy xs' hxs').2]
      · refine Or.inr fun xs' hxs' => ?_
        rwa [Precedes, (hfront hx' xs' hxs').2, (hfront hy xs' hxs').2]
    · refine Or.inr fun xs' hxs' => ?_
      rw [h xs xs' hxs hxs'] at hx' hy
      exact precedes_of_mem_take hx' hy
  · -- The front is full, and all of it is ahead.
    have hn : n ≤ xs.idxOf x := not_lt.mp (mt (List.mem_take_iff_idxOf_lt hx).mpr hx')
    refine Or.inl ⟨xs.take n, (hnodup xs hxs).sublist (List.take_sublist n xs), ?_, ?_⟩
    · rw [List.length_take, min_eq_left (hn.trans List.idxOf_le_length)]
    · intro y hy
      refine ⟨fun heq => hx' (heq ▸ hy), fun xs' hxs' => ?_⟩
      rw [h xs xs' hxs hxs'] at hx' hy
      exact precedes_of_mem_take hy hx'

/-- **When the first `n` are always the same.** -/
theorem take_eq_iff (hnodup : ∀ xs, Possible xs → xs.Nodup) (n : ℕ) :
    (∀ xs xs', Possible xs → Possible xs' → xs.take n = xs'.take n) ↔
      ∀ x, (∃ xs, Possible xs ∧ x ∈ xs) → AlwaysBehind Possible n x ∨
        (∀ xs, Possible xs → x ∈ xs) ∧
          ∀ y, y ≠ x → AlwaysPrecedes Possible y x ∨ AlwaysPrecedes Possible x y := by
  constructor
  · rintro h x ⟨xs, hxs, hx⟩
    exact settled_of_take_eq hnodup h hxs hx
  · intro h xs xs' hxs hxs'
    have hsub : ∀ {xs xs'}, Possible xs → Possible xs' → ∀ x ∈ xs.take n,
        x ∈ xs'.take n ∧ (xs'.take n).idxOf x = (xs.take n).idxOf x := by
      intro xs xs' hxs hxs' x hx
      have hmem := List.mem_of_mem_take hx
      rcases h x ⟨xs, hxs, hmem⟩ with hbehind | ⟨halways, hsettled⟩
      · exact absurd hx (hbehind.not_mem_take hxs)
      · have hidx := idxOf_eq_of_settled (hnodup xs' hxs') (hnodup xs hxs) hxs' hxs hsettled
        have hx' : x ∈ xs'.take n := by
          rw [List.mem_take_iff_idxOf_lt (halways xs' hxs'), hidx]
          exact (List.mem_take_iff_idxOf_lt hmem).mp hx
        refine ⟨hx', ?_⟩
        rw [(List.take_prefix n xs').idxOf_eq_of_mem hx',
          (List.take_prefix n xs).idxOf_eq_of_mem hx, hidx]
    have htake : ∀ {xs}, Possible xs → (xs.take n).Nodup := fun hxs =>
      (hnodup _ hxs).sublist (List.take_sublist n _)
    refine eq_of_idxOf_eq (htake hxs) (htake hxs') (hsub hxs hxs') ?_
    exact fun x hx => (hsub hxs' hxs x hx).1

end Possible

end Data
end EvidenceLab
