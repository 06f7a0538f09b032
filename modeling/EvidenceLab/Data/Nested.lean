/-
# Nested values

Values built of leaves by lists and dictionaries, to any depth, over any leaves and keys.  The
mask of a value blanks whatever it holds under certain keys, at any depth; so two values with the
same mask differ only there.  A value is the only one with its mask iff it holds no such key
(`eq_of_mask_eq`, `exists_ne_of_holds`).
-/

import Mathlib.Data.List.Basic
import Mathlib.Tactic.Common

namespace EvidenceLab
namespace Data

/-- A leaf, a list, or a dictionary by its entries in order. -/
inductive Nested (κ A : Type*)
  | leaf (a : A)
  | list (xs : List (Nested κ A))
  | dict (entries : List (κ × Nested κ A))

namespace Nested

variable {κ A : Type*}

/-- Induction over the members of lists and dictionaries. -/
theorem induct {P : Nested κ A → Prop} (leaf : ∀ a, P (leaf a))
    (list : ∀ xs, (∀ x ∈ xs, P x) → P (list xs))
    (dict : ∀ entries, (∀ e ∈ entries, P e.2) → P (dict entries)) (x : Nested κ A) : P x :=
  @Nested.rec κ A P (fun xs => ∀ x ∈ xs, P x) (fun entries => ∀ e ∈ entries, P e.2)
    (fun e => P e.2) leaf list dict (List.forall_mem_nil _)
    (fun _ _ hx hxs => List.forall_mem_cons.mpr ⟨hx, hxs⟩) (List.forall_mem_nil _)
    (fun _ _ he hes => List.forall_mem_cons.mpr ⟨he, hes⟩) (fun _ _ hx => hx) x

section Mask

variable (p : κ → Bool) (blank : A)

mutual

/-- Blanks what is under the keys, at any depth. -/
def mask : Nested κ A → Nested κ A
  | leaf a => leaf a
  | list xs => list (maskList xs)
  | dict entries => dict (maskEntries entries)

def maskList : List (Nested κ A) → List (Nested κ A)
  | [] => []
  | x :: xs => mask x :: maskList xs

def maskEntries : List (κ × Nested κ A) → List (κ × Nested κ A)
  | [] => []
  | (k, x) :: entries => (k, if p k then leaf blank else mask x) :: maskEntries entries

end

mutual

/-- One of the keys is held at some depth. -/
def holds : Nested κ A → Bool
  | leaf _ => false
  | list xs => holdsList xs
  | dict entries => holdsEntries entries

def holdsList : List (Nested κ A) → Bool
  | [] => false
  | x :: xs => holds x || holdsList xs

def holdsEntries : List (κ × Nested κ A) → Bool
  | [] => false
  | (k, x) :: entries => p k || holds x || holdsEntries entries

end

/-- An entry with its value blanked, or masked. -/
def maskEntry (e : κ × Nested κ A) : κ × Nested κ A :=
  (e.1, if p e.1 then leaf blank else mask p blank e.2)

theorem mask_list (xs : List (Nested κ A)) :
    mask p blank (list xs) = list (xs.map (mask p blank)) := by
  have hlist : maskList p blank xs = xs.map (mask p blank) := by
    induction xs with
    | nil => rfl
    | cons x xs ih => rw [maskList, ih, List.map_cons]
  rw [mask, hlist]

theorem mask_dict (entries : List (κ × Nested κ A)) :
    mask p blank (dict entries) = dict (entries.map (maskEntry p blank)) := by
  have hentries : maskEntries p blank entries = entries.map (maskEntry p blank) := by
    induction entries with
    | nil => rfl
    | cons e entries ih => rw [maskEntries, ih, List.map_cons, maskEntry]
  rw [mask, hentries]

theorem holds_list (xs : List (Nested κ A)) : holds p (list xs) = xs.any (holds p) := by
  have hlist : holdsList p xs = xs.any (holds p) := by
    induction xs with
    | nil => rfl
    | cons x xs ih => rw [holdsList, ih, List.any_cons]
  rw [holds, hlist]

theorem holds_dict (entries : List (κ × Nested κ A)) :
    holds p (dict entries) = entries.any fun e => p e.1 || holds p e.2 := by
  have hentries : holdsEntries p entries = entries.any fun e => p e.1 || holds p e.2 := by
    induction entries with
    | nil => rfl
    | cons e entries ih => rw [holdsEntries, ih, List.any_cons]
  rw [holds, hentries]

/-! ### What a mask tells -/

variable {p} {blank} {x y : Nested κ A}

/-- Two lists with the same images under one map have the same under another, if the one tells
about the other. -/
theorem map_eq_of_map_eq {α β γ : Type*} {f : α → β} {g : α → γ} {xs ys : List α}
    (hmap : ys.map f = xs.map f) (h : ∀ x ∈ xs, ∀ y, f y = f x → g y = g x) :
    ys.map g = xs.map g := by
  induction xs generalizing ys with
  | nil =>
      rw [List.map_eq_nil_iff.mp hmap]
  | cons x xs ih =>
      obtain ⟨y, ys, rfl, hy, hys⟩ := List.map_eq_cons_iff.mp hmap
      rw [List.map_cons, List.map_cons, h x (List.mem_cons_self ..) y hy,
        ih hys fun x hx => h x (List.mem_cons_of_mem _ hx)]

/-- **A value that holds none of the keys is told by its mask.** -/
theorem eq_of_mask_eq (hx : x.holds p = false) (h : y.mask p blank = x.mask p blank) : y = x := by
  induction x using induct generalizing y with
  | leaf a =>
      cases y with
      | leaf b => exact h
      | list ys => cases h
      | dict es => cases h
  | list xs ih =>
      rw [holds_list, List.any_eq_false] at hx
      cases y with
      | leaf b => cases h
      | dict es => cases h
      | list ys =>
          rw [mask_list, mask_list] at h
          have hmap := map_eq_of_map_eq (g := id) (Nested.list.inj h) fun x hmem y =>
            ih x hmem (Bool.eq_false_iff.mpr (hx x hmem))
          rw [List.map_id, List.map_id] at hmap
          rw [hmap]
  | dict es ih =>
      rw [holds_dict, List.any_eq_false] at hx
      cases y with
      | leaf b => cases h
      | list ys => cases h
      | dict es' =>
          rw [mask_dict, mask_dict] at h
          have hmap := map_eq_of_map_eq (g := id) (Nested.dict.inj h) ?_
          · rw [List.map_id, List.map_id] at hmap
            rw [hmap]
          · intro e hmem e' he
            have hnone := Bool.eq_false_iff.mpr (hx e hmem)
            obtain ⟨hkey, hin⟩ := Bool.or_eq_false_iff.mp hnone
            obtain ⟨hfst, hsnd⟩ := Prod.mk.inj he
            rw [hfst, hkey] at hsnd
            exact Prod.ext hfst (ih e hmem hin hsnd)

/-- There is another value. -/
theorem exists_ne (a : A) (x : Nested κ A) : ∃ y, y ≠ x := by
  cases x with
  | leaf b => exact ⟨list [], by rintro ⟨⟩⟩
  | list xs => exact ⟨leaf a, by rintro ⟨⟩⟩
  | dict es => exact ⟨leaf a, by rintro ⟨⟩⟩

/-- A list with one element replaced. -/
theorem exists_map_eq {α β : Type*} {f : α → β} {xs : List α} {x y : α} (hx : x ∈ xs)
    (hf : f y = f x) (hne : y ≠ x) : ∃ ys, ys.map f = xs.map f ∧ ys ≠ xs := by
  obtain ⟨front, back, rfl⟩ := List.append_of_mem hx
  refine ⟨front ++ y :: back, ?_, ?_⟩
  · rw [List.map_append, List.map_append, List.map_cons, List.map_cons, hf]
  · intro h
    exact hne (List.cons.inj (List.append_cancel_left h)).1

/-- **A value that holds one of the keys is not the only one with its mask.** -/
theorem exists_ne_of_holds (blank : A) (hx : x.holds p = true) :
    ∃ y, y.mask p blank = x.mask p blank ∧ y ≠ x := by
  induction x using induct with
  | leaf a => cases hx
  | list xs ih =>
      rw [holds_list, List.any_eq_true] at hx
      obtain ⟨x, hmem, hx⟩ := hx
      obtain ⟨y, hmask, hne⟩ := ih x hmem hx
      obtain ⟨ys, hmap, hother⟩ := exists_map_eq hmem hmask hne
      refine ⟨list ys, ?_, fun h => hother (Nested.list.inj h)⟩
      rw [mask_list, mask_list, hmap]
  | dict es ih =>
      rw [holds_dict, List.any_eq_true] at hx
      obtain ⟨e, hmem, hx⟩ := hx
      obtain ⟨e', hmask, hne⟩ : ∃ e', maskEntry p blank e' = maskEntry p blank e ∧ e' ≠ e := by
        cases hkey : p e.1 with
        | true =>
            obtain ⟨y, hy⟩ := exists_ne blank e.2
            refine ⟨(e.1, y), ?_, fun h => hy (congrArg Prod.snd h)⟩
            rw [maskEntry, maskEntry, hkey]
            rfl
        | false =>
            rw [hkey] at hx
            obtain ⟨y, hmask, hy⟩ := ih e hmem hx
            refine ⟨(e.1, y), ?_, fun h => hy (congrArg Prod.snd h)⟩
            rw [maskEntry, maskEntry, hmask]
      obtain ⟨es', hmap, hother⟩ := exists_map_eq hmem hmask hne
      refine ⟨dict es', ?_, fun h => hother (Nested.dict.inj h)⟩
      rw [mask_dict, mask_dict, hmap]

end Mask

end Nested
end Data
end EvidenceLab
