/-
# Patterns that spell words

A pattern without repetitions spells a finite list of words, perhaps up to the case of their
letters: its matches are the places at which one of the words stands (`Spells`).  The words are
found along the shape of the pattern, and two such patterns can meet in one place only where a
word of the one is part of a word of the other (`infix_of_inside`).
-/

import EvidenceLab.Text.Regex

namespace EvidenceLab
namespace Text

open Regex

variable {α β : Type*}

/-! ### Standing -/

section Standing

variable {s p q : List α} {i j : ℕ}

theorem standsAt_nil (s : List α) (i : ℕ) : StandsAt s [] i := List.nil_prefix

theorem standsAt_singleton {x : α} : StandsAt s [x] i ↔ s[i]? = some x := by
  rw [StandsAt, ← List.head?_drop]
  cases s.drop i with
  | nil => simp
  | cons y l => simp [eq_comm]

/-- Two strings stand behind each other iff what they make together stands there. -/
theorem standsAt_append_iff :
    StandsAt s (p ++ q) i ↔ StandsAt s p i ∧ StandsAt s q (i + p.length) := by
  constructor
  · intro h
    have hq : StandsAt (p ++ q) q p.length := by
      have happend := standsAt_append p q []
      rwa [List.append_nil] at happend
    exact ⟨(List.prefix_append p q).trans h, h.trans hq⟩
  · rintro ⟨⟨t, ht⟩, hq⟩
    rw [StandsAt, ← List.drop_drop, ← ht, List.drop_left] at hq
    rw [StandsAt, ← ht]
    exact (List.prefix_append_right_inj p).mpr hq

/-- What stands inside of where another string stands is part of it. -/
theorem infix_of_inside (hp : StandsAt s p i) (hq : StandsAt s q j) (hij : i ≤ j)
    (hend : j + q.length ≤ i + p.length) : q <:+: p := by
  obtain ⟨n, rfl⟩ := Nat.exists_eq_add_of_le hij
  have hin := hq.slice hend
  rw [standsAt_iff_slice.mp hp] at hin
  exact hin.isInfix.trans (List.drop_suffix n p).isInfix

end Standing

/-! ### Spelling -/

/-- The matches of the pattern are the places of these words, each character taken for its
image. -/
def Spells (f : α → β) (r : Regex α) (words : List (List β)) : Prop :=
  ∀ (isWord : α → Bool) (s : List α) (i j : ℕ),
    j ∈ ends isWord s r i ↔ ∃ w ∈ words, StandsAt (s.map f) w i ∧ j = i + w.length

section Spells

variable {f : α → β} {q r : Regex α} {words words' : List (List β)}

theorem spells_empty (f : α → β) : Spells f Regex.empty [[]] := by
  intro isWord s i j
  rw [ends, List.mem_singleton]
  constructor
  · rintro rfl
    exact ⟨[], List.mem_singleton_self _, standsAt_nil _ _, rfl⟩
  · rintro ⟨w, hw, -, rfl⟩
    rw [List.mem_singleton.mp hw]
    rfl

theorem spells_one {p : α → Bool} {chars : List β} (hp : ∀ c, p c = true ↔ f c ∈ chars) :
    Spells f (one p) (chars.map fun x => [x]) := by
  intro isWord s i j
  have hplace : holdsAt s p i = true ↔ ∃ x ∈ chars, StandsAt (s.map f) [x] i := by
    simp only [holdsAt_iff, standsAt_singleton, List.getElem?_map, Option.map_eq_some_iff, hp]
    constructor
    · rintro ⟨c, hc, hmem⟩
      exact ⟨f c, hmem, c, hc, rfl⟩
    · rintro ⟨_, hmem, c, hc, rfl⟩
      exact ⟨c, hc, hmem⟩
  rw [ends]
  split_ifs with hholds
  · rw [List.mem_singleton]
    constructor
    · rintro rfl
      obtain ⟨x, hx, hstands⟩ := hplace.mp hholds
      exact ⟨[x], List.mem_map_of_mem hx, hstands, rfl⟩
    · rintro ⟨w, hw, -, rfl⟩
      obtain ⟨x, -, rfl⟩ := List.mem_map.mp hw
      rfl
  · refine iff_of_false List.not_mem_nil ?_
    rintro ⟨w, hw, hstands, -⟩
    obtain ⟨x, hx, rfl⟩ := List.mem_map.mp hw
    exact hholds (hplace.mpr ⟨x, hx, hstands⟩)

theorem Spells.seq (hq : Spells f q words) (hr : Spells f r words') :
    Spells f (seq q r) (words.flatMap fun w => words'.map (w ++ ·)) := by
  intro isWord s i j
  rw [ends, List.mem_flatMap]
  constructor
  · rintro ⟨k, hk, hj⟩
    obtain ⟨w, hw, hstands, rfl⟩ := (hq _ _ _ _).mp hk
    obtain ⟨v, hv, hstands', rfl⟩ := (hr _ _ _ _).mp hj
    refine ⟨w ++ v, List.mem_flatMap.mpr ⟨w, hw, List.mem_map_of_mem hv⟩,
      standsAt_append_iff.mpr ⟨hstands, hstands'⟩, ?_⟩
    rw [List.length_append, Nat.add_assoc]
  · rintro ⟨_, hmem, hstands, rfl⟩
    obtain ⟨w, hw, hmem⟩ := List.mem_flatMap.mp hmem
    obtain ⟨v, hv, rfl⟩ := List.mem_map.mp hmem
    obtain ⟨hstands, hstands'⟩ := standsAt_append_iff.mp hstands
    refine ⟨i + w.length, (hq _ _ _ _).mpr ⟨w, hw, hstands, rfl⟩,
      (hr _ _ _ _).mpr ⟨v, hv, hstands', ?_⟩⟩
    rw [List.length_append, Nat.add_assoc]

theorem Spells.alt (hq : Spells f q words) (hr : Spells f r words') :
    Spells f (alt q r) (words ++ words') := by
  intro isWord s i j
  rw [ends, List.mem_append, hq, hr]
  simp only [List.mem_append, or_and_right, exists_or]

theorem Spells.opt (hr : Spells f r words) : Spells f (opt r) (words ++ [[]]) :=
  hr.alt (spells_empty f)

theorem spells_oneOf {rs : List (Regex α)} {wordss : List (List (List β))}
    (h : List.Forall₂ (Spells f) rs wordss) : Spells f (oneOf rs) wordss.flatten := by
  induction h with
  | nil =>
      intro isWord s i j
      have hnone : holdsAt s (fun _ => false) i = false := by
        rw [Bool.eq_false_iff, ne_eq, holdsAt_iff]
        rintro ⟨_, -, ⟨⟩⟩
      rw [oneOf, ends, hnone]
      refine iff_of_false List.not_mem_nil ?_
      rintro ⟨w, hw, -⟩
      exact List.not_mem_nil hw
  | cons hr _ ih => exact hr.alt ih

/-- **Where a word of a pattern stands between boundaries.** -/
theorem Spells.mem_ends_word (h : Spells f r words) {isWord : α → Bool} {s : List α} {i j : ℕ} :
    j ∈ ends isWord s (word r) i ↔ boundaryAt isWord s i = true ∧ boundaryAt isWord s j = true ∧
      ∃ w ∈ words, StandsAt (s.map f) w i ∧ j = i + w.length := by
  rw [word, ends_boundary_seq, ends_seq_boundary]
  split_ifs with hi
  · rw [List.mem_filter, h, and_comm, and_iff_right hi]
  · exact iff_of_false List.not_mem_nil fun hword => hi hword.1

end Spells

end Text
end EvidenceLab
