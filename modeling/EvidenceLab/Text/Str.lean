/-
# Strings as sequences: slices, stripping, searching

The string operations of the standard library that a text pipeline is written
with (`s[i:j]`, `s.strip()`, `s.find(p, start)`, `s.rfind(p)`), over any
alphabet and any notion of blank character.  The one relation the results
speak of is `StandsAt s p i`: the string `p` stands in `s` at offset `i`.  It
is what a citation offset has to satisfy (`standsAt_iff_slice`), it composes
along nested cuts (`StandsAt.trans`), and every operation here that returns a
piece of a string returns it with the offset at which it stands.

Stripping loses blanks only: a character of `s` that is not blank lies inside
the stripped string (`lead_le_of_not_blank`, `lt_of_not_blank`).  Searching
forward from a cursor finds a string where it was cut, as soon as what lies
between the cursor and the cut is blank and the string itself is not
(`find_eq_of_blankOn`).
-/

import Mathlib.Data.List.DropRight
import Mathlib.Data.List.Infix
import Mathlib.Tactic.Common

namespace EvidenceLab
namespace Text

variable {α : Type*}

/-! ### Slices and offsets -/

/-- The slice `s[i:j]`. -/
def slice (s : List α) (i j : ℕ) : List α := (s.drop i).take (j - i)

/-- The string `p` stands in `s` at offset `i`. -/
def StandsAt (s p : List α) (i : ℕ) : Prop := p <+: s.drop i

instance [DecidableEq α] (s p : List α) (i : ℕ) : Decidable (StandsAt s p i) :=
  inferInstanceAs (Decidable (p <+: s.drop i))

/-- Standing at an offset is being the slice of that length there. -/
theorem standsAt_iff_slice {s p : List α} {i : ℕ} :
    StandsAt s p i ↔ slice s i (i + p.length) = p := by
  rw [StandsAt, List.prefix_iff_eq_take, slice, Nat.add_sub_cancel_left, eq_comm]

theorem standsAt_slice (s : List α) (i j : ℕ) : StandsAt s (slice s i j) i :=
  List.take_prefix _ _

theorem standsAt_zero {s p : List α} (h : p <+: s) : StandsAt s p 0 := by
  simpa [StandsAt] using h

theorem standsAt_append (u p v : List α) : StandsAt (u ++ p ++ v) p u.length := by
  simp [StandsAt]

/-- Offsets add up along nested cuts. -/
theorem StandsAt.trans {s p q : List α} {i j : ℕ} (h : StandsAt s p i) (h' : StandsAt p q j) :
    StandsAt s q (i + j) := by
  have hd : p.drop j <+: s.drop (i + j) := by
    rw [← List.drop_drop]
    exact h.drop j
  exact List.IsPrefix.trans h' hd

theorem StandsAt.getElem? {s p : List α} {i n : ℕ} (h : StandsAt s p i) (hn : n < p.length) :
    s[i + n]? = p[n]? := by
  rw [← List.getElem?_drop]
  exact (List.prefix_iff_getElem?.mp h n hn).trans (List.getElem?_eq_getElem hn).symm

/-- What stands in a string and is not empty ends inside it. -/
theorem StandsAt.add_le {s p : List α} {i : ℕ} (h : StandsAt s p i) (hp : p ≠ []) :
    i + p.length ≤ s.length := by
  have hlen := List.IsPrefix.length_le h
  have hpos := List.length_pos_iff.mpr hp
  rw [List.length_drop] at hlen
  omega

@[simp] theorem length_slice (s : List α) (i j : ℕ) :
    (slice s i j).length = min (j - i) (s.length - i) := by
  simp [slice]

theorem getElem?_slice {s : List α} {i j n : ℕ} (h : i + n < j) :
    (slice s i j)[n]? = s[i + n]? := by
  rw [slice, List.getElem?_take_of_lt (by omega), List.getElem?_drop]

/-- What stands in the string stands in every slice that holds it. -/
theorem StandsAt.slice {s p : List α} {i j n : ℕ} (h : StandsAt s p (i + n))
    (hn : i + n + p.length ≤ j) : StandsAt (Text.slice s i j) p n := by
  rw [StandsAt, Text.slice, List.drop_take, List.drop_drop, List.prefix_take_iff]
  exact ⟨h, by omega⟩

/-! ### Blank stretches -/

/-- The characters of `s` at the positions `i, …, j - 1` are blank. -/
def BlankOn (blank : α → Bool) (s : List α) (i j : ℕ) : Prop :=
  ∀ n x, i ≤ n → n < j → s[n]? = some x → blank x = true

theorem BlankOn.mono {blank : α → Bool} {s : List α} {i j i' j' : ℕ} (h : BlankOn blank s i j)
    (hi : i ≤ i') (hj : j' ≤ j) : BlankOn blank s i' j' :=
  fun n x hn hn' hx => h n x (hi.trans hn) (hn'.trans_le hj) hx

theorem BlankOn.join {blank : α → Bool} {s : List α} {i j k : ℕ} (h : BlankOn blank s i j)
    (h' : BlankOn blank s j k) : BlankOn blank s i k := by
  intro n x hn hn' hx
  rcases Nat.lt_or_ge n j with hlt | hge
  · exact h n x hn hlt hx
  · exact h' n x hge hn' hx

/-- A string of blanks standing at `i` makes its stretch blank. -/
theorem StandsAt.blankOn {blank : α → Bool} {s p : List α} {i : ℕ} (h : StandsAt s p i)
    (hp : ∀ x ∈ p, blank x = true) : BlankOn blank s i (i + p.length) := by
  intro n x hn hn' hx
  obtain ⟨m, rfl⟩ := Nat.exists_eq_add_of_le hn
  rw [h.getElem? (by omega)] at hx
  exact hp x (List.mem_of_getElem? hx)

/-! ### Stripping -/

variable (blank : α → Bool)

/-- `s.lstrip()`. -/
def lstrip (s : List α) : List α := s.dropWhile blank

/-- `s.strip()`. -/
def strip (s : List α) : List α := (lstrip blank s).rdropWhile blank

/-- `len(s) - len(s.lstrip())`: how far stripping moves the start of `s`. -/
def lead (s : List α) : ℕ := s.length - (lstrip blank s).length

theorem takeWhile_append_lstrip (s : List α) : s.takeWhile blank ++ lstrip blank s = s :=
  List.takeWhile_append_dropWhile

theorem lead_eq_length_takeWhile (s : List α) : lead blank s = (s.takeWhile blank).length := by
  have h := congrArg List.length (takeWhile_append_lstrip blank s)
  rw [List.length_append] at h
  unfold lead
  omega

/-- The stripped string stands in the string at `lead`. -/
theorem standsAt_strip (s : List α) : StandsAt s (strip blank s) (lead blank s) := by
  have hl : s.drop (lead blank s) = lstrip blank s := by
    have h := @List.drop_left _ (s.takeWhile blank) (lstrip blank s)
    rwa [takeWhile_append_lstrip, ← lead_eq_length_takeWhile] at h
  rw [StandsAt, hl]
  exact List.rdropWhile_prefix _ _

theorem length_strip_le (s : List α) : lead blank s + (strip blank s).length ≤ s.length := by
  have h₁ : (strip blank s).length ≤ (lstrip blank s).length :=
    (List.rdropWhile_prefix blank (lstrip blank s)).length_le
  have h₂ : (lstrip blank s).length ≤ s.length := (List.dropWhile_suffix blank).length_le
  unfold lead
  omega

/-- Stripping at the front removes blanks only. -/
theorem blankOn_lead (s : List α) : BlankOn blank s 0 (lead blank s) := by
  have h : StandsAt s (s.takeWhile blank) 0 := standsAt_zero (List.takeWhile_prefix blank)
  have hb := h.blankOn fun x (hx : x ∈ s.takeWhile blank) => List.mem_takeWhile_imp hx
  rwa [Nat.zero_add, ← lead_eq_length_takeWhile] at hb

/-- Stripping at the back removes blanks only. -/
theorem blankOn_tail (s : List α) :
    BlankOn blank s (lead blank s + (strip blank s).length) s.length := by
  have hs : strip blank s ++ (lstrip blank s).rtakeWhile blank = lstrip blank s :=
    List.rdropWhile_append_rtakeWhile ..
  have hst : StandsAt s ((lstrip blank s).rtakeWhile blank)
      (lead blank s + (strip blank s).length) := by
    have hcut : s = s.takeWhile blank ++ strip blank s ++ (lstrip blank s).rtakeWhile blank := by
      rw [List.append_assoc, hs, takeWhile_append_lstrip]
    have := standsAt_append (s.takeWhile blank ++ strip blank s)
      ((lstrip blank s).rtakeWhile blank) []
    rwa [List.append_nil, ← hcut, List.length_append, ← lead_eq_length_takeWhile] at this
  have hlen : (strip blank s).length + ((lstrip blank s).rtakeWhile blank).length
      = (lstrip blank s).length := by rw [← List.length_append, hs]
  have hle : (lstrip blank s).length ≤ s.length := (List.dropWhile_suffix blank).length_le
  have hb := hst.blankOn fun x hx => List.mem_rtakeWhile_imp hx
  exact hb.mono le_rfl (by unfold lead; omega)

/-- **Stripping keeps every character that is not blank.** -/
theorem mem_strip_span {s : List α} {n : ℕ} {x : α} (hx : s[n]? = some x)
    (hb : blank x = false) : lead blank s ≤ n ∧ n < lead blank s + (strip blank s).length := by
  constructor
  · by_contra hlt
    have := blankOn_lead blank s n x (Nat.zero_le n) (by omega) hx
    simp [hb] at this
  · by_contra hge
    have hn : n < s.length := (List.getElem?_eq_some_iff.mp hx).1
    have := blankOn_tail blank s n x (by omega) hn hx
    simp [hb] at this

/-- A string strips to nothing exactly when it is blank. -/
theorem strip_eq_nil_iff {s : List α} : strip blank s = [] ↔ ∀ x ∈ s, blank x = true := by
  constructor
  · intro h x hx
    obtain ⟨n, hn⟩ := List.mem_iff_getElem?.mp hx
    by_contra hb
    have := mem_strip_span blank hn (by simpa using hb)
    rw [h] at this
    simp at this
    omega
  · intro h
    rw [strip, lstrip, List.dropWhile_eq_nil_iff.mpr h]
    rfl

/-- A string that starts and ends with a character that is not blank, as every
stripped string does. -/
def Stripped (s : List α) : Prop :=
  (∀ x, s.head? = some x → blank x = false) ∧ ∀ x, s.getLast? = some x → blank x = false

theorem stripped_strip (s : List α) : Stripped blank (strip blank s) := by
  constructor
  · intro x hx
    have hp : strip blank s <+: lstrip blank s := List.rdropWhile_prefix _ _
    have hl : (lstrip blank s).head? = some x := by
      obtain ⟨t, ht⟩ := hp
      rw [← ht, List.head?_append, hx]
      rfl
    have := List.head?_dropWhile_not blank s
    rw [show s.dropWhile blank = lstrip blank s from rfl, hl] at this
    simpa using this
  · intro x hx
    have hne : strip blank s ≠ [] := by rintro h; simp [h] at hx
    rw [List.getLast?_eq_some_getLast hne] at hx
    obtain rfl := Option.some.inj hx
    exact Bool.eq_false_iff.mpr (List.rdropWhile_last_not blank (lstrip blank s) hne)

/-! ### Searching -/

variable [DecidableEq α]

/-- `s.find(p, start)`: the least offset from `start` on at which `p` stands, if
there is one (the source's `-1` is `none`). -/
def find (s p : List α) (start : ℕ) : Option ℕ :=
  (List.range (s.length + 1)).find? fun i => decide (start ≤ i) && decide (StandsAt s p i)

/-- `s.rfind(p)`: the greatest offset at which `p` stands, if there is one. -/
def rfind (s p : List α) : Option ℕ :=
  (List.range (s.length + 1)).reverse.find? fun i => decide (StandsAt s p i)

theorem find_eq_some_iff {s p : List α} {start i : ℕ} :
    find s p start = some i ↔
      start ≤ i ∧ i ≤ s.length ∧ StandsAt s p i ∧ ∀ j, start ≤ j → j < i → ¬ StandsAt s p j := by
  rw [find, List.find?_range_eq_some]
  simp only [Bool.and_eq_true, decide_eq_true_eq, List.mem_range, Nat.lt_succ_iff,
    Bool.not_eq_eq_eq_not, Bool.not_true, Bool.and_eq_false_iff, decide_eq_false_iff_not]
  constructor
  · rintro ⟨⟨h₁, h₂⟩, h₃, h₄⟩
    exact ⟨h₁, h₃, h₂, fun j hj hji => (h₄ j hji).resolve_left (not_not_intro hj)⟩
  · rintro ⟨h₁, h₃, h₂, h₄⟩
    refine ⟨⟨h₁, h₂⟩, h₃, fun j hji => ?_⟩
    by_cases hj : start ≤ j
    · exact Or.inr (h₄ j hj hji)
    · exact Or.inl hj

/-- What stands at an offset is found, there or before. -/
theorem exists_find_le {s p : List α} {start q : ℕ} (hs : start ≤ q) (hq : q ≤ s.length)
    (h : StandsAt s p q) : ∃ i, find s p start = some i ∧ start ≤ i ∧ i ≤ q ∧ StandsAt s p i := by
  cases hf : find s p start with
  | none =>
      rw [find, List.find?_eq_none] at hf
      have := hf q (List.mem_range.mpr (by omega))
      simp [hs, h] at this
  | some i =>
      obtain ⟨h₁, -, h₃, h₄⟩ := find_eq_some_iff.mp hf
      exact ⟨i, rfl, h₁, Nat.le_of_not_lt fun hlt => h₄ q hs hlt h, h₃⟩

/-- **A piece is found where it was cut.**  When only blanks lie between the
cursor and the offset of the piece, and the piece is not blank, no earlier
occurrence exists: it would put the piece's first character that is not blank
on a blank. -/
theorem find_eq_of_blankOn {s p : List α} {start q : ℕ} (hs : start ≤ q) (h : StandsAt s p q)
    (hblank : BlankOn blank s start q) (hp : strip blank p ≠ []) : find s p start = some q := by
  have hne : p ≠ [] := by rintro rfl; exact hp rfl
  have hq := h.add_le hne
  obtain ⟨i, hf, hsi, hiq, hi⟩ := exists_find_le hs (by omega) h
  obtain rfl | hlt := hiq.eq_or_lt
  · exact hf
  -- The first character of `p` that is not blank, at offset `m` in `p`.
  exfalso
  have hst := standsAt_strip blank p
  have hm : lead blank p < p.length := by
    have := hst.add_le hp
    have := List.length_pos_iff.mpr hp
    omega
  obtain ⟨x, hx⟩ : ∃ x, (strip blank p).head? = some x :=
    ⟨_, List.head?_eq_some_head hp⟩
  have hxb : blank x = false := (stripped_strip blank p).1 x hx
  have hxp : p[lead blank p]? = some x := by
    have := hst.getElem? (n := 0) (List.length_pos_iff.mpr hp)
    rwa [Nat.add_zero, ← List.head?_eq_getElem?, hx] at this
  have hxs : s[i + lead blank p]? = some x := by rw [hi.getElem? hm, hxp]
  rcases Nat.lt_or_ge (i + lead blank p) q with hl | hg
  · have := hblank _ x (by omega) hl hxs
    simp [hxb] at this
  · obtain ⟨m, hm'⟩ := Nat.exists_eq_add_of_le hg
    have hmp : p[m]? = some x := by rw [← h.getElem? (by omega), ← hm', hxs]
    have := blankOn_lead blank p m x (Nat.zero_le m) (by omega) hmp
    simp [hxb] at this

theorem rfind_eq_some {s p : List α} {i : ℕ} (h : rfind s p = some i) :
    StandsAt s p i ∧ i ≤ s.length := by
  have hi := List.mem_of_find?_eq_some h
  simp only [List.mem_reverse, List.mem_range, Nat.lt_succ_iff] at hi
  exact ⟨by simpa using List.find?_some h, hi⟩

/-- What stands at an offset is found from the back, there or later. -/
theorem exists_le_rfind {s p : List α} {q : ℕ} (hq : q ≤ s.length) (h : StandsAt s p q) :
    ∃ i, rfind s p = some i ∧ q ≤ i := by
  have hmem : q ∈ (List.range (s.length + 1)).reverse := by
    rw [List.mem_reverse, List.mem_range]
    omega
  cases hf : rfind s p with
  | none =>
      rw [rfind, List.find?_eq_none] at hf
      exact absurd (decide_eq_true h) (hf q hmem)
  | some i =>
      refine ⟨i, rfl, ?_⟩
      obtain ⟨-, before, after, heq, hbefore⟩ := List.find?_eq_some_iff_append.mp hf
      rw [heq] at hmem
      have hsorted : (before ++ i :: after).Pairwise fun a b => b < a := by
        rw [← heq, List.pairwise_reverse]
        exact List.pairwise_lt_range
      rcases List.mem_append.mp hmem with hq' | hq'
      · have hno := hbefore q hq'
        simp [h] at hno
      · rcases List.mem_cons.mp hq' with rfl | hq'
        · exact le_rfl
        · exact ((List.pairwise_cons.mp (List.pairwise_append.mp hsorted).2.1).1 q hq').le

end Text
end EvidenceLab
