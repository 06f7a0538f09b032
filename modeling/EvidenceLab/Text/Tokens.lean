/-
# Patterns that match no blanks

A token of a string is a stretch of it between blanks (`Token`).  A pattern none of whose
characters is blank (`Regex.Confined`) sees one token only: from a position in it, it matches what
it matches in the token on its own (`ends_token`), also where it looks ahead.  So what is found in
a string is what is found in its tokens (`mem_findTexts_iff`).
-/

import EvidenceLab.Text.Regex
import EvidenceLab.Text.Stretches

namespace EvidenceLab
namespace Text

open Regex

variable {α : Type*}

/-- No character of the pattern is blank. -/
def Regex.Confined (blank : α → Bool) : Regex α → Prop
  | one p => ∀ c, blank c = true → p c = false
  | empty => True
  | seq q r => Confined blank q ∧ Confined blank r
  | alt q r => Confined blank q ∧ Confined blank r
  | many r => Confined blank r
  | boundary => True
  | ahead r => Confined blank r

/-- The string `w` stands between `u` and `v` in `s`, with blanks or nothing around it and no
blanks in it. -/
structure Token (blank : α → Bool) (s u w v : List α) : Prop where
  eq : s = u ++ w ++ v
  before : ∀ c ∈ u.getLast?, blank c = true
  after : ∀ c ∈ v.head?, blank c = true
  solid : ∀ c ∈ w, blank c = false

variable {blank isWord : α → Bool} {s u w v : List α} {r : Regex α} {n j : ℕ}

/-- **Every position is at a token.** -/
theorem exists_token (blank : α → Bool) (s : List α) {i : ℕ} (hi : i ≤ s.length) :
    ∃ u w v, Token blank s u w v ∧ ∃ n ≤ w.length, i = u.length + n := by
  have hfront := List.rdropWhile_append_rtakeWhile (p := fun c => !blank c) (l := s.take i)
  have hback := List.takeWhile_append_dropWhile (p := fun c => !blank c) (l := s.drop i)
  refine ⟨(s.take i).rdropWhile fun c => !blank c,
    ((s.take i).rtakeWhile fun c => !blank c) ++ (s.drop i).takeWhile fun c => !blank c,
    (s.drop i).dropWhile fun c => !blank c, ⟨?_, ?_, ?_, ?_⟩,
    ((s.take i).rtakeWhile fun c => !blank c).length, ?_, ?_⟩
  · rw [← List.append_assoc, hfront, List.append_assoc, hback, List.take_append_drop]
  · intro c hc
    obtain ⟨hne, rfl⟩ := List.mem_getLast?_eq_getLast hc
    simpa using List.rdropWhile_last_not _ _ hne
  · intro c hc
    have hnot := List.head?_dropWhile_not (fun c => !blank c) (s.drop i)
    rw [Option.mem_def.mp hc] at hnot
    simpa using hnot
  · intro c hc
    rcases List.mem_append.mp hc with hc | hc
    · simpa using List.mem_rtakeWhile_imp hc
    · simpa using List.mem_takeWhile_imp hc
  · rw [List.length_append]
    exact Nat.le_add_right ..
  · rw [← List.length_append, hfront, List.length_take, Nat.min_eq_left hi]

/-- Stripping keeps the tokens. -/
theorem token_strip (hw : w ≠ []) :
    (∃ u v, Token blank (strip blank s) u w v) ↔ ∃ u v, Token blank s u w v := by
  constructor
  · rintro ⟨u, v, h⟩
    obtain ⟨front, back, hs, hfront, hback⟩ := exists_strip blank s
    refine ⟨front ++ u, v ++ back, ⟨?_, ?_, ?_, h.solid⟩⟩
    · conv_lhs => rw [hs, h.eq]
      simp only [List.append_assoc]
    · intro c hc
      rcases List.eq_nil_or_concat u with rfl | ⟨u', x, rfl⟩
      · rw [List.append_nil] at hc
        exact hfront c (List.mem_of_getLast? hc)
      · rw [List.getLast?_append_of_ne_nil _ (by simp)] at hc
        exact h.before c hc
    · intro c hc
      cases v with
      | nil => exact hback c (List.mem_of_head? hc)
      | cons x v => exact h.after c hc
  · rintro ⟨u, v, rfl, hbefore, hafter, hsolid⟩
    refine ⟨u.dropWhile blank, v.rdropWhile blank, ⟨strip_around hw hsolid, ?_, ?_, hsolid⟩⟩
    · intro c hc
      obtain ⟨front, hfront⟩ := List.dropWhile_suffix (p := blank) (l := u)
      refine hbefore c ?_
      rw [← hfront, List.getLast?_append_of_ne_nil _ (List.ne_nil_of_mem (List.mem_of_getLast? hc))]
      exact hc
    · intro c hc
      obtain ⟨back, hback⟩ := List.rdropWhile_prefix blank v
      refine hafter c ?_
      rw [← hback, List.head?_append, Option.mem_def.mp hc]
      rfl

/-! ### One token -/

section One

variable (h : Token blank s u w v)

include h

/-- A character that is not blank is found in the string where it is found in the token. -/
theorem holdsAt_token {p : α → Bool} (hp : ∀ c, blank c = true → p c = false) (hn : n ≤ w.length) :
    holdsAt s p (u.length + n) = holdsAt w p n := by
  rw [holdsAt, holdsAt, h.eq, List.append_assoc, List.getElem?_append_right (Nat.le_add_right ..),
    Nat.add_sub_cancel_left]
  rcases hn.eq_or_lt with rfl | hlt
  · rw [List.getElem?_append_right le_rfl, Nat.sub_self, List.getElem?_eq_none le_rfl,
      ← List.head?_eq_getElem?]
    cases hv : v.head? with
    | none => rfl
    | some c => exact hp c (h.after c hv)
  · rw [List.getElem?_append_left hlt]

/-- In front of the token there is a blank, or nothing. -/
theorem holdsAt_before_token {p : α → Bool} (hp : ∀ c, blank c = true → p c = false) :
    (decide (0 < u.length) && holdsAt s p (u.length - 1)) = false := by
  rcases List.eq_nil_or_concat u with rfl | ⟨u', c, rfl⟩
  · rfl
  · have hc := h.before c (by simp)
    rw [holdsAt, h.eq]
    simp [hp c hc]

theorem boundaryAt_token (hword : ∀ c, blank c = true → isWord c = false) (hn : n ≤ w.length) :
    boundaryAt isWord s (u.length + n) = boundaryAt isWord w n := by
  rw [boundaryAt, boundaryAt, holdsAt_token h hword hn]
  cases n with
  | zero =>
      rw [Nat.add_zero, holdsAt_before_token h hword]
      rfl
  | succ n =>
      have hpos : 0 < u.length + (n + 1) := by omega
      rw [Nat.add_sub_assoc (by omega), Nat.add_sub_cancel, holdsAt_token h hword (by omega),
        decide_eq_true hpos, decide_eq_true n.succ_pos]

end One

/-- A repetition that goes nowhere. -/
theorem repeated_self {step : ℕ → List ℕ} (hstep : ∀ k ∈ step n, k ≤ n) (fuel : ℕ) :
    repeated step fuel n = [n] := by
  cases fuel with
  | zero => rfl
  | succ fuel =>
      have hnil : (step n).filter (n < ·) = [] :=
        List.filter_eq_nil_iff.mpr fun k hk => by
          rw [decide_eq_true_eq]
          exact Nat.not_lt.mpr (hstep k hk)
      rw [repeated, hnil]
      rfl

/-- Repetitions of the same turns at another place. -/
theorem repeated_shift {step step' : ℕ → List ℕ} {a l : ℕ}
    (hshift : ∀ n ≤ l, step' (a + n) = (step n).map (a + ·)) (hle : ∀ n ≤ l, ∀ k ∈ step n, k ≤ l)
    {fuel fuel' : ℕ} (hn : n ≤ l) (hfuel : l ≤ fuel + n) (hfuel' : l ≤ fuel' + n) :
    repeated step' fuel' (a + n) = (repeated step fuel n).map (a + ·) := by
  have hend : ∀ fuel fuel', repeated step' fuel' (a + l) = (repeated step fuel l).map (a + ·) := by
    intro fuel fuel'
    rw [repeated_self (hle l le_rfl), repeated_self]
    · rfl
    · intro k hk
      rw [hshift l le_rfl] at hk
      obtain ⟨k', hk', rfl⟩ := List.mem_map.mp hk
      exact Nat.add_le_add_left (hle l le_rfl k' hk') a
  induction fuel generalizing n fuel' with
  | zero =>
      obtain rfl : n = l := by omega
      exact hend _ _
  | succ fuel ih =>
      rcases hn.eq_or_lt with rfl | hlt
      · exact hend _ _
      · obtain ⟨fuel', rfl⟩ : ∃ m, fuel' = m + 1 := ⟨fuel' - 1, by omega⟩
        have hfilter : ((step n).map (a + ·)).filter (a + n < ·) =
            ((step n).filter (n < ·)).map (a + ·) := by
          rw [List.filter_map]
          refine congrArg _ (List.filter_congr fun k _ => ?_)
          simp
        rw [repeated, repeated, hshift n hn, hfilter, List.map_append, List.flatMap_map,
          List.map_flatMap]
        refine congrArg (· ++ [a + n]) (List.flatMap_congr fun k hk => ?_)
        have hlt : n < k := of_decide_eq_true (List.mem_filter.mp hk).2
        exact ih (hle n hn k (List.mem_of_mem_filter hk)) (by omega) (by omega)

/-- **A pattern that matches no blanks sees the token alone.** -/
theorem ends_token (h : Token blank s u w v) (hword : ∀ c, blank c = true → isWord c = false)
    (hr : r.Confined blank) (hn : n ≤ w.length) :
    ends isWord s r (u.length + n) = (ends isWord w r n).map (u.length + ·) := by
  induction r generalizing n with
  | one p =>
      rw [ends, ends, holdsAt_token h hr hn]
      split_ifs <;> rfl
  | empty => rfl
  | seq q r ihq ihr =>
      rw [ends, ends, ihq hr.1 hn, List.flatMap_map, List.map_flatMap]
      exact List.flatMap_congr fun k hk => ihr hr.2 (le_length_of_mem_ends hk hn)
  | alt q r ihq ihr => rw [ends, ends, ihq hr.1 hn, ihr hr.2 hn, List.map_append]
  | many r ih =>
      have hlength := congrArg List.length h.eq
      simp only [List.length_append] at hlength
      exact repeated_shift (fun n hn => ih hr hn) (fun n hn k hk => le_length_of_mem_ends hk hn) hn
        (by omega) (by omega)
  | boundary =>
      rw [ends, ends, boundaryAt_token h hword hn]
      split_ifs <;> rfl
  | ahead r ih =>
      rw [ends, ends]
      simp only [ih hr hn, List.map_eq_nil_iff]
      split_ifs <;> rfl

theorem matchAt_token (h : Token blank s u w v) (hword : ∀ c, blank c = true → isWord c = false)
    (hr : r.Confined blank) (hn : n ≤ w.length) :
    matchAt isWord s r (u.length + n) = (matchAt isWord w r n).map (u.length + ·) := by
  rw [matchAt, ends_token h hword hr hn, List.head?_map, matchAt]

/-- What a pattern matches holds no blanks. -/
theorem run_of_mem_ends {i : ℕ} (hr : r.Confined blank) (h : j ∈ ends isWord s r i) :
    Run (fun c => !blank c) s i j := by
  induction r generalizing i j with
  | one p =>
      rw [ends] at h
      split_ifs at h with hp
      · obtain ⟨x, hx, hpx⟩ := holdsAt_iff.mp hp
        have hsolid : holdsAt s (fun c => !blank c) i = true := by
          refine holdsAt_iff.mpr ⟨x, hx, ?_⟩
          by_contra hblank
          rw [hr x (by simpa using hblank)] at hpx
          cases hpx
        rw [List.mem_singleton.mp h, run_cons hsolid]
        exact Or.inr (Run.refl ..)
      · cases h
  | empty => exact List.mem_singleton.mp h ▸ Run.refl ..
  | seq q r ihq ihr =>
      obtain ⟨k, hk, hj⟩ := List.mem_flatMap.mp h
      exact (ihq hr.1 hk).trans (ihr hr.2 hj)
  | alt q r ihq ihr => exact (List.mem_append.mp h).elim (ihq hr.1) (ihr hr.2)
  | many r ih =>
      rw [ends] at h
      have hrepeated : ∀ fuel i j, j ∈ repeated (ends isWord s r) fuel i →
          Run (fun c => !blank c) s i j := by
        intro fuel
        induction fuel with
        | zero => exact fun i j hj => List.mem_singleton.mp hj ▸ Run.refl ..
        | succ fuel ih' =>
            intro i j hj
            rw [repeated, List.mem_append, List.mem_flatMap, List.mem_singleton] at hj
            rcases hj with ⟨k, hk, hj⟩ | rfl
            · exact (ih hr (List.mem_of_mem_filter hk)).trans (ih' k j hj)
            · exact Run.refl ..
      exact hrepeated _ _ _ h
  | boundary =>
      rw [ends] at h
      split_ifs at h
      · exact List.mem_singleton.mp h ▸ Run.refl ..
      · cases h
  | ahead r ih =>
      rw [ends] at h
      split_ifs at h
      · cases h
      · exact List.mem_singleton.mp h ▸ Run.refl ..

/-! ### All matches -/

/-- A match that starts in front of a token ends there. -/
theorem le_length_of_before (h : Token blank s u w v) (hr : r.Confined blank) {i : ℕ}
    (hi : i < u.length) (hj : j ∈ ends isWord s r i) : j ≤ u.length := by
  by_contra hlt
  have hsolid := (run_of_mem_ends hr hj).2 (u.length - 1) (by omega) (by omega)
  have hblank := holdsAt_before_token h (p := fun c => !blank c) (by simp)
  rw [decide_eq_true (by omega : 0 < u.length), hsolid] at hblank
  cases hblank

/-- **The matches of a token are found in it, and no others there.** -/
theorem mem_findAll_token (h : Token blank s u w v)
    (hword : ∀ c, blank c = true → isWord c = false) (hr : r.Confined blank) (hn : n ≤ w.length) :
    (u.length + n, u.length + j) ∈ findAll isWord r s ↔ (n, j) ∈ findAll isWord r w := by
  have hlength := congrArg List.length h.eq
  simp only [List.length_append] at hlength
  induction n using Nat.strong_induction_on generalizing j with
  | _ n ih =>
      have hmatch : matchAt isWord s r (u.length + n) = some (u.length + j) ↔
          matchAt isWord w r n = some j := by
        rw [matchAt_token h hword hr hn, Option.map_eq_some_iff]
        constructor
        · rintro ⟨k, hk, heq⟩
          rwa [← Nat.add_left_cancel heq]
        · exact fun hj => ⟨j, hj, rfl⟩
      rw [mem_findAll_iff, mem_findAll_iff, hmatch]
      refine and_congr (iff_of_true (by omega) hn) (and_congr_right fun _ => ?_)
      constructor
      · intro hfirst m hm hlt
        have := hfirst (u.length + m.1, u.length + m.2) ((ih m.1 hlt (by omega)).mpr hm) (by omega)
        omega
      · intro hfirst m hm hlt
        obtain ⟨-, hfound⟩ := of_mem_scan hm
        rcases Nat.lt_or_ge m.1 u.length with hbefore | hin
        · have := le_length_of_before h hr hbefore (List.mem_of_head? hfound)
          omega
        · obtain ⟨n', hn'⟩ := Nat.exists_eq_add_of_le hin
          rw [hn', matchAt_token h hword hr (by omega), Option.map_eq_some_iff] at hfound
          obtain ⟨j', -, hj'⟩ := hfound
          have hm' := (ih n' (by omega) (by omega)).mp (show (u.length + n', u.length + j') ∈ _ by
            rw [← hn', hj']
            exact hm)
          have := hfirst (n', j') hm' (by omega)
          omega

/-- **What is found in a string is what is found in its tokens.** -/
theorem mem_findTexts_iff (hword : ∀ c, blank c = true → isWord c = false)
    (hr : r.Confined blank) {t : List α} : t ∈ findTexts isWord r s ↔
      ∃ u w v, Token blank s u w v ∧ t ∈ findTexts isWord r w := by
  have hslice : ∀ {u w v : List α}, Token blank s u w v → ∀ n j, j ≤ w.length →
      slice s (u.length + n) (u.length + j) = slice w n j := by
    intro u w v h n j hj
    rw [slice, h.eq, List.append_assoc, List.drop_length_add_append, Nat.add_sub_add_left]
    exact slice_append v n hj
  constructor
  · intro ht
    obtain ⟨m, hm, rfl⟩ := List.mem_map.mp ht
    obtain ⟨hi, hmatch, -⟩ := mem_findAll_iff.mp hm
    obtain ⟨u, w, v, h, n, hn, heq⟩ := exists_token blank s hi
    rw [heq, matchAt_token h hword hr hn, Option.map_eq_some_iff] at hmatch
    obtain ⟨j, hj, hmj⟩ := hmatch
    have hle := le_length_of_mem_ends (List.mem_of_head? hj) hn
    refine ⟨u, w, v, h, List.mem_map.mpr ⟨(n, j), (mem_findAll_token h hword hr hn).mp ?_, ?_⟩⟩
    · rw [← heq, hmj]
      exact hm
    · rw [heq, ← hmj]
      exact (hslice h n j hle).symm
  · rintro ⟨u, w, v, h, ht⟩
    obtain ⟨m, hm, rfl⟩ := List.mem_map.mp ht
    obtain ⟨hn, hmatch, -⟩ := mem_findAll_iff.mp hm
    have hle := le_length_of_mem_ends (List.mem_of_head? hmatch) hn
    exact List.mem_map.mpr ⟨(u.length + m.1, u.length + m.2),
      (mem_findAll_token h hword hr hn).mpr hm, hslice h _ _ hle⟩

/-! ### From the first word character to the last -/

section Core

variable (isWord : α → Bool) (w : List α)

/-- A string without what stands in front of its first word character or behind its last. -/
def core : List α := strip (fun c => !isWord c) w

/-- Where the first word character is. -/
def coreStart : ℕ := lead (fun c => !isWord c) w

/-- Where the last word character ends. -/
def coreEnd : ℕ := coreStart isWord w + (core isWord w).length

/-- What stands behind the last word character. -/
def closing : List α := w.drop (coreEnd isWord w)

theorem coreEnd_le_length : coreEnd isWord w ≤ w.length := length_strip_le _ w

theorem standsAt_core : StandsAt w (core isWord w) (coreStart isWord w) := standsAt_strip _ w

theorem drop_coreStart : w.drop (coreStart isWord w) = core isWord w ++ closing isWord w := by
  obtain ⟨t, ht⟩ := standsAt_core isWord w
  have hdrop := congrArg (List.drop (core isWord w).length) ht
  rw [List.drop_drop, List.drop_left] at hdrop
  rw [closing, coreEnd, ← hdrop]
  exact ht.symm

theorem slice_core : slice w (coreStart isWord w) (coreEnd isWord w) = core isWord w :=
  standsAt_iff_slice.mp (standsAt_core isWord w)

variable {isWord w}

theorem isWord_of_head? {c : α} (h : (core isWord w).head? = some c) : isWord c = true := by
  simpa using (stripped_strip (fun c => !isWord c) w).1 c h

theorem isWord_of_getLast? {c : α} (h : (core isWord w).getLast? = some c) : isWord c = true := by
  simpa using (stripped_strip (fun c => !isWord c) w).2 c h

theorem core_bounds (h : holdsAt w isWord n = true) :
    coreStart isWord w ≤ n ∧ n < coreEnd isWord w := by
  obtain ⟨x, hx, hword⟩ := holdsAt_iff.mp h
  exact mem_strip_span _ hx (by simpa using hword)

/-- **The boundaries are at the first word character, behind the last, or between.** -/
theorem boundary_bounds (h : boundaryAt isWord w n = true) :
    coreStart isWord w ≤ n ∧ n ≤ coreEnd isWord w := by
  by_cases hat : holdsAt w isWord n = true
  · exact ⟨(core_bounds hat).1, (core_bounds hat).2.le⟩
  · rw [boundaryAt, Bool.eq_false_iff.mpr hat, bne_iff_ne, ne_eq, Bool.not_eq_false,
      Bool.and_eq_true, decide_eq_true_eq] at h
    have hbounds := core_bounds h.2
    omega

theorem word_not_mem_closing {c : α} (h : c ∈ closing isWord w) : isWord c = false := by
  obtain ⟨n, hn⟩ := List.mem_iff_getElem?.mp h
  rw [closing, List.getElem?_drop] at hn
  by_contra hword
  have := (core_bounds (holdsAt_iff.mpr ⟨c, hn, by simpa using hword⟩)).2
  omega

variable (hne : core isWord w ≠ [])

include hne

theorem boundaryAt_coreStart : boundaryAt isWord w (coreStart isWord w) = true := by
  have hfirst : holdsAt w isWord (coreStart isWord w) = true := by
    have hget := (standsAt_core isWord w).getElem? (List.length_pos_iff.mpr hne)
    rw [Nat.add_zero, ← List.head?_eq_getElem?, List.head?_eq_some_head hne] at hget
    exact holdsAt_iff.mpr ⟨_, hget, isWord_of_head? (List.head?_eq_some_head hne)⟩
  have hbefore : (decide (0 < coreStart isWord w) &&
      holdsAt w isWord (coreStart isWord w - 1)) = false := by
    rw [Bool.and_eq_false_iff, decide_eq_false_iff_not]
    by_contra hnot
    rw [not_or, not_not, Bool.not_eq_false] at hnot
    have := (core_bounds hnot.2).1
    omega
  rw [boundaryAt, hbefore, hfirst]
  rfl

theorem boundaryAt_coreEnd : boundaryAt isWord w (coreEnd isWord w) = true := by
  have hpos := List.length_pos_iff.mpr hne
  have hlast : holdsAt w isWord (coreEnd isWord w - 1) = true := by
    have hget := (standsAt_core isWord w).getElem? (Nat.sub_lt hpos Nat.one_pos)
    rw [← List.getLast?_eq_getElem?, List.getLast?_eq_some_getLast hne, ← Nat.add_sub_assoc hpos]
      at hget
    exact holdsAt_iff.mpr ⟨_, hget, isWord_of_getLast? (List.getLast?_eq_some_getLast hne)⟩
  have hat : holdsAt w isWord (coreEnd isWord w) = false := by
    by_contra hat
    exact absurd (core_bounds (by simpa using hat)).2 (lt_irrefl _)
  rw [boundaryAt, hat, hlast, decide_eq_true (by rw [coreEnd]; omega)]
  rfl

end Core

end Text
end EvidenceLab
