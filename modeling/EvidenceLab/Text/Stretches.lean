/-
# Stretches of blanks inside a string

A stretch of blanks has two sides (`Gap`), or it belongs to the front or the back that
stripping removes (`exists_strip`, `strip_eq`).  A split whose separators are blank cuts inside
such stretches only: what begins and ends with a character that is not blank and has no
separator in it stays in one piece (`Cut.exists_mem`), and if nothing else is in the string,
then it is all that its pieces leave when they are stripped (`Cut.stripped_pieces`).
-/

import EvidenceLab.Text.Split
import Mathlib.Algebra.Ring.Nat

namespace EvidenceLab
namespace Text

variable {α : Type*} {blank : α → Bool}

/-! ### Blanks at the ends -/

theorem exists_first_solid {s : List α} (h : ∃ x ∈ s, blank x = false) :
    ∃ front x back, s = front ++ x :: back ∧ blank x = false ∧ ∀ c ∈ front, blank c = true := by
  induction s with
  | nil =>
      obtain ⟨x, hx, -⟩ := h
      cases hx
  | cons c s ih =>
      by_cases hc : blank c = true
      · obtain ⟨x, hx, hsolid⟩ := h
        have hxs : x ∈ s := (List.mem_cons.mp hx).resolve_left fun heq => by
          rw [heq, hc] at hsolid
          cases hsolid
        obtain ⟨front, y, back, rfl, hy, hfront⟩ := ih ⟨x, hxs, hsolid⟩
        exact ⟨c :: front, y, back, rfl, hy, List.forall_mem_cons.mpr ⟨hc, hfront⟩⟩
      · exact ⟨[], c, s, rfl, Bool.eq_false_iff.mpr hc, fun _ h => absurd h List.not_mem_nil⟩

theorem exists_last_solid {s : List α} (h : ∃ x ∈ s, blank x = false) :
    ∃ front x back, s = front ++ x :: back ∧ blank x = false ∧ ∀ c ∈ back, blank c = true := by
  obtain ⟨x, hx, hsolid⟩ := h
  obtain ⟨front, y, back, hrev, hy, hfront⟩ :=
    exists_first_solid (s := s.reverse) ⟨x, List.mem_reverse.mpr hx, hsolid⟩
  refine ⟨back.reverse, y, front.reverse, ?_, hy, fun c hc => hfront c (List.mem_reverse.mp hc)⟩
  have := congrArg List.reverse hrev
  simpa using this

/-- A string is what stripping leaves, between blanks. -/
theorem exists_strip (blank : α → Bool) (s : List α) : ∃ front back,
    s = front ++ strip blank s ++ back ∧ (∀ c ∈ front, blank c = true) ∧
      ∀ c ∈ back, blank c = true := by
  refine ⟨s.takeWhile blank, (lstrip blank s).rtakeWhile blank, ?_,
    fun c hc => List.mem_takeWhile_imp hc, fun c hc => List.mem_rtakeWhile_imp hc⟩
  rw [List.append_assoc, strip, List.rdropWhile_append_rtakeWhile, takeWhile_append_lstrip]

/-- What is stripped is part of the string. -/
theorem strip_isInfix (blank : α → Bool) (s : List α) : strip blank s <:+: s := by
  obtain ⟨front, back, hs, -, -⟩ := exists_strip blank s
  exact ⟨front, back, hs.symm⟩

/-- **Stripping removes the blanks at the ends**, and stops at what is not blank. -/
theorem strip_eq {front s back : List α} (hfront : ∀ c ∈ front, blank c = true)
    (hback : ∀ c ∈ back, blank c = true) (hs : Stripped blank s) :
    strip blank (front ++ s ++ back) = s := by
  rw [strip, lstrip, List.append_assoc, List.dropWhile_append_of_pos hfront]
  rcases eq_or_ne s [] with rfl | hne
  · rw [List.nil_append, List.dropWhile_eq_nil_iff.mpr hback]
    rfl
  · have hhead : (s ++ back).dropWhile blank = s ++ back := by
      obtain ⟨x, s', rfl⟩ := List.exists_cons_of_ne_nil hne
      rw [List.cons_append, List.dropWhile_cons_of_neg (by simp [hs.1 x rfl])]
    have hlast : blank (s.getLast hne) = false := hs.2 _ (List.getLast?_eq_some_getLast hne)
    rw [hhead, List.rdropWhile, List.reverse_append,
      List.dropWhile_append_of_pos fun c hc => hback c (List.mem_reverse.mp hc)]
    obtain ⟨x, s', hrev⟩ := List.exists_cons_of_ne_nil (List.reverse_ne_nil_iff.mpr hne)
    have hx : blank x = false := by
      rw [← hlast, ← List.head_reverse (List.reverse_ne_nil_iff.mpr hne)]
      simp only [hrev, List.head_cons]
    rw [hrev, List.dropWhile_cons_of_neg (by simp [hx]), ← hrev, List.reverse_reverse]

/-- What is left around a string without blanks, when its neighbours are cleared of theirs. -/
theorem stripped_around {u w v : List α} (hw : w ≠ []) (hsolid : ∀ c ∈ w, blank c = false) :
    Stripped blank (u.dropWhile blank ++ w ++ v.rdropWhile blank) := by
  constructor
  · intro c hc
    cases hd : u.dropWhile blank with
    | nil =>
        obtain ⟨x, w, rfl⟩ := List.exists_cons_of_ne_nil hw
        rw [hd] at hc
        exact Option.some.inj hc ▸ hsolid x (List.mem_cons_self ..)
    | cons x u' =>
        have hnot := List.head?_dropWhile_not blank u
        rw [hd] at hc hnot
        exact Option.some.inj hc ▸ hnot
  · intro c hc
    rcases eq_or_ne (v.rdropWhile blank) [] with hnil | hne
    · rw [hnil, List.append_nil, List.getLast?_append_of_ne_nil _ hw] at hc
      exact hsolid c (List.mem_of_getLast? hc)
    · rw [List.getLast?_append_of_ne_nil _ hne] at hc
      obtain ⟨hne', rfl⟩ := List.mem_getLast?_eq_getLast hc
      exact Bool.eq_false_iff.mpr (List.rdropWhile_last_not _ _ hne')

/-- **Stripping around a string without blanks** strips what is before it and what is behind. -/
theorem strip_around {u w v : List α} (hw : w ≠ []) (hsolid : ∀ c ∈ w, blank c = false) :
    strip blank (u ++ w ++ v) = u.dropWhile blank ++ w ++ v.rdropWhile blank := by
  have hu := List.takeWhile_append_dropWhile (p := blank) (l := u)
  have hv := List.rdropWhile_append_rtakeWhile (p := blank) (l := v)
  have hcut : u ++ w ++ v = u.takeWhile blank ++
      (u.dropWhile blank ++ w ++ v.rdropWhile blank) ++ v.rtakeWhile blank := by
    conv_lhs => rw [← hu, ← hv]
    simp only [List.append_assoc]
  rw [hcut]
  exact strip_eq (fun c (hc : c ∈ u.takeWhile blank) => List.mem_takeWhile_imp hc)
    (fun c (hc : c ∈ v.rtakeWhile blank) => List.mem_rtakeWhile_imp hc)
    (stripped_around hw hsolid)

/-- A stretch of blanks between two characters that are not blank. -/
def Gap (blank : α → Bool) (s run : List α) : Prop :=
  (∀ c ∈ run, blank c = true) ∧
    ∃ x y, blank x = false ∧ blank y = false ∧ (x :: run ++ [y]) <:+: s

/-- Blanks inside a stripped string belong to a gap. -/
theorem exists_gap {s mid : List α} (hs : Stripped blank s) (hmid : mid ≠ [])
    (hblank : ∀ c ∈ mid, blank c = true) (h : mid <:+: s) :
    ∃ run, Gap blank s run ∧ mid <:+: run := by
  obtain ⟨u, v, rfl⟩ := h
  obtain ⟨c, mid', rfl⟩ := List.exists_cons_of_ne_nil hmid
  have hu : ∃ x ∈ u, blank x = false := by
    cases u with
    | nil =>
        have hc := hs.1 c rfl
        rw [hblank c (List.mem_cons_self ..)] at hc
        cases hc
    | cons x u => exact ⟨x, List.mem_cons_self .., hs.1 x rfl⟩
  have hv : ∃ x ∈ v, blank x = false := by
    rcases eq_or_ne v [] with rfl | hne
    · have hlast := hs.2 ((c :: mid').getLast hmid) (by
        rw [List.append_nil, List.getLast?_append_of_ne_nil _ hmid,
          List.getLast?_eq_some_getLast hmid])
      rw [hblank _ (List.getLast_mem hmid)] at hlast
      cases hlast
    · refine ⟨v.getLast hne, List.getLast_mem hne, hs.2 _ ?_⟩
      rw [List.getLast?_append_of_ne_nil _ hne, List.getLast?_eq_some_getLast hne]
  obtain ⟨front, x, w, rfl, hx, hw⟩ := exists_last_solid hu
  obtain ⟨w', y, back, rfl, hy, hw'⟩ := exists_first_solid hv
  refine ⟨w ++ (c :: mid') ++ w', ⟨?_, x, y, hx, hy, front, back, by simp⟩, w, w', rfl⟩
  intro d hd
  rcases List.mem_append.mp hd with hd | hd
  · exact (List.mem_append.mp hd).elim (hw d) (hblank d)
  · exact hw' d hd

/-- Blanks between two characters that are not blank lie in the stretch. -/
theorem infix_of_blank {run mid : List α} {x y : α} (hx : blank x = false) (hy : blank y = false)
    (hne : mid ≠ []) (hblank : ∀ c ∈ mid, blank c = true) (h : mid <:+: x :: run ++ [y]) :
    mid <:+: run := by
  obtain ⟨u, v, heq⟩ := h
  have hmem : ∀ c ∈ mid, c ≠ x ∧ c ≠ y := by
    intro c hc
    have hb := hblank c hc
    refine ⟨?_, ?_⟩
    · rintro rfl
      rw [hx] at hb
      cases hb
    · rintro rfl
      rw [hy] at hb
      cases hb
  rcases List.eq_nil_or_concat v with rfl | ⟨v, y', rfl⟩
  · have hlast := congrArg List.getLast? heq
    rw [List.append_nil, List.getLast?_concat, List.getLast?_append_of_ne_nil _ hne] at hlast
    exact absurd rfl (hmem y (List.mem_of_getLast? hlast)).2
  · rw [List.concat_eq_append, ← List.append_assoc] at heq
    have hfront := (List.append_inj' heq rfl).1
    cases u with
    | nil =>
        obtain ⟨c, mid, rfl⟩ := List.exists_cons_of_ne_nil hne
        exact absurd (List.cons.inj hfront).1 (hmem c (List.mem_cons_self ..)).1
    | cons x' u => exact ⟨u, v, (List.cons.inj hfront).2⟩

/-- **Stripping keeps what begins and ends with a character that is not blank.** -/
theorem infix_strip {s mid : List α} (hne : mid ≠ []) (hmid : Stripped blank mid)
    (h : mid <:+: s) : mid <:+: strip blank s := by
  obtain ⟨u, v, rfl⟩ := h
  have hpos := List.length_pos_iff.mpr hne
  have hstands := standsAt_append u mid v
  have hfirst : (u ++ mid ++ v)[u.length]? = some (mid.head hne) := by
    have := hstands.getElem? (n := 0) hpos
    rw [Nat.add_zero] at this
    rw [this, ← List.head?_eq_getElem?, List.head?_eq_some_head]
  have hlast : (u ++ mid ++ v)[u.length + (mid.length - 1)]? = some (mid.getLast hne) := by
    rw [hstands.getElem? (by omega), ← List.getLast?_eq_getElem?, List.getLast?_eq_some_getLast]
  have hlead := (mem_strip_span blank hfirst (hmid.1 _ (List.head?_eq_some_head hne))).1
  have hend := (mem_strip_span blank hlast (hmid.2 _ (List.getLast?_eq_some_getLast hne))).2
  obtain ⟨n, hn⟩ := Nat.exists_eq_add_of_le hlead
  rw [hn] at hstands
  have hin := hstands.slice (j := lead blank (u ++ mid ++ v) + (strip blank (u ++ mid ++ v)).length)
    (by omega)
  rw [standsAt_iff_slice.mp (standsAt_strip blank _)] at hin
  exact List.IsInfix.trans (List.IsPrefix.isInfix hin) (List.drop_suffix n _).isInfix

/-! ### Cutting at blanks -/

variable {Sep : List α → Prop}

/-- The characters that are not blank. -/
def solid (blank : α → Bool) (s : List α) : List α := s.filter fun c => !blank c

theorem solid_eq_nil_iff {s : List α} : solid blank s = [] ↔ ∀ c ∈ s, blank c = true := by
  simp [solid]

theorem solid_append (s t : List α) : solid blank (s ++ t) = solid blank s ++ solid blank t :=
  List.filter_append ..

/-- Cutting at blanks keeps what is not blank. -/
theorem Cut.flatMap_solid (hblank : ∀ sep, Sep sep → ∀ c ∈ sep, blank c = true) {s : List α}
    {ps : List (List α)} (h : Cut Sep s ps) : ps.flatMap (solid blank) = solid blank s := by
  induction h with
  | last p => exact List.flatMap_singleton ..
  | cons p hsep _ ih =>
      rw [List.flatMap_cons, ih, solid_append, solid_append,
        solid_eq_nil_iff.mpr (hblank _ hsep), List.append_nil]

/-- A piece stands in what is cut. -/
theorem Cut.infix_of_mem {s p : List α} {ps : List (List α)} (h : Cut Sep s ps) (hp : p ∈ ps) :
    p <:+: s := by
  induction h with
  | last q => exact List.mem_singleton.mp hp ▸ List.infix_rfl
  | @cons q sep s ps _ _ ih =>
      rcases List.mem_cons.mp hp with rfl | hp
      · exact ⟨[], sep ++ s, by rw [List.nil_append, List.append_assoc]⟩
      · exact (ih hp).trans (List.suffix_append _ _).isInfix

/-- The pieces of a cut are together no longer than what is cut. -/
theorem Cut.sum_length_le {s : List α} {ps : List (List α)}
    (h : Cut Sep s ps) : (ps.map List.length).sum ≤ s.length := by
  induction h with
  | last p =>
      rw [List.map_singleton, List.sum_singleton]
  | cons p _ _ ih =>
      simp only [List.map_cons, List.sum_cons, List.length_append]
      omega

/-- **A cut does not fall into a string without a separator**, if its ends are not blank. -/
theorem Cut.exists_mem (hblank : ∀ sep, Sep sep → ∀ c ∈ sep, blank c = true) {s mid : List α}
    {ps : List (List α)} (h : Cut Sep s ps) (hne : mid ≠ []) (hmid : Stripped blank mid)
    (hno : ∀ sep, Sep sep → ¬ sep <:+: mid) (hin : mid <:+: s) : ∃ p ∈ ps, mid <:+: p := by
  induction h with
  | last p => exact ⟨p, List.mem_singleton_self p, hin⟩
  | @cons p sep s ps hsep _ ih =>
      obtain ⟨u, v, heq⟩ := hin
      rw [List.append_assoc, List.append_assoc] at heq
      rcases List.append_eq_append_iff.mp heq with ⟨w, hp, hmid'⟩ | ⟨w, hu, hrest⟩
      · -- It starts inside the piece.
        rcases List.append_eq_append_iff.mp hmid' with ⟨w', hw, -⟩ | ⟨w', hw, hsep'⟩
        · exact ⟨p, List.mem_cons_self .., u, w', by rw [hp, hw, List.append_assoc]⟩
        · rcases eq_or_ne w' [] with rfl | hw'
          · rw [List.append_nil] at hw
            exact ⟨p, List.mem_cons_self .., u, [], by rw [hp, hw, List.append_nil]⟩
          -- Its end lies in the separator, or behind it.
          exfalso
          rcases List.append_eq_append_iff.mp hsep' with ⟨w'', hcut, -⟩ | ⟨w'', hcut, -⟩
          · exact hno sep hsep ⟨w, w'', by rw [hw, hcut, List.append_assoc]⟩
          · have hlast := hmid.2 (w'.getLast hw') (by
              rw [hw, List.getLast?_append_of_ne_nil _ hw', List.getLast?_eq_some_getLast hw'])
            rw [hblank sep hsep _ (hcut ▸ List.mem_append_left _ (List.getLast_mem hw'))] at hlast
            cases hlast
      · -- It starts behind the piece.
        have hlater : mid <:+: s := by
          rcases List.append_eq_append_iff.mp hrest with ⟨w', hw, hs⟩ | ⟨w', hw, hs⟩
          · exact ⟨w', v, by rw [List.append_assoc, ← hs]⟩
          · rcases eq_or_ne w' [] with rfl | hw'
            · exact ⟨[], v, hs⟩
            · exfalso
              obtain ⟨x, mid', rfl⟩ := List.exists_cons_of_ne_nil hne
              obtain ⟨x', w'', rfl⟩ := List.exists_cons_of_ne_nil hw'
              obtain rfl : x = x' := (List.cons.inj hs).1
              have hx := hmid.1 x rfl
              rw [hblank sep hsep x (hw ▸ List.mem_append_right _ (List.mem_cons_self ..))] at hx
              cases hx
        obtain ⟨q, hq, hin⟩ := ih hlater
        exact ⟨q, List.mem_cons_of_mem _ hq, hin⟩

/-- Blank pieces leave nothing when they are stripped. -/
theorem stripped_eq_nil [DecidableEq α] {ps : List (List α)}
    (h : ps.flatMap (solid blank) = []) : (ps.map (strip blank)).filter (· ≠ []) = [] := by
  refine List.filter_eq_nil_iff.mpr ?_
  intro q hq
  obtain ⟨p, hp, rfl⟩ := List.mem_map.mp hq
  have hp := solid_eq_nil_iff.mp (List.flatMap_eq_nil_iff.mp h p hp)
  simp [(strip_eq_nil_iff blank).mpr hp]

/-- **What is left of a string that is not cut**: the one piece that it lies in, stripped. -/
theorem Cut.stripped_pieces [DecidableEq α]
    (hblank : ∀ sep, Sep sep → ∀ c ∈ sep, blank c = true) {s : List α}
    {ps : List (List α)} (h : Cut Sep s ps) (hne : strip blank s ≠ [])
    (hno : ∀ sep, Sep sep → ¬ sep <:+: strip blank s) :
    (ps.map (strip blank)).filter (· ≠ []) = [strip blank s] := by
  obtain ⟨front, back, hs, hfront, hback⟩ := exists_strip blank s
  obtain ⟨p, hp, u, v, rfl⟩ := h.exists_mem hblank hne (stripped_strip blank s) hno
    ⟨front, back, hs.symm⟩
  obtain ⟨qs, rs, rfl⟩ := List.append_of_mem hp
  have hsolid := h.flatMap_solid hblank
  -- Nothing but blanks lies outside the stripped string.
  have hlength := congrArg List.length hsolid
  have hall : (solid blank s).length = (solid blank (strip blank s)).length := by
    conv_lhs => rw [hs]
    rw [solid_append, solid_append, solid_eq_nil_iff.mpr hfront, solid_eq_nil_iff.mpr hback]
    simp
  rw [hall, List.flatMap_append, List.flatMap_cons, solid_append, solid_append] at hlength
  simp only [List.length_append] at hlength
  have hnil : ∀ s : List α, (solid blank s).length = 0 → ∀ c ∈ s, blank c = true :=
    fun s hs => solid_eq_nil_iff.mp (List.length_eq_zero_iff.mp hs)
  rw [List.map_append, List.filter_append, List.map_cons,
    strip_eq (hnil u (by omega)) (hnil v (by omega)) (stripped_strip blank s), List.filter_cons,
    stripped_eq_nil (List.length_eq_zero_iff.mp (by omega : (qs.flatMap (solid blank)).length = 0)),
    stripped_eq_nil (List.length_eq_zero_iff.mp (by omega : (rs.flatMap (solid blank)).length = 0)),
    if_pos (decide_eq_true hne), List.nil_append]

/-- Nothing is left of a blank string. -/
theorem Cut.stripped_pieces_nil [DecidableEq α]
    (hblank : ∀ sep, Sep sep → ∀ c ∈ sep, blank c = true) {s : List α}
    {ps : List (List α)} (h : Cut Sep s ps) (hs : strip blank s = []) :
    (ps.map (strip blank)).filter (· ≠ []) = [] := by
  refine stripped_eq_nil ?_
  rw [h.flatMap_solid hblank, solid_eq_nil_iff]
  exact (strip_eq_nil_iff blank).mp hs

end Text
end EvidenceLab
