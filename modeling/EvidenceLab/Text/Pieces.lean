/-
# Splitting a string that is put together

What is left of a split when its pieces are stripped, and the empty ones dropped.  If every
separator is found by looking at it and nothing else (`Local`), and consists of blanks, then two
strings with a separator between them leave what each of them leaves
(`strippedPieces_append`).  A separator may well begin in the first string and end in the one
between; but then only blanks of the first string are in it.

Layouts are put together the same way (`Layout.append`), and a layout is determined by the texts
of its pieces (`Layout.unique`).
-/

import EvidenceLab.Text.Layout
import EvidenceLab.Text.Stretches

namespace EvidenceLab
namespace Text

variable {α : Type*} {blank : α → Bool} {sepLen : List α → ℕ} {Sep : List α → Prop}

/-! ### Splits -/

/-- A separator is found by looking at it and nothing else. -/
structure Local (sepLen : List α → ℕ) : Prop where
  outward : ∀ u v, 0 < sepLen u → sepLen (u ++ v) = sepLen u
  inward : ∀ u v, 0 < sepLen (u ++ v) → sepLen (u ++ v) ≤ u.length → sepLen u = sepLen (u ++ v)

/-- To pass over characters is to drop them. -/
theorem splitFrom_eq (sepLen : List α → ℕ) (skip : ℕ) (s : List α) :
    splitFrom sepLen skip s = split sepLen (s.drop skip) := by
  induction s generalizing skip with
  | nil =>
      rw [List.drop_nil, splitFrom]
      rfl
  | cons c s ih =>
      cases skip with
      | zero => rfl
      | succ skip => exact ih skip

theorem split_cons_of_zero {c : α} {s : List α} (h : sepLen (c :: s) = 0) :
    split sepLen (c :: s) = addHead c (split sepLen s) := by
  rw [split, splitFrom, h]
  rfl

theorem split_cons_of_succ {c : α} {s : List α} {k : ℕ} (h : sepLen (c :: s) = k + 1) :
    split sepLen (c :: s) = [] :: split sepLen (s.drop k) := by
  rw [split, splitFrom, h, ← splitFrom_eq]

/-- What a separator is made of. -/
theorem Separates.blank_take (h : Separates sepLen Sep)
    (hblank : ∀ sep, Sep sep → ∀ c ∈ sep, blank c = true) {s : List α} (hpos : 0 < sepLen s) :
    ∀ c ∈ s.take (sepLen s), blank c = true :=
  hblank _ ((h s).2 hpos)

theorem strip_cons_of_blank {c : α} (h : blank c = true) (s : List α) :
    strip blank (c :: s) = strip blank s := by
  rw [strip, lstrip, List.dropWhile_cons_of_pos h]
  rfl

theorem strip_append_of_blank {w : List α} (h : ∀ c ∈ w, blank c = true) (s : List α) :
    strip blank (s ++ w) = strip blank s := by
  obtain ⟨front, back, hs, hfront, hback⟩ := exists_strip blank s
  conv_lhs => rw [hs, List.append_assoc]
  refine strip_eq hfront ?_ (stripped_strip blank s)
  intro c hc
  exact (List.mem_append.mp hc).elim (hback c) (h c)

/-- What pieces leave when they are stripped. -/
def left (blank : α → Bool) (ps : List (List α)) : List (List α) :=
  (ps.map (strip blank)).filter (· ≠ [])

/-- What is left of the pieces of a split. -/
def strippedPieces (blank : α → Bool) (sepLen : List α → ℕ) (s : List α) : List (List α) :=
  left blank (split sepLen s)

theorem left_append (ps qs : List (List α)) :
    left blank (ps ++ qs) = left blank ps ++ left blank qs := by
  rw [left, List.map_append, List.filter_append]
  rfl

theorem left_cons_nil (ps : List (List α)) : left blank ([] :: ps) = left blank ps := rfl

theorem left_cons_congr {p q : List α} (h : strip blank p = strip blank q) (ps : List (List α)) :
    left blank (p :: ps) = left blank (q :: ps) := by
  rw [left, List.map_cons, h, ← List.map_cons]
  rfl

theorem left_of_blank {ps : List (List α)} (h : ∀ p ∈ ps, ∀ c ∈ p, blank c = true) :
    left blank ps = [] := by
  refine List.filter_eq_nil_iff.mpr ?_
  intro q hq
  obtain ⟨p, hp, rfl⟩ := List.mem_map.mp hq
  simp [(strip_eq_nil_iff blank).mpr (h p hp)]

/-- **Blanks in front leave nothing.**  By induction on the length of the string: a separator
that begins in them may end behind them, in blanks again. -/
theorem strippedPieces_blank_append (h : Separates sepLen Sep)
    (hblank : ∀ sep, Sep sep → ∀ c ∈ sep, blank c = true) {w : List α}
    (hw : ∀ c ∈ w, blank c = true) (t : List α) :
    strippedPieces blank sepLen (w ++ t) = strippedPieces blank sepLen t := by
  have hall : ∀ (n : ℕ) (w t : List α), (w ++ t).length ≤ n → (∀ c ∈ w, blank c = true) →
      strippedPieces blank sepLen (w ++ t) = strippedPieces blank sepLen t := by
    intro n
    induction n with
    | zero =>
        intro w t hn _
        rw [List.length_append] at hn
        rw [List.length_eq_zero_iff.mp (by omega : w.length = 0), List.nil_append]
    | succ n ih =>
        intro w t hn hw
        cases w with
        | nil => rfl
        | cons c w =>
            have hw' : ∀ c ∈ w, blank c = true := fun d hd => hw d (List.mem_cons_of_mem _ hd)
            rw [List.cons_append, List.length_cons, Nat.add_le_add_iff_right] at hn
            refine Eq.trans ?_ (ih w t hn hw')
            rw [List.cons_append, strippedPieces]
            cases hm : sepLen (c :: (w ++ t)) with
            | zero =>
                rw [split_cons_of_zero hm, strippedPieces]
                obtain ⟨p, ps, v, hsplit, -⟩ := exists_splitFrom sepLen 0 (w ++ t)
                rw [split, hsplit]
                exact left_cons_congr (strip_cons_of_blank (hw c (List.mem_cons_self ..)) p) ps
            | succ k =>
                have htake := h.blank_take hblank (s := c :: (w ++ t)) (by omega)
                rw [hm, List.take_succ_cons] at htake
                have hrest := ih ((w ++ t).take k) ((w ++ t).drop k)
                  (by rw [List.take_append_drop]; exact hn)
                  fun d hd => htake d (List.mem_cons_of_mem _ hd)
                rw [List.take_append_drop] at hrest
                rw [split_cons_of_succ hm, left_cons_nil, hrest]
                rfl
  exact hall _ w t le_rfl hw

/-- **Where a string ends that a separator follows.**  The pieces of the whole are those of the
string up to one that has lost blanks at its end, and what is left of the others is what is left
of what follows. -/
theorem exists_split_append (h : Separates sepLen Sep)
    (hblank : ∀ sep, Sep sep → ∀ c ∈ sep, blank c = true) (hlocal : Local sepLen) {x : List α}
    (hne : x ≠ []) (hx : ∀ v, sepLen (x ++ v) = x.length) (s t : List α) :
    ∃ ps p q w more rs, split sepLen s = ps ++ p :: more ∧
      split sepLen (s ++ (x ++ t)) = ps ++ q :: rs ∧ p = q ++ w ∧ (∀ c ∈ w, blank c = true) ∧
      (∀ p ∈ more, ∀ c ∈ p, blank c = true) ∧ left blank rs = strippedPieces blank sepLen t := by
  have hxblank : ∀ c ∈ x, blank c = true := by
    have hnil := hx []
    rw [List.append_nil] at hnil
    have htake := h.blank_take hblank (hnil ▸ List.length_pos_iff.mpr hne)
    rwa [hnil, List.take_length] at htake
  have hall : ∀ (n : ℕ) (s : List α), s.length ≤ n → ∃ ps p q w more rs,
      split sepLen s = ps ++ p :: more ∧ split sepLen (s ++ (x ++ t)) = ps ++ q :: rs ∧
      p = q ++ w ∧ (∀ c ∈ w, blank c = true) ∧ (∀ p ∈ more, ∀ c ∈ p, blank c = true) ∧
      left blank rs = strippedPieces blank sepLen t := by
    intro n
    induction n with
    | zero =>
        intro s hn
        obtain rfl := List.length_eq_zero_iff.mp (Nat.le_zero.mp hn)
        obtain ⟨c, x', rfl⟩ := List.exists_cons_of_ne_nil hne
        have hwhole : split sepLen (c :: (x' ++ t)) =
            [] :: split sepLen ((x' ++ t).drop x'.length) :=
          split_cons_of_succ (hx t)
        rw [List.drop_left] at hwhole
        exact ⟨[], [], [], [], [], split sepLen t, rfl, hwhole, rfl, by simp, by simp, rfl⟩
    | succ n ih =>
        intro s hn
        cases s with
        | nil => exact ih [] (Nat.zero_le n)
        | cons c s =>
            rw [List.length_cons, Nat.add_le_add_iff_right] at hn
            rw [List.cons_append]
            cases hm : sepLen (c :: (s ++ (x ++ t))) with
            | zero =>
                -- No separator begins here, in the string or in the whole.
                have hzero : sepLen (c :: s) = 0 := by
                  by_contra hpos
                  have hout := hlocal.outward (c :: s) (x ++ t) (Nat.pos_of_ne_zero hpos)
                  rw [List.cons_append, hm] at hout
                  exact hpos hout.symm
                obtain ⟨ps, p, q, w, more, rs, hsplit, hwhole, rfl, hw, hmore, hrs⟩ := ih s hn
                rw [split_cons_of_zero hm, split_cons_of_zero hzero, hsplit, hwhole]
                cases ps with
                | nil =>
                    exact ⟨[], c :: (q ++ w), c :: q, w, more, rs, rfl, rfl, rfl, hw, hmore, hrs⟩
                | cons first ps =>
                    exact ⟨(c :: first) :: ps, q ++ w, q, w, more, rs, rfl, rfl, rfl, hw, hmore,
                      hrs⟩
            | succ k =>
                rw [split_cons_of_succ hm]
                rcases Nat.lt_or_ge k (s.length + 1) with hinside | hbeyond
                · -- The separator ends in the string.
                  have hin : sepLen (c :: s) = k + 1 := by
                    have hin := hlocal.inward (c :: s) (x ++ t)
                    rw [List.cons_append, hm] at hin
                    exact hin (Nat.succ_pos k) (Nat.succ_le_of_lt hinside)
                  have hk : k ≤ s.length := Nat.le_of_lt_succ hinside
                  obtain ⟨ps, p, q, w, more, rs, hsplit, hwhole, rfl, hw, hmore, hrs⟩ :=
                    ih (s.drop k) (by rw [List.length_drop]; omega)
                  rw [split_cons_of_succ hin, List.drop_append_of_le_length hk, hsplit, hwhole]
                  exact ⟨[] :: ps, q ++ w, q, w, more, rs, rfl, rfl, rfl, hw, hmore, hrs⟩
                · -- It ends behind the string, which is blank from here on.
                  have htake := h.blank_take hblank (s := c :: (s ++ (x ++ t))) (by omega)
                  rw [hm, List.take_succ_cons] at htake
                  have hblanks : ∀ d ∈ c :: s, blank d = true := by
                    intro d hd
                    rcases List.mem_cons.mp hd with rfl | hd
                    · exact htake _ (List.mem_cons_self ..)
                    · refine htake d (List.mem_cons_of_mem _ ?_)
                      rw [List.take_append, List.take_of_length_le (by omega)]
                      exact List.mem_append_left _ hd
                  obtain ⟨p, more, v, hsplit, -⟩ := exists_splitFrom sepLen 0 (c :: s)
                  change split sepLen (c :: s) = p :: more at hsplit
                  have hpieces : ∀ r ∈ p :: more, ∀ d ∈ r, blank d = true := by
                    intro r hr d hd
                    have hin := (cut_split h (c :: s)).infix_of_mem (hsplit ▸ hr)
                    exact hblanks d (hin.subset hd)
                  refine ⟨[], p, [], p, more, _, hsplit, rfl, rfl,
                    hpieces p (List.mem_cons_self ..),
                    fun r hr => hpieces r (List.mem_cons_of_mem _ hr), ?_⟩
                  have hskip := strippedPieces_blank_append h hblank
                    (w := (s ++ (x ++ t)).take k)
                    (fun d hd => htake d (List.mem_cons_of_mem _ hd)) ((s ++ (x ++ t)).drop k)
                  rw [List.take_append_drop, ← List.append_assoc,
                    strippedPieces_blank_append h hblank] at hskip
                  · rw [← List.append_assoc]
                    exact hskip.symm
                  · intro d hd
                    exact (List.mem_append.mp hd).elim
                      (fun hd => hblanks d (List.mem_cons_of_mem _ hd)) (hxblank d)
  exact hall _ s le_rfl

/-- **Two strings with a separator between them** leave what each of them leaves. -/
theorem strippedPieces_append (h : Separates sepLen Sep)
    (hblank : ∀ sep, Sep sep → ∀ c ∈ sep, blank c = true) (hlocal : Local sepLen) {x : List α}
    (hne : x ≠ []) (hx : ∀ v, sepLen (x ++ v) = x.length) (s t : List α) :
    strippedPieces blank sepLen (s ++ (x ++ t)) =
      strippedPieces blank sepLen s ++ strippedPieces blank sepLen t := by
  obtain ⟨ps, p, q, w, more, rs, hsplit, hwhole, rfl, hw, hmore, hrs⟩ :=
    exists_split_append h hblank hlocal hne hx s t
  have hmine : strippedPieces blank sepLen s = left blank ps ++ left blank [q] := by
    rw [strippedPieces, hsplit, left_append, left_cons_congr (strip_append_of_blank hw q),
      ← List.singleton_append, left_append, left_of_blank hmore, List.append_nil]
  rw [hmine, strippedPieces, hwhole, left_append, ← List.singleton_append, left_append, hrs,
    List.append_assoc]

/-! ### Layouts -/

theorem BlankOn.append {s : List α} {i j : ℕ} (h : BlankOn blank s i j) (hj : j ≤ s.length)
    (t : List α) : BlankOn blank (s ++ t) i j := by
  intro n x hn hnj hx
  rw [List.getElem?_append_left (hnj.trans_le hj)] at hx
  exact h n x hn hnj hx

theorem BlankOn.prepend {t : List α} {i j : ℕ} (h : BlankOn blank t i j) (s : List α) :
    BlankOn blank (s ++ t) (s.length + i) (s.length + j) := by
  intro n x hn hnj hx
  rw [List.getElem?_append_right (by omega)] at hx
  exact h _ x (by omega) (by omega) hx

theorem StandsAt.append {s p : List α} {i : ℕ} (h : StandsAt s p i) (hi : i ≤ s.length)
    (t : List α) : StandsAt (s ++ t) p i := by
  rw [StandsAt, List.drop_append_of_le_length hi]
  exact List.IsPrefix.trans h (List.prefix_append ..)

theorem StandsAt.prepend {t p : List α} {i : ℕ} (h : StandsAt t p i) (s : List α) :
    StandsAt (s ++ t) p (s.length + i) := by
  rw [StandsAt, ← List.drop_drop, List.drop_left]
  exact h

/-- A piece at a later offset. -/
def moved (base : ℕ) (piece : List α × ℕ) : List α × ℕ := (piece.1, base + piece.2)

/-- A layout behind another string. -/
theorem Layout.prepend {t : List α} {cursor : ℕ} {ps : List (List α × ℕ)}
    (h : Layout blank t cursor ps) (s : List α) :
    Layout blank (s ++ t) (s.length + cursor) (ps.map (moved s.length)) := by
  induction h with
  | nil h =>
      refine .nil ?_
      rw [List.length_append]
      exact h.prepend s
  | cons ho hbo hst hne hsp _ ih =>
      refine .cons (by omega) (hbo.prepend s) (hst.prepend s) hne hsp ?_
      rw [Nat.add_assoc]
      exact ih

/-- **Two layouts with blanks between them.** -/
theorem Layout.append {s x t : List α} (hx : ∀ c ∈ x, blank c = true) {cursor : ℕ}
    {ps qs : List (List α × ℕ)} (hs : Layout blank s cursor ps) (ht : Layout blank t 0 qs)
    (hcursor : cursor ≤ s.length) :
    Layout blank (s ++ (x ++ t)) cursor (ps ++ qs.map (moved (s ++ x).length)) := by
  induction hs with
  | @nil cursor h =>
      have hlast := ht.prepend (s ++ x)
      rw [List.append_assoc, Nat.add_zero] at hlast
      have hbetween : BlankOn blank (s ++ (x ++ t)) s.length (s ++ x).length := by
        have hstands := (standsAt_append s x t).blankOn hx
        rwa [List.append_assoc, ← List.length_append] at hstands
      refine hlast.extend ?_ ((h.append le_rfl _).join hbetween)
      exact hcursor.trans (by rw [List.length_append]; omega)
  | @cons cursor o p rest ho hbo hst hne hsp _ ih =>
      have hend := hst.add_le hne
      exact .cons ho (hbo.append (by omega) _) (hst.append (by omega) _) hne hsp (ih hend)

/-- The first character of a piece is not blank. -/
theorem StandsAt.solid {s p : List α} {o : ℕ} (hst : StandsAt s p o) (hne : p ≠ [])
    (hsp : Stripped blank p) : ∃ x, s[o]? = some x ∧ blank x = false := by
  obtain ⟨x, p, rfl⟩ := List.exists_cons_of_ne_nil hne
  have hfirst := hst.getElem? (n := 0) (by simp)
  rw [Nat.add_zero, List.getElem?_cons_zero] at hfirst
  exact ⟨x, hfirst, hsp.1 x rfl⟩

/-- **The texts of the pieces determine their offsets.** -/
theorem Layout.unique {s : List α} {cursor : ℕ} {ps qs : List (List α × ℕ)}
    (hps : Layout blank s cursor ps) (hqs : Layout blank s cursor qs)
    (h : ps.map Prod.fst = qs.map Prod.fst) : ps = qs := by
  induction hps generalizing qs with
  | nil _ => exact (List.map_eq_nil_iff.mp h.symm).symm
  | @cons cursor o p rest ho hbo hst hne hsp _ ih =>
      cases hqs with
      | nil _ => cases h
      | @cons _ o' p' rest' ho' hbo' hst' hne' hsp' hrest' =>
          obtain ⟨rfl, hrest⟩ := List.cons.inj h
          have hsame : o = o' := by
            obtain ⟨x, hx, hsolid⟩ := hst.solid hne hsp
            obtain ⟨x', hx', hsolid'⟩ := hst'.solid hne' hsp'
            rcases lt_trichotomy o o' with hlt | heq | hgt
            · exact absurd ((hbo' o x ho hlt hx).symm.trans hsolid) (by decide)
            · exact heq
            · exact absurd ((hbo o' x' ho' hgt hx').symm.trans hsolid') (by decide)
          subst hsame
          rw [ih hrest' hrest]

end Text
end EvidenceLab
