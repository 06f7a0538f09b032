/-
# Blocks laid out in a string, and windows swept over it

Two ways of taking a string apart without losing any of it but blanks.

A `Layout` is a list of stripped pieces with their offsets, in order, with only
blanks before the first, between two neighbours and behind the last.  Whoever
can show a layout has provenance (`Layout.standsAt`), order
(`Layout.pairwise`) and completeness (`Layout.covers`) of the pieces.

A `Sweep` is a list of windows, each starting inside the one before it or where
that one ends, and strictly behind its start.  The windows may overlap, so their
stripped contents are no layout; but they too cover every position
(`Sweep.covers`), and the offsets of the stripped windows never decrease
(`start_le_start`), a window that starts later having at least as many
characters that are not blank behind it.
-/

import EvidenceLab.Text.Str

namespace EvidenceLab
namespace Text

variable {α : Type*} (blank : α → Bool)

/-! ### Layouts -/

/-- From `cursor` on, the string `s` is blanks and the given stripped pieces, each
at its offset. -/
inductive Layout (s : List α) : ℕ → List (List α × ℕ) → Prop
  | nil {cursor : ℕ} : BlankOn blank s cursor s.length → Layout s cursor []
  | cons {cursor o : ℕ} {p : List α} {rest : List (List α × ℕ)} : cursor ≤ o →
      BlankOn blank s cursor o → StandsAt s p o → p ≠ [] → Stripped blank p →
      Layout s (o + p.length) rest → Layout s cursor ((p, o) :: rest)

variable {blank} {s : List α}

/-- A layout may start earlier, at the cost of blanks. -/
theorem Layout.extend {cursor cursor' : ℕ} {ps : List (List α × ℕ)}
    (h : Layout blank s cursor' ps) (hc : cursor ≤ cursor') (hb : BlankOn blank s cursor cursor') :
    Layout blank s cursor ps := by
  cases h with
  | nil h => exact .nil (hb.join h)
  | cons ho hbo hst hne hsp h => exact .cons (hc.trans ho) (hb.join hbo) hst hne hsp h

/-- What the pieces of a layout are: they stand where they say, behind the
cursor, stripped and not empty. -/
theorem Layout.standsAt {cursor : ℕ} {ps : List (List α × ℕ)} (h : Layout blank s cursor ps) :
    ∀ q ∈ ps, cursor ≤ q.2 ∧ StandsAt s q.1 q.2 ∧ q.1 ≠ [] ∧ Stripped blank q.1 := by
  induction h with
  | nil => exact fun _ h => absurd h List.not_mem_nil
  | cons ho _ hst hne hsp _ ih =>
      intro q hq
      rcases List.mem_cons.mp hq with rfl | hq
      · exact ⟨ho, hst, hne, hsp⟩
      · obtain ⟨hle, h⟩ := ih q hq
        exact ⟨by omega, h⟩

/-- The pieces come in order and do not overlap. -/
theorem Layout.pairwise {cursor : ℕ} {ps : List (List α × ℕ)} (h : Layout blank s cursor ps) :
    ps.Pairwise fun a b => a.2 + a.1.length ≤ b.2 := by
  induction h with
  | nil => exact .nil
  | cons _ _ _ _ _ h ih => exact .cons (fun q hq => (h.standsAt q hq).1) ih

/-- **A layout loses only blanks.** -/
theorem Layout.covers {cursor n : ℕ} {x : α} {ps : List (List α × ℕ)}
    (h : Layout blank s cursor ps) (hn : cursor ≤ n) (hx : s[n]? = some x)
    (hb : blank x = false) : ∃ q ∈ ps, q.2 ≤ n ∧ n < q.2 + q.1.length := by
  induction h with
  | nil h =>
      have := h n x hn (List.getElem?_eq_some_iff.mp hx).1 hx
      simp [hb] at this
  | @cons _ o p rest _ hbo _ _ _ _ ih =>
      rcases Nat.lt_or_ge n o with hlt | hge
      · have := hbo n x hn hlt hx
        simp [hb] at this
      · rcases Nat.lt_or_ge n (o + p.length) with hin | hout
        · exact ⟨(p, o), List.mem_cons_self .., hge, hin⟩
        · obtain ⟨q, hq, h⟩ := ih hout
          exact ⟨q, List.mem_cons_of_mem _ hq, h⟩

/-! ### Windows -/

/-- Windows `(start, stop)` that sweep the positions `i, …, n - 1`. -/
inductive Sweep (n : ℕ) : ℕ → List (ℕ × ℕ) → Prop
  | last {i : ℕ} : i < n → Sweep n i [(i, n)]
  | cons {i j k : ℕ} {ws : List (ℕ × ℕ)} : i < k → k ≤ j → j < n → Sweep n k ws →
      Sweep n i ((i, j) :: ws)

theorem Sweep.bounds {n i : ℕ} {ws : List (ℕ × ℕ)} (h : Sweep n i ws) :
    ∀ w ∈ ws, i ≤ w.1 ∧ w.1 < w.2 ∧ w.2 ≤ n := by
  induction h with
  | last hi => simpa using hi
  | cons hik hkj hjn _ ih =>
      intro w hw
      rcases List.mem_cons.mp hw with rfl | hw
      · exact ⟨le_rfl, by omega, hjn.le⟩
      · obtain ⟨h₁, h₂⟩ := ih w hw
        exact ⟨by omega, h₂⟩

/-- The starts of the windows strictly increase. -/
theorem Sweep.pairwise {n i : ℕ} {ws : List (ℕ × ℕ)} (h : Sweep n i ws) :
    ws.Pairwise fun a b => a.1 < b.1 := by
  induction h with
  | last => exact List.pairwise_singleton ..
  | cons hik _ _ h ih => exact .cons (fun w hw => hik.trans_le (h.bounds w hw).1) ih

/-- **A sweep covers every position.** -/
theorem Sweep.covers {n i m : ℕ} {ws : List (ℕ × ℕ)} (h : Sweep n i ws) (hi : i ≤ m)
    (hm : m < n) : ∃ w ∈ ws, w.1 ≤ m ∧ m < w.2 := by
  induction h with
  | last => exact ⟨_, List.mem_cons_self .., hi, hm⟩
  | @cons i j k ws _ hkj _ _ ih =>
      rcases Nat.lt_or_ge m j with hlt | hge
      · exact ⟨(i, j), List.mem_cons_self .., hi, hlt⟩
      · obtain ⟨w, hw, h⟩ := ih (hkj.trans hge)
        exact ⟨w, List.mem_cons_of_mem _ hw, h⟩

/-- A sweep has at most one window a position. -/
theorem Sweep.length_le {n i : ℕ} {ws : List (ℕ × ℕ)} (h : Sweep n i ws) : i + ws.length ≤ n := by
  induction h with
  | last hi => exact hi
  | cons hik _ _ _ ih =>
      rw [List.length_cons]
      omega

variable (blank) (s)

/-- The stripped text of a window with its offset in the string. -/
def windowText (w : ℕ × ℕ) : List α × ℕ :=
  (strip blank (slice s w.1 w.2), w.1 + lead blank (slice s w.1 w.2))

theorem standsAt_windowText (w : ℕ × ℕ) :
    StandsAt s (windowText blank s w).1 (windowText blank s w).2 :=
  (standsAt_slice s w.1 w.2).trans (standsAt_strip blank _)

variable {blank s}

theorem length_windowText_le (w : ℕ × ℕ) : (windowText blank s w).1.length ≤ w.2 - w.1 := by
  have h₁ := length_strip_le blank (slice s w.1 w.2)
  rw [length_slice] at h₁
  simp only [windowText]
  omega

/-- A character of a window that is not blank lies in the window's text. -/
theorem windowText_covers {w : ℕ × ℕ} {n : ℕ} {x : α} (h₁ : w.1 ≤ n) (h₂ : n < w.2)
    (hx : s[n]? = some x) (hb : blank x = false) :
    (windowText blank s w).1 ≠ [] ∧ (windowText blank s w).2 ≤ n ∧
      n < (windowText blank s w).2 + (windowText blank s w).1.length := by
  obtain ⟨m, rfl⟩ := Nat.exists_eq_add_of_le h₁
  have hm : (slice s w.1 w.2)[m]? = some x := by rw [getElem?_slice h₂, hx]
  obtain ⟨hle, hlt⟩ := mem_strip_span blank hm hb
  simp only [windowText]
  refine ⟨fun h => ?_, by omega, by omega⟩
  rw [h, List.length_nil] at hlt
  omega

/-- **A later window starts its text no earlier.**  What stands before the text
of the earlier window is blank, and the text of the later one starts with a
character that is not. -/
theorem start_le_start {w w' : ℕ × ℕ} (h : w.1 ≤ w'.1) (hne : (windowText blank s w').1 ≠ []) :
    (windowText blank s w).2 ≤ (windowText blank s w').2 := by
  by_contra hlt
  obtain ⟨x, hx⟩ : ∃ x, (windowText blank s w').1.head? = some x :=
    ⟨_, List.head?_eq_some_head hne⟩
  have hxb : blank x = false := (stripped_strip blank _).1 x hx
  have hxs : s[(windowText blank s w').2]? = some x := by
    have := (standsAt_windowText blank s w').getElem? (n := 0)
      (List.length_pos_iff.mpr hne)
    rwa [Nat.add_zero, ← List.head?_eq_getElem?, hx] at this
  have hpre := (standsAt_slice s w.1 w.2).trans (j := 0)
    (standsAt_zero (List.takeWhile_prefix blank (l := slice s w.1 w.2)))
  have hbl : BlankOn blank s _ _ := hpre.blankOn fun y hy => List.mem_takeWhile_imp hy
  rw [← lead_eq_length_takeWhile, Nat.add_zero] at hbl
  have := hbl _ x (by simp only [windowText] at *; omega) (not_le.mp hlt) hxs
  simp [hxb] at this

end Text
end EvidenceLab
