/-
# Reported identifiers

The identifier rule looks ahead for a letter and for a character that makes a token an
identifier, as far as the token goes, and then takes the token up to its last word character.  So
a full stop, a slash or a hyphen behind that character counts, and is not part of what is
reported (`mem_identifiers_iff`).
-/

import EvidenceLab.Routing.Quotes
import EvidenceLab.Text.Tokens

namespace EvidenceLab
namespace Routing

open Text Text.Regex Retrieval

variable {table : WordTable}

/-- The rule matches no blanks. -/
theorem confined_identifier : identifier.Confined isSpace := by
  have hsolid : ∀ c, isSpace c = true → isSolid c = false := fun _ => not_isSolid_of_isSpace
  have hspecial : ∀ c, isSpace c = true → isSpecial c = false := fun _ => not_isSpecial_of_isSpace
  have hletter : ∀ c, isSpace c = true → isLetter c = false := fun _ => not_isLetter_of_isSpace
  exact ⟨trivial, ⟨⟨hsolid, hspecial⟩, ⟨hsolid, hletter⟩, hsolid, hsolid, hsolid, hsolid⟩, trivial⟩

/-! ### One token -/

section One

variable {s w : Str} {i j n : ℕ}

/-- Where the rule matches. -/
theorem ends_identifier (table : WordTable) (s : Str) (i : ℕ) :
    (∀ j, j ∈ ends table.isWord s identifier i ↔ boundaryAt table.isWord s i = true ∧
      (∃ k, Run isSolid s i k ∧ holdsAt s isSpecial k = true) ∧
      (∃ k, Run isSolid s i k ∧ holdsAt s isLetter k = true) ∧
      (i + 3 ≤ j ∧ Run isSolid s i j) ∧ boundaryAt table.isWord s j = true) ∧
    (ends table.isWord s identifier i).Pairwise (· > ·) := by
  have hahead : ∀ p : CodePoint → Bool,
      ends table.isWord s (seq (many (one isSolid)) (one p)) i = [] ↔
        ¬ ∃ k, Run isSolid s i k ∧ holdsAt s p k = true := by
    intro p
    have hmany : ∀ k, k ∈ ends table.isWord s (many (one isSolid)) i ↔ Run isSolid s i k :=
      (repeated_one s.length (by omega)).1
    rw [ends, List.flatMap_eq_nil_iff, not_exists]
    refine forall_congr' fun k => ?_
    rw [hmany, ends, not_and]
    refine imp_congr_right fun _ => ?_
    split_ifs with hp <;> simp [hp]
  obtain ⟨hmem, hsorted⟩ :
      (∀ j, j ∈ ends table.isWord s (atLeast 3 isSolid) i ↔ i + 3 ≤ j ∧ Run isSolid s i j) ∧
        (ends table.isWord s (atLeast 3 isSolid) i).Pairwise (· > ·) := ends_atLeast 3
  rw [identifier, word, ends_boundary_seq, ends_seq_boundary, ends_ahead_seq, ends_ahead_seq]
  split_ifs with hboundary hspecial hletter
  · exact ⟨fun j => by simp [(hahead _).mp hspecial], by simp⟩
  · exact ⟨fun j => by simp [(hahead _).mp hletter], by simp⟩
  · refine ⟨fun j => ?_, hsorted.filter _⟩
    rw [List.mem_filter, hmem]
    have hspecial' := not_not.mp ((hahead _).not.mp hspecial)
    have hletter' := not_not.mp ((hahead _).not.mp hletter)
    simp only [hboundary, hspecial', hletter', true_and]
  · exact ⟨fun j => by simp [hboundary], by simp⟩

/-- The core of a token has three characters and a letter. -/
def Worded (table : WordTable) (w : Str) : Prop :=
  3 ≤ (core table.isWord w).length ∧ ∃ c ∈ core table.isWord w, isLetter c = true

/-- The rule reports the core of a token: a character that makes it an identifier is in it, or
behind it. -/
def Reported (table : WordTable) (w : Str) : Prop :=
  Worded table w ∧ ∃ c ∈ core table.isWord w ++ closing table.isWord w, isSpecial c = true

/-- The characters from the core of a token on. -/
theorem exists_holdsAt_iff {p : CodePoint → Bool} :
    (∃ k, coreStart table.isWord w ≤ k ∧ holdsAt w p k = true) ↔
      ∃ c ∈ core table.isWord w ++ closing table.isWord w, p c = true := by
  rw [← drop_coreStart]
  constructor
  · rintro ⟨k, hle, hk⟩
    obtain ⟨c, hc, hpc⟩ := holdsAt_iff.mp hk
    obtain ⟨m, rfl⟩ := Nat.exists_eq_add_of_le hle
    rw [← List.getElem?_drop] at hc
    exact ⟨c, List.mem_of_getElem? hc, hpc⟩
  · rintro ⟨c, hc, hpc⟩
    obtain ⟨m, hm⟩ := List.mem_iff_getElem?.mp hc
    rw [List.getElem?_drop] at hm
    exact ⟨_, Nat.le_add_right .., holdsAt_iff.mpr ⟨c, hm, hpc⟩⟩

/-- A letter behind the core would be a part of it. -/
theorem exists_letter_iff : (∃ c ∈ core table.isWord w ++ closing table.isWord w,
    isLetter c = true) ↔ ∃ c ∈ core table.isWord w, isLetter c = true := by
  constructor
  · rintro ⟨c, hc, hletter⟩
    refine ⟨c, (List.mem_append.mp hc).resolve_right fun hclosing => ?_, hletter⟩
    have hword : table.isWord c = true := isWord_of_isLetter hletter
    rw [word_not_mem_closing hclosing] at hword
    cases hword
  · rintro ⟨c, hc, hletter⟩
    exact ⟨c, List.mem_append_left _ hc, hletter⟩

variable (hw : ∀ c ∈ w, isSpace c = false)

include hw

theorem run_of_solid (hij : i ≤ j) (hj : j ≤ w.length) : Run isSolid w i j := by
  refine ⟨hij, fun n _ hn => ?_⟩
  have hget := List.getElem?_eq_getElem (lt_of_lt_of_le hn hj)
  refine holdsAt_iff.mpr ⟨_, hget, ?_⟩
  rw [isSolid, hw _ (List.getElem_mem _)]
  rfl

/-- **In a token the rule matches from the core on**, and takes the core. -/
theorem of_matchAt_identifier (h : matchAt table.isWord w identifier n = some j) :
    coreStart table.isWord w ≤ n ∧ n + 3 ≤ j ∧ j = coreEnd table.isWord w ∧ Reported table w := by
  obtain ⟨hmem, hsorted⟩ := ends_identifier table w n
  obtain ⟨hj, hgreatest⟩ := (head?_eq_some_iff hsorted).mp h
  obtain ⟨hstart, ⟨k, hk, hspecial⟩, ⟨l, hl, hletter⟩, ⟨hthree, -⟩, hend⟩ := (hmem j).mp hj
  have hn := (boundary_bounds hstart).1
  have hlast := (boundary_bounds hend).2
  have hlength : 3 ≤ (core table.isWord w).length := by
    rw [coreEnd] at hlast
    omega
  have hne : core table.isWord w ≠ [] := List.ne_nil_of_length_pos (by omega)
  have hle := hgreatest _ ((hmem _).mpr ⟨hstart, ⟨k, hk, hspecial⟩, ⟨l, hl, hletter⟩,
    ⟨by omega, run_of_solid hw (by omega) (coreEnd_le_length table.isWord w)⟩,
    boundaryAt_coreEnd hne⟩)
  refine ⟨hn, hthree, le_antisymm hlast hle, ⟨hlength, ?_⟩, ?_⟩
  · exact exists_letter_iff.mp (exists_holdsAt_iff.mp ⟨l, hn.trans hl.1, hletter⟩)
  · exact exists_holdsAt_iff.mp ⟨k, hn.trans hk.1, hspecial⟩

theorem matchAt_coreStart (h : Reported table w) :
    matchAt table.isWord w identifier (coreStart table.isWord w) =
      some (coreEnd table.isWord w) := by
  obtain ⟨⟨hlength, hletter⟩, hspecial⟩ := h
  have hne : core table.isWord w ≠ [] := List.ne_nil_of_length_pos (by omega)
  obtain ⟨hmem, hsorted⟩ := ends_identifier table w (coreStart table.isWord w)
  have hrun : ∀ {p : CodePoint → Bool} {k}, coreStart table.isWord w ≤ k → holdsAt w p k = true →
      Run isSolid w (coreStart table.isWord w) k := fun hle hk =>
    run_of_solid hw hle (lt_length_of_holdsAt hk).le
  obtain ⟨k, hk, hspecial⟩ := exists_holdsAt_iff.mpr hspecial
  obtain ⟨l, hl, hletter⟩ := exists_holdsAt_iff.mpr (exists_letter_iff.mpr hletter)
  refine (head?_eq_some_iff hsorted).mpr ⟨(hmem _).mpr ⟨boundaryAt_coreStart hne,
    ⟨k, hrun hk hspecial, hspecial⟩, ⟨l, hrun hl hletter, hletter⟩, ⟨?_, ?_⟩,
    boundaryAt_coreEnd hne⟩, fun j hj => ?_⟩
  · rw [coreEnd]
    omega
  · exact run_of_solid hw (Nat.le_add_right ..) (coreEnd_le_length table.isWord w)
  · exact (boundary_bounds ((hmem j).mp hj).2.2.2.2).2

/-- **What the rule reports of a token.** -/
theorem mem_findTexts_token {t : Str} :
    t ∈ findTexts table.isWord identifier w ↔ Reported table w ∧ t = core table.isWord w := by
  have hfirst : Reported table w →
      (coreStart table.isWord w, coreEnd table.isWord w) ∈ findAll table.isWord identifier w := by
    intro h
    refine mem_findAll_iff.mpr ⟨?_, matchAt_coreStart hw h, fun m hm hlt => ?_⟩
    · exact le_trans (Nat.le_add_right ..) (coreEnd_le_length table.isWord w)
    · have := (of_matchAt_identifier hw (of_mem_scan hm).2).1
      omega
  constructor
  · intro ht
    obtain ⟨m, hm, rfl⟩ := List.mem_map.mp ht
    obtain ⟨-, hmatch, hbefore⟩ := mem_findAll_iff.mp hm
    obtain ⟨hstart, hthree, hend, hreported⟩ := of_matchAt_identifier hw hmatch
    have heq : m.1 = coreStart table.isWord w := by
      rcases hstart.eq_or_lt with heq | hlt
      · exact heq.symm
      · have := hbefore _ (hfirst hreported) hlt
        omega
    exact ⟨hreported, by rw [heq, hend, slice_core]⟩
  · rintro ⟨h, rfl⟩
    exact List.mem_map.mpr ⟨_, hfirst h, slice_core table.isWord w⟩

end One

/-! ### All tokens -/

/-- A year has no letter. -/
theorem not_fullMatch_of_letter {t : Str} (h : ∃ c ∈ t, isLetter c = true) :
    fullMatch table.isWord year t = false := by
  have hdecimal : ∀ c, isLetter c = true → isDecimal c = false :=
    fun _ => not_isDecimal_of_isLetter
  have hchars : ∀ chars : List Char, chars.all (fun x => !isLetter (ofChar x)) = true →
      ∀ c, isLetter c = true → among chars c = false := fun _ h _ => not_among h
  have hyear : year.Confined isLetter :=
    ⟨trivial, ⟨⟨hchars _ rfl, hchars _ rfl, hdecimal, hdecimal, trivial⟩,
      hchars _ rfl, hchars _ rfl, hdecimal, hdecimal, trivial⟩, trivial⟩
  by_contra hmatch
  rw [Bool.not_eq_false, fullMatch, List.contains_iff_mem] at hmatch
  obtain ⟨c, hc, hletter⟩ := h
  obtain ⟨n, hn, rfl⟩ := List.getElem_of_mem hc
  have hno := (run_of_mem_ends hyear hmatch).2 n (Nat.zero_le n) hn
  obtain ⟨x, hx, hnot⟩ := holdsAt_iff.mp hno
  rw [List.getElem?_eq_getElem hn] at hx
  rw [← Option.some.inj hx, hletter] at hnot
  cases hnot

/-- **What the rule reports**: the core of every token that it takes for an identifier. -/
theorem mem_identifiers_iff {text t : Str} : t ∈ identifiers table text ↔
    ∃ u w v, Token isSpace text u w v ∧ Reported table w ∧ t = core table.isWord w := by
  rw [identifiers, List.mem_filter, mem_findTexts_iff not_isWord_of_isSpace confined_identifier]
  constructor
  · rintro ⟨⟨u, w, v, htoken, ht⟩, -⟩
    exact ⟨u, w, v, htoken, (mem_findTexts_token htoken.solid).mp ht⟩
  · rintro ⟨u, w, v, htoken, hreported, rfl⟩
    refine ⟨⟨u, w, v, htoken, (mem_findTexts_token htoken.solid).mpr ⟨hreported, rfl⟩⟩, ?_⟩
    rw [not_fullMatch_of_letter hreported.1.2]
    rfl

theorem core_ne_nil {w : Str} (h : Worded table w) : core table.isWord w ≠ [] :=
  List.ne_nil_of_length_pos (lt_of_lt_of_le (Nat.succ_pos 2) h.1)

theorem ne_nil_of_worded {w : Str} (h : Worded table w) : w ≠ [] := by
  rintro rfl
  exact core_ne_nil h rfl

/-- The tokens of the text before it is stripped. -/
theorem mem_identifiers_strip {text t : Str} : t ∈ identifiers table (strip isSpace text) ↔
    ∃ u w v, Token isSpace text u w v ∧ Reported table w ∧ t = core table.isWord w := by
  have hstrip : ∀ w, Reported table w → ((∃ u v, Token isSpace (strip isSpace text) u w v) ↔
      ∃ u v, Token isSpace text u w v) := fun w h => token_strip (ne_nil_of_worded h.1)
  rw [mem_identifiers_iff]
  constructor
  · rintro ⟨u, w, v, htoken, hreported, rfl⟩
    obtain ⟨u', v', htoken'⟩ := (hstrip w hreported).mp ⟨u, v, htoken⟩
    exact ⟨u', w, v', htoken', hreported, rfl⟩
  · rintro ⟨u, w, v, htoken, hreported, rfl⟩
    obtain ⟨u', v', htoken'⟩ := (hstrip w hreported).mpr ⟨u, v, htoken⟩
    exact ⟨u', w, v', htoken', hreported, rfl⟩

/-- A text that says what it is: it has a letter and a character that makes it an identifier. -/
def IsIdentifier (t : Str) : Prop := (∃ c ∈ t, isLetter c = true) ∧ ∃ c ∈ t, isSpecial c = true

/-- What makes the token an identifier is not in its core, but behind it. -/
def Dangling (table : WordTable) (w : Str) : Prop :=
  Worded table w ∧ (∀ c ∈ core table.isWord w, isSpecial c = false) ∧
    ∃ c ∈ closing table.isWord w, isSpecial c = true

/-- **What is reported is an identifier iff no token of the text dangles.** -/
theorem isIdentifier_iff (text : Str) :
    (∀ token ∈ identifiers table (strip isSpace text), IsIdentifier token) ↔
      ¬ ∃ u w v, Token isSpace text u w v ∧ Dangling table w := by
  constructor
  · rintro hall ⟨u, w, v, htoken, hworded, hplain, c, hc, hspecial⟩
    obtain ⟨-, x, hx, hxs⟩ := hall _ (mem_identifiers_strip.mpr
      ⟨u, w, v, htoken, ⟨hworded, c, List.mem_append_right _ hc, hspecial⟩, rfl⟩)
    rw [hplain x hx] at hxs
    cases hxs
  · intro hno token ht
    obtain ⟨u, w, v, htoken, ⟨hworded, c, hc, hspecial⟩, rfl⟩ := mem_identifiers_strip.mp ht
    refine ⟨hworded.2, ?_⟩
    by_contra hplain
    have hcore : ∀ x ∈ core table.isWord w, isSpecial x = false := fun x hx =>
      Bool.eq_false_iff.mpr fun h => hplain ⟨x, hx, h⟩
    refine hno ⟨u, w, v, htoken, hworded, hcore, c, ?_, hspecial⟩
    exact (List.mem_append.mp hc).resolve_left fun h => hplain ⟨c, h, hspecial⟩

/-! ### A full stop at the end -/

/-- The text ends in a token whose core has three characters and a letter. -/
def EndsInWord (table : WordTable) (text : Str) : Prop :=
  ∃ u w, Token isSpace text u w [] ∧ Worded table w

theorem not_isWord_fullStop : table.isWord fullStop = false := by
  rw [WordTable.isWord, table.ascii fullStop (by decide)]
  decide

theorem core_fullStop (w : Str) : core table.isWord (w ++ [fullStop]) = core table.isWord w := by
  obtain ⟨front, back, hw, hfront, hback⟩ := exists_strip (fun c => !table.isWord c) w
  have hcut : w ++ [fullStop] = front ++ core table.isWord w ++ (back ++ [fullStop]) := by
    conv_lhs => rw [hw]
    simp only [List.append_assoc, core]
  rw [hcut]
  refine strip_eq hfront (fun c hc => ?_) (stripped_strip _ w)
  rcases List.mem_append.mp hc with hc | hc
  · exact hback c hc
  · rw [List.mem_singleton.mp hc, not_isWord_fullStop]
    rfl

/-- A full stop makes the last word an identifier. -/
theorem reported_fullStop {w : Str} : Reported table (w ++ [fullStop]) ↔ Worded table w := by
  rw [Reported, Worded, core_fullStop]
  refine and_iff_left_of_imp fun h => ⟨fullStop, ?_, by decide⟩
  have hend := coreEnd_le_length table.isWord (w ++ [fullStop])
  rw [coreEnd, core_fullStop, List.length_append, List.length_singleton] at hend
  rw [← core_fullStop, ← drop_coreStart, List.drop_append_of_le_length]
  · exact List.mem_append_right _ (List.mem_singleton_self _)
  · have := h.1
    omega

/-- **What the rule reports with a full stop at the end.** -/
theorem identifiers_fullStop (table : WordTable) (text : Str) :
    (identifiers table (strip isSpace (text ++ [fullStop])) ≠ [] →
      identifiers table (strip isSpace text) ≠ [] ∨ EndsInWord table text) ∧
    (EndsInWord table text → identifiers table (strip isSpace (text ++ [fullStop])) ≠ []) := by
  constructor
  · intro hne
    obtain ⟨t, ht⟩ := List.exists_mem_of_ne_nil _ hne
    obtain ⟨u, w, v, htoken, hreported, -⟩ := mem_identifiers_strip.mp ht
    rcases List.eq_nil_or_concat v with rfl | ⟨v, c, rfl⟩
    · obtain ⟨w, c, rfl⟩ := (List.eq_nil_or_concat w).resolve_left (ne_nil_of_worded hreported.1)
      have heq := htoken.eq
      rw [List.append_nil, List.concat_eq_append, ← List.append_assoc] at heq
      obtain ⟨htext, hc⟩ := List.append_inj' heq rfl
      rw [List.concat_eq_append] at htoken hreported
      rw [← (List.cons.inj hc).1] at hreported
      refine Or.inr ⟨u, w, ⟨by rw [htext, List.append_nil], htoken.before, htoken.after, ?_⟩,
        reported_fullStop.mp hreported⟩
      exact fun x hx => htoken.solid x (List.mem_append_left _ hx)
    · have heq := htoken.eq
      rw [List.concat_eq_append, ← List.append_assoc] at heq
      refine Or.inl (List.ne_nil_of_mem (mem_identifiers_strip.mpr
        ⟨u, w, v, ⟨(List.append_inj' heq rfl).1, htoken.before, ?_, htoken.solid⟩, hreported, rfl⟩))
      intro x hx
      refine htoken.after x ?_
      rw [List.concat_eq_append, List.head?_append, Option.mem_def.mp hx]
      rfl
  · rintro ⟨u, w, htoken, hworded⟩
    refine List.ne_nil_of_mem (mem_identifiers_strip.mpr
      ⟨u, w ++ [fullStop], [], ⟨?_, htoken.before, htoken.after, ?_⟩,
        reported_fullStop.mpr hworded, rfl⟩)
    · conv_lhs => rw [htoken.eq]
      simp only [List.append_nil, List.append_assoc]
    · intro c hc
      rcases List.mem_append.mp hc with hc | hc
      · exact htoken.solid c hc
      · rw [List.mem_singleton.mp hc]
        decide

/-- Stripped, the longer text has blanks and the full stop behind what the text has. -/
theorem exists_strip_fullStop (text : Str) : ∃ t, (∀ c ∈ t, isSpace c = true ∨ c = fullStop) ∧
    strip isSpace (text ++ [fullStop]) = strip isSpace text ++ t := by
  obtain ⟨front, back, htext, hfront, hback⟩ := exists_strip isSpace text
  have hstop : isSpace fullStop = false := by decide
  rcases eq_or_ne (strip isSpace text) [] with hnil | hne
  · have hblank : ∀ c ∈ text, isSpace c = true := (strip_eq_nil_iff isSpace).mp hnil
    have hends : Stripped isSpace [fullStop] :=
      ⟨fun x hx => Option.some.inj hx ▸ hstop, fun x hx => Option.some.inj hx ▸ hstop⟩
    have hstrip : strip isSpace (text ++ [fullStop] ++ []) = [fullStop] :=
      strip_eq hblank (fun _ h => absurd h List.not_mem_nil) hends
    rw [List.append_nil] at hstrip
    refine ⟨[fullStop], fun c hc => Or.inr (List.mem_singleton.mp hc), ?_⟩
    rw [hstrip, hnil, List.nil_append]
  · refine ⟨back ++ [fullStop], fun c hc => ?_, ?_⟩
    · exact (List.mem_append.mp hc).imp (hback c) List.mem_singleton.mp
    · have hends : Stripped isSpace (strip isSpace text ++ (back ++ [fullStop])) := by
        constructor
        · intro x hx
          rw [List.head?_append_of_ne_nil _ hne] at hx
          exact (stripped_strip isSpace text).1 x hx
        · intro x hx
          rw [← List.append_assoc, List.getLast?_concat] at hx
          exact Option.some.inj hx ▸ hstop
      have hcut : text ++ [fullStop] =
          front ++ (strip isSpace text ++ (back ++ [fullStop])) ++ [] := by
        conv_lhs => rw [htext]
        simp only [List.append_assoc, List.append_nil]
      rw [hcut]
      exact strip_eq hfront (fun _ h => absurd h List.not_mem_nil) hends

theorem lookFree_phrase (text : String) : (phrase text).lookFree = true := by
  rw [phrase]
  induction text.toList with
  | nil => rfl
  | cons x l ih =>
      rw [List.foldr_cons, lookFree, ih]
      rfl

section Patterns

variable {s t : Str} (ht : ∀ c ∈ t, isSpace c = true ∨ c = fullStop)

include ht

theorem not_isWord_tail : ∀ c ∈ t, table.isWord c = false := by
  intro c hc
  rcases ht c hc with h | rfl
  · exact not_isWord_of_isSpace c h
  · exact not_isWord_fullStop

theorem quotation_append : search table.isWord quotation (s ++ t) =
    search table.isWord quotation s := by
  have hends : ∀ i, ∀ j ∈ ends table.isWord (s ++ t) quotation i, j ≤ s.length := by
    intro i j hj
    obtain ⟨k, rfl, c, hc, hmark⟩ := exists_mark hj
    by_contra hlt
    rw [List.getElem?_append_right (by omega)] at hc
    rcases ht c (List.mem_of_getElem? hc) with h | rfl
    · rcases hmark with rfl | rfl <;> exact absurd h (by decide)
    · rcases hmark with h | h <;> exact absurd h (by decide)
  rw [Bool.eq_iff_iff, search_iff, search_iff, findAll_append
    (fun x hx => not_isWord_tail ht x (List.mem_of_head? hx)) rfl hends]

theorem count_append : (s ++ t).count (ofChar '?') = s.count (ofChar '?') := by
  have hnone : t.count (ofChar '?') = 0 := by
    refine List.count_eq_zero_of_not_mem fun hmem => ?_
    rcases ht _ hmem with h | h <;> exact absurd h (by decide)
  rw [List.count_append, hnone, Nat.add_zero]

theorem multiHop_append :
    search table.isWord multiHop (s ++ t) = search table.isWord multiHop s := by
  refine search_word_append (not_isWord_tail ht) (lookFree_oneOf ?_)
  simp [lookFree, plus, lookFree_phrase]

theorem numericReasoning_append : search table.isWord numericReasoning (s ++ t) =
    search table.isWord numericReasoning s :=
  search_word_append (not_isWord_tail ht)
    (lookFree_oneOf (List.forall_mem_map.mpr fun text _ => lookFree_phrase text))

theorem versionOrDecimal_append : search table.isWord versionOrDecimal (s ++ t) =
    search table.isWord versionOrDecimal s :=
  search_word_append (not_isWord_tail ht) rfl

theorem acronym_append :
    search table.isWord acronym (s ++ t) = search table.isWord acronym s :=
  search_word_append (not_isWord_tail ht) rfl

end Patterns

/-! ### The type of a query -/

/-- The rule reports nothing iff it takes no token for an identifier. -/
theorem identifiers_eq_nil_iff (s : Str) :
    identifiers table s = [] ↔ ¬ ∃ u w v, Token isSpace s u w v ∧ Reported table w := by
  rw [List.eq_nil_iff_forall_not_mem]
  simp only [mem_identifiers_iff]
  constructor
  · rintro hnone ⟨u, w, v, htoken, hreported⟩
    exact hnone _ ⟨u, w, v, htoken, hreported, rfl⟩
  · rintro hnone t ⟨u, w, v, htoken, hreported, -⟩
    exact hnone ⟨u, w, v, htoken, hreported⟩

/-- **The entities of a query**: there are some iff one of four rules finds one. -/
theorem entities_eq_nil_iff (s : Str) : entities table s = [] ↔
    search table.isWord quotation s = false ∧ identifiers table s = [] ∧
      search table.isWord versionOrDecimal s = false ∧ search table.isWord acronym s = false := by
  have hacronyms : identifiers table s = [] →
      acronyms table s = findTexts table.isWord acronym s := by
    intro hnil
    refine List.filter_eq_self.mpr fun t _ => ?_
    rw [hnil]
    rfl
  rw [List.eq_nil_iff_forall_not_mem]
  simp only [mem_entities, not_or, forall_and, ← List.eq_nil_iff_forall_not_mem,
    search_eq_false_iff]
  constructor
  · rintro ⟨hquoted, hidentifiers, hversions, hacronym⟩
    rw [hacronyms hidentifiers] at hacronym
    exact ⟨List.map_eq_nil_iff.mp hquoted, hidentifiers, List.map_eq_nil_iff.mp hversions,
      List.map_eq_nil_iff.mp hacronym⟩
  · rintro ⟨hquoted, hidentifiers, hversion, hacronym⟩
    refine ⟨List.map_eq_nil_iff.mpr hquoted, hidentifiers, List.map_eq_nil_iff.mpr hversion, ?_⟩
    rw [hacronyms hidentifiers]
    exact List.map_eq_nil_iff.mpr hacronym

/-- **When a query is one for an exact entity.** -/
theorem queryType_eq_exactEntity (text : Str) :
    (analyze table text).queryType = .exactEntity ↔
      search table.isWord multiHop (strip isSpace text) = false ∧
        ¬ 1 < (strip isSpace text).count (ofChar '?') ∧
        search table.isWord numericReasoning (strip isSpace text) = false ∧
        entities table (strip isSpace text) ≠ [] := by
  rw [queryType_eq_typeOf, typeOf_eq_exactEntity, mem_fired_iff, mem_fired_iff, Fires, Fires,
    not_or, Bool.not_eq_true, Bool.not_eq_true, ← entities_ne_nil_iff, and_assoc]

/-- A rule that comes before the one for exact entities fires, or that one does. -/
def Decided (table : WordTable) (s : Str) : Prop :=
  search table.isWord multiHop s = true ∨ 1 < s.count (ofChar '?') ∨
    search table.isWord numericReasoning s = true ∨ search table.isWord quotation s = true ∨
    (∃ u w v, Token isSpace s u w v ∧ Reported table w) ∨
    search table.isWord versionOrDecimal s = true ∨ search table.isWord acronym s = true

/-- **When a full stop turns a query into one for an exact entity**: no rule decides on it, and
it ends in a word. -/
theorem fullStop_iff (text : Str) :
    ((∀ token ∈ identifiers table (strip isSpace text), ¬ IsIdentifier token) →
      (analyze table text).queryType ≠ .exactEntity →
        (analyze table (text ++ [fullStop])).queryType ≠ .exactEntity) ↔
      Decided table (strip isSpace text) ∨ ¬ EndsInWord table text := by
  obtain ⟨t, ht, hstrip⟩ := exists_strip_fullStop text
  obtain ⟨honly, hends⟩ := identifiers_fullStop table text
  have hsame : (analyze table (text ++ [fullStop])).queryType = .exactEntity ↔
      search table.isWord multiHop (strip isSpace text) = false ∧
        ¬ 1 < (strip isSpace text).count (ofChar '?') ∧
        search table.isWord numericReasoning (strip isSpace text) = false ∧
        entities table (strip isSpace (text ++ [fullStop])) ≠ [] := by
    rw [queryType_eq_exactEntity, hstrip, multiHop_append ht, count_append ht,
      numericReasoning_append ht]
  constructor
  · intro hkept
    by_contra hnot
    rw [Decided, not_or, not_not] at hnot
    simp only [not_or, Bool.not_eq_true] at hnot
    obtain ⟨⟨hmultihop, hcount, hnumeric, hquotation, hidentifier, hversion, hacronym⟩, hword⟩ :=
      hnot
    have hnone := (identifiers_eq_nil_iff _).mpr hidentifier
    refine hkept ?_ ?_ (hsame.mpr ⟨hmultihop, hcount, hnumeric, ?_⟩)
    · rw [hnone]
      exact fun _ h => absurd h List.not_mem_nil
    · rw [ne_eq, queryType_eq_exactEntity]
      exact fun h => h.2.2.2 ((entities_eq_nil_iff _).mpr
        ⟨hquotation, hnone, hversion, hacronym⟩)
    · intro hentities
      exact hends hword ((entities_eq_nil_iff _).mp hentities).2.1
  · intro hcondition _ hne hexact
    obtain ⟨hmultihop, hcount, hnumeric, hentities⟩ := hsame.mp hexact
    have hnone : entities table (strip isSpace text) = [] := by
      by_contra hsome
      exact hne ((queryType_eq_exactEntity text).mpr ⟨hmultihop, hcount, hnumeric, hsome⟩)
    obtain ⟨hquotation, hidentifier, hversion, hacronym⟩ := (entities_eq_nil_iff _).mp hnone
    have hreported : identifiers table (strip isSpace (text ++ [fullStop])) ≠ [] := by
      intro hnone'
      refine hentities ((entities_eq_nil_iff _).mpr ⟨?_, hnone', ?_, ?_⟩)
      · rw [hstrip, quotation_append ht, hquotation]
      · rw [hstrip, versionOrDecimal_append ht, hversion]
      · rw [hstrip, acronym_append ht, hacronym]
    rcases honly hreported with h | hword
    · exact h hidentifier
    · refine hcondition.elim (fun hdecided => ?_) fun h => h hword
      rw [Decided, hmultihop, hnumeric, hquotation, hversion, hacronym] at hdecided
      have htoken := (identifiers_eq_nil_iff _).mp hidentifier
      simp only [Bool.false_eq_true, hcount, htoken, or_self] at hdecided

/-- **When reported identifiers are identifiers.**  They all are iff what makes a token one is
never behind its core only; and a full stop at the end turns a query that has none into one for
an exact entity iff no rule decides on the query before and it ends in a word. -/
theorem identifiers_honest_iff (table : WordTable) (text : Str) :
    ((∀ token ∈ identifiers table (strip isSpace text), IsIdentifier token) ↔
      ¬ ∃ u w v, Token isSpace text u w v ∧ Dangling table w) ∧
    (((∀ token ∈ identifiers table (strip isSpace text), ¬ IsIdentifier token) →
      (analyze table text).queryType ≠ .exactEntity →
        (analyze table (text ++ [fullStop])).queryType ≠ .exactEntity) ↔
      Decided table (strip isSpace text) ∨ ¬ EndsInWord table text) :=
  ⟨isIdentifier_iff text, fullStop_iff text⟩

/-- A word with a full stop. -/
def helloStop : Str := lit ['h', 'e', 'l', 'l', 'o', '.']

/-- **A word is reported for the full stop behind it**, and its query is one for an exact
entity. -/
theorem identifiers_not_honest :
    (¬ ∀ (table : WordTable) (text : Str), ∀ token ∈ identifiers table (strip isSpace text),
      IsIdentifier token) ∧
    ¬ ∀ (table : WordTable) (text : Str),
      (∀ token ∈ identifiers table (strip isSpace text), ¬ IsIdentifier token) →
        (analyze table text).queryType ≠ .exactEntity →
          (analyze table (text ++ [fullStop])).queryType ≠ .exactEntity := by
  constructor
  · intro hclaim
    have hreported : lit ['h', 'e', 'l', 'l', 'o'] ∈
        identifiers asciiTable (strip isSpace helloStop) := by decide +kernel
    obtain ⟨-, c, hc, hspecial⟩ := hclaim asciiTable helloStop _ hreported
    have hplain : (lit ['h', 'e', 'l', 'l', 'o']).all (fun c => !isSpecial c) = true := by
      decide +kernel
    have hc' := List.all_eq_true.mp hplain c hc
    rw [hspecial] at hc'
    cases hc'
  · intro hclaim
    have hnone : identifiers asciiTable
        (strip isSpace (lit ['h', 'e', 'l', 'l', 'o'])) = [] := by decide +kernel
    refine hclaim asciiTable (lit ['h', 'e', 'l', 'l', 'o']) ?_ ?_ ?_
    · rw [hnone]
      exact fun _ h => absurd h List.not_mem_nil
    · decide +kernel
    · decide +kernel

end Routing
end EvidenceLab
