/-
# Regular expressions with priorities

A pattern as a backtracking matcher reads it.  Such a matcher tries the ways to match in a fixed
order: the left branch of an alternative before the right one, and one more turn of a repetition
before none.  `ends` lists where these ways end, in that order, and a match ends at the first of
them (`matchAt`).  `findAll` reads a string from left to right and takes the match that starts
first, then the first that starts behind its end.

A pattern that looks ahead sees more than it matches.  One that does not, and whose matches end
inside a string, matches there what it matches in a longer one (`findAll_append`).
-/

import EvidenceLab.Text.Str

namespace EvidenceLab
namespace Text

/-- Patterns over an alphabet. -/
inductive Regex (α : Type*)
  /-- One character of a class. -/
  | one (p : α → Bool)
  /-- Nothing. -/
  | empty
  | seq (q r : Regex α)
  /-- The first pattern, or else the second. -/
  | alt (q r : Regex α)
  /-- As many turns as there are, or fewer. -/
  | many (r : Regex α)
  /-- Between a word character and one that is none. -/
  | boundary
  /-- Nothing, if the pattern matches from here on. -/
  | ahead (r : Regex α)

variable {α : Type*}

namespace Regex

/-- At least one turn. -/
def plus (r : Regex α) : Regex α := seq r (many r)

/-- One turn, or else none. -/
def opt (r : Regex α) : Regex α := alt r empty

/-- `n` characters of a class. -/
def exactly (p : α → Bool) : ℕ → Regex α → Regex α
  | 0, r => r
  | n + 1, r => seq (one p) (exactly p n r)

/-- At least `n` characters of a class. -/
def atLeast (n : ℕ) (p : α → Bool) : Regex α := exactly p n (many (one p))

/-- A pattern between two boundaries. -/
def word (r : Regex α) : Regex α := seq boundary (seq r boundary)

/-- The first of the patterns that matches. -/
def oneOf : List (Regex α) → Regex α
  | [] => one fun _ => false
  | r :: rs => alt r (oneOf rs)

/-- The pattern looks at nothing that it does not match. -/
def lookFree : Regex α → Bool
  | one _ => true
  | empty => true
  | seq q r => lookFree q && lookFree r
  | alt q r => lookFree q && lookFree r
  | many r => lookFree r
  | boundary => true
  | ahead _ => false

end Regex

open Regex

/-! ### Matching -/

/-- The ends of a repetition from `i` on, in `fuel` turns at most.  A turn that matches nothing
is not taken. -/
def repeated (step : ℕ → List ℕ) : ℕ → ℕ → List ℕ
  | 0, i => [i]
  | fuel + 1, i => ((step i).filter (i < ·)).flatMap (repeated step fuel) ++ [i]

section Matching

variable (isWord : α → Bool) (s : List α)

/-- There is a character of the class at `i`. -/
def holdsAt (p : α → Bool) (i : ℕ) : Bool := s[i]?.any p

/-- The word characters begin or end at `i`. -/
def boundaryAt (i : ℕ) : Bool := (decide (0 < i) && holdsAt s isWord (i - 1)) != holdsAt s isWord i

/-- Where the matches from a position end, in the order in which they are tried. -/
def ends : Regex α → ℕ → List ℕ
  | one p, i => if holdsAt s p i then [i + 1] else []
  | empty, i => [i]
  | seq q r, i => (ends q i).flatMap (ends r)
  | alt q r, i => ends q i ++ ends r i
  | many r, i => repeated (ends r) s.length i
  | boundary, i => if boundaryAt isWord s i then [i] else []
  | ahead r, i => if ends r i = [] then [] else [i]

/-- Where the match from a position ends. -/
def matchAt (r : Regex α) (i : ℕ) : Option ℕ := (ends isWord s r i).head?

end Matching

/-- The matches from these positions on, none before `next`. -/
def scan (find : ℕ → Option ℕ) : ℕ → List ℕ → List (ℕ × ℕ)
  | _, [] => []
  | next, i :: is =>
      if i < next then scan find next is
      else (find i).elim (scan find next is) fun j => (i, j) :: scan find j is

section Finding

variable (isWord : α → Bool) (r : Regex α) (s : List α)

/-- The start and the end of every match, as `re.finditer` gives them for a pattern that does not
match the empty string. -/
def findAll : List (ℕ × ℕ) := scan (matchAt isWord s r) 0 (List.range (s.length + 1))

/-- What `re.findall` gives for a pattern without groups. -/
def findTexts : List (List α) := (findAll isWord r s).map fun m => slice s m.1 m.2

/-- `re.search` finds something. -/
def search : Bool := (List.range (s.length + 1)).any fun i => (matchAt isWord s r i).isSome

/-- `re.fullmatch` finds something. -/
def fullMatch : Bool := (ends isWord s r 0).contains s.length

end Finding

/-! ### Scanning -/

section Scanning

variable {find find' : ℕ → Option ℕ} {is is' : List ℕ} {next i j : ℕ}

theorem scan_of_skip (h : i < next ∨ find i = none) :
    scan find next (i :: is) = scan find next is := by
  rw [scan]
  rcases h with hlt | hnone
  · rw [if_pos hlt]
  · rw [hnone]
    exact ite_self _

theorem scan_of_hit (hle : next ≤ i) (h : find i = some j) :
    scan find next (i :: is) = (i, j) :: scan find j is := by
  rw [scan, if_neg (Nat.not_lt.mpr hle), h]
  rfl

/-- A position is passed over, or a match starts there. -/
theorem skip_or_hit (find : ℕ → Option ℕ) (next i : ℕ) :
    (i < next ∨ find i = none) ∨ ∃ j, next ≤ i ∧ find i = some j := by
  rcases Nat.lt_or_ge i next with hlt | hle
  · exact Or.inl (Or.inl hlt)
  · cases h : find i with
    | none => exact Or.inl (Or.inr rfl)
    | some j => exact Or.inr ⟨j, hle, rfl⟩

theorem scan_congr (h : ∀ i ∈ is, find i = find' i) : scan find next is = scan find' next is := by
  induction is generalizing next with
  | nil => rfl
  | cons i is ih =>
      have hrest : ∀ k ∈ is, find k = find' k := fun k hk => h k (List.mem_cons_of_mem i hk)
      have hfind := h i (List.mem_cons_self ..)
      rcases skip_or_hit find next i with hskip | ⟨j, hle, hhit⟩
      · rw [scan_of_skip hskip, scan_of_skip (hfind ▸ hskip), ih hrest]
      · rw [scan_of_hit hle hhit, scan_of_hit hle (hfind ▸ hhit), ih hrest]

/-- Where nothing starts, nothing is found. -/
theorem scan_eq_nil (h : ∀ i ∈ is, find i = none) : scan find next is = [] := by
  induction is with
  | nil => rfl
  | cons i is ih =>
      rw [scan_of_skip (Or.inr (h i (List.mem_cons_self ..))),
        ih fun k hk => h k (List.mem_cons_of_mem i hk)]

theorem scan_append (h : ∀ i ∈ is', find i = none) :
    scan find next (is ++ is') = scan find next is := by
  induction is generalizing next with
  | nil => exact scan_eq_nil h
  | cons i is ih =>
      rw [List.cons_append]
      rcases skip_or_hit find next i with hskip | ⟨j, hle, hhit⟩
      · rw [scan_of_skip hskip, scan_of_skip hskip, ih]
      · rw [scan_of_hit hle hhit, scan_of_hit hle hhit, ih]

/-- What is found is a match. -/
theorem of_mem_scan {m : ℕ × ℕ} (h : m ∈ scan find next is) : m.1 ∈ is ∧ find m.1 = some m.2 := by
  induction is generalizing next with
  | nil => cases h
  | cons i is ih =>
      rcases skip_or_hit find next i with hskip | ⟨j, hle, hhit⟩
      · rw [scan_of_skip hskip] at h
        exact (ih h).imp_left (List.mem_cons_of_mem i)
      · rw [scan_of_hit hle hhit] at h
        rcases List.mem_cons.mp h with rfl | h
        · exact ⟨List.mem_cons_self .., hhit⟩
        · exact (ih h).imp_left (List.mem_cons_of_mem i)

/-- **A match that is not found starts inside one that is.** -/
theorem exists_mem_scan (his : is.Pairwise (· < ·)) (hi : i ∈ is) (hle : next ≤ i)
    (h : find i = some j) : ∃ m ∈ scan find next is, m.1 ≤ i ∧ (m.1 = i ∨ i < m.2) := by
  induction is generalizing next with
  | nil => cases hi
  | cons k is ih =>
      obtain ⟨hfirst, hrest⟩ := List.pairwise_cons.mp his
      rcases skip_or_hit find next k with hskip | ⟨j', hle', hhit⟩
      · rw [scan_of_skip hskip]
        rcases List.mem_cons.mp hi with rfl | hi
        · rcases hskip with hlt | hnone
          · omega
          · cases hnone.symm.trans h
        · exact ih hrest hi hle
      · rw [scan_of_hit hle' hhit]
        rcases List.mem_cons.mp hi with rfl | hi
        · exact ⟨_, List.mem_cons_self .., le_rfl, Or.inl rfl⟩
        · have hlt := hfirst i hi
          rcases Nat.lt_or_ge i j' with hin | hout
          · exact ⟨_, List.mem_cons_self .., hlt.le, Or.inr hin⟩
          · obtain ⟨m, hm, hcover⟩ := ih hrest hi hout
            exact ⟨m, List.mem_cons_of_mem _ hm, hcover⟩

variable (hfind : ∀ i j, find i = some j → i ≤ j)

include hfind

theorem le_of_mem_scan {m : ℕ × ℕ} (h : m ∈ scan find next is) : next ≤ m.1 := by
  induction is generalizing next with
  | nil => cases h
  | cons i is ih =>
      rcases skip_or_hit find next i with hskip | ⟨j, hle, hhit⟩
      · rw [scan_of_skip hskip] at h
        exact ih h
      · rw [scan_of_hit hle hhit] at h
        rcases List.mem_cons.mp h with rfl | h
        · exact hle
        · exact hle.trans ((hfind i j hhit).trans (ih h))

/-- **The matches do not overlap.** -/
theorem pairwise_scan : (scan find next is).Pairwise fun m m' => m.2 ≤ m'.1 := by
  induction is generalizing next with
  | nil => exact List.Pairwise.nil
  | cons i is ih =>
      rcases skip_or_hit find next i with hskip | ⟨j, hle, hhit⟩
      · rw [scan_of_skip hskip]
        exact ih
      · rw [scan_of_hit hle hhit]
        exact List.pairwise_cons.mpr ⟨fun m hm => le_of_mem_scan hfind hm, ih⟩

end Scanning

theorem lookFree_oneOf {rs : List (Regex α)} (h : ∀ r ∈ rs, r.lookFree = true) :
    (oneOf rs).lookFree = true := by
  induction rs with
  | nil => rfl
  | cons r rs ih =>
      rw [oneOf, lookFree, h r (List.mem_cons_self ..),
        ih fun q hq => h q (List.mem_cons_of_mem r hq)]
      rfl

/-! ### Where matches end -/

section Ends

variable {isWord : α → Bool} {s : List α} {p : α → Bool} {i j k : ℕ}

theorem holdsAt_iff : holdsAt s p i = true ↔ ∃ x, s[i]? = some x ∧ p x = true := by
  rw [holdsAt, Option.any_eq_true]

/-- The characters from `i` up to `j` are all there, and of the class. -/
def Run (p : α → Bool) (s : List α) (i j : ℕ) : Prop :=
  i ≤ j ∧ ∀ n, i ≤ n → n < j → holdsAt s p n = true

theorem Run.refl (p : α → Bool) (s : List α) (i : ℕ) : Run p s i i :=
  ⟨le_rfl, fun _ hn hn' => absurd hn' (Nat.not_lt.mpr hn)⟩

theorem Run.trans (h : Run p s i k) (h' : Run p s k j) : Run p s i j := by
  refine ⟨h.1.trans h'.1, fun n hn hn' => ?_⟩
  rcases Nat.lt_or_ge n k with hlt | hge
  · exact h.2 n hn hlt
  · exact h'.2 n hge hn'

theorem run_cons (h : holdsAt s p i = true) : Run p s i j ↔ j = i ∨ Run p s (i + 1) j := by
  constructor
  · rintro ⟨hle, hrun⟩
    rcases hle.eq_or_lt with rfl | hlt
    · exact Or.inl rfl
    · exact Or.inr ⟨hlt, fun n hn hn' => hrun n (by omega) hn'⟩
  · rintro (rfl | ⟨hle, hrun⟩)
    · exact Run.refl p s _
    · refine ⟨by omega, fun n hn hn' => ?_⟩
      rcases hn.eq_or_lt with rfl | hlt
      · exact h
      · exact hrun n hlt hn'

theorem run_of_not (h : holdsAt s p i = false) : Run p s i j ↔ j = i := by
  constructor
  · rintro ⟨hle, hrun⟩
    rcases hle.eq_or_lt with rfl | hlt
    · rfl
    · cases h.symm.trans (hrun i le_rfl hlt)
  · rintro rfl
    exact Run.refl p s _

theorem lt_length_of_holdsAt (h : holdsAt s p i = true) : i < s.length := by
  obtain ⟨x, hx, -⟩ := holdsAt_iff.mp h
  exact (List.getElem?_eq_some_iff.mp hx).1

/-- **A repetition of a class ends where the class does, or before**, the longest first. -/
theorem repeated_one (fuel : ℕ) (hfuel : s.length ≤ fuel + i) :
    (∀ j, j ∈ repeated (ends isWord s (one p)) fuel i ↔ Run p s i j) ∧
      (repeated (ends isWord s (one p)) fuel i).Pairwise (· > ·) := by
  induction fuel generalizing i with
  | zero =>
      have hnot : holdsAt s p i = false := by
        by_contra h
        have := lt_length_of_holdsAt (Bool.not_eq_false _ ▸ h)
        omega
      exact ⟨fun j => by rw [repeated, List.mem_singleton, run_of_not hnot],
        List.pairwise_singleton ..⟩
  | succ fuel ih =>
      rw [repeated, ends]
      cases h : holdsAt s p i with
      | false =>
          rw [if_neg Bool.false_ne_true]
          exact ⟨fun j => by simp [run_of_not h], by simp⟩
      | true =>
          obtain ⟨hmem, hsorted⟩ := ih (i := i + 1) (by omega)
          have hturn : ([i + 1].filter (i < ·)).flatMap
              (repeated (ends isWord s (one p)) fuel) =
                repeated (ends isWord s (one p)) fuel (i + 1) := by simp
          rw [if_pos rfl, hturn]
          refine ⟨?_, ?_⟩
          · intro j
            rw [List.mem_append, List.mem_singleton, hmem, run_cons h, or_comm]
          · refine List.pairwise_append.mpr ⟨hsorted, List.pairwise_singleton .., ?_⟩
            intro j hj k hk
            rw [List.mem_singleton.mp hk]
            exact ((hmem j).mp hj).1

/-- The ends of `n` characters of a class and more. -/
theorem ends_atLeast (n : ℕ) :
    (∀ j, j ∈ ends isWord s (atLeast n p) i ↔ i + n ≤ j ∧ Run p s i j) ∧
      (ends isWord s (atLeast n p) i).Pairwise (· > ·) := by
  induction n generalizing i with
  | zero =>
      obtain ⟨hmem, hsorted⟩ : (∀ j, j ∈ ends isWord s (many (one p)) i ↔ Run p s i j) ∧
          (ends isWord s (many (one p)) i).Pairwise (· > ·) := repeated_one s.length (by omega)
      exact ⟨fun j => (hmem j).trans ⟨fun hrun => ⟨hrun.1, hrun⟩, And.right⟩, hsorted⟩
  | succ n ih =>
      rw [atLeast, exactly, ends, ends]
      cases h : holdsAt s p i with
      | false =>
          rw [if_neg Bool.false_ne_true]
          refine ⟨fun j => ?_, by simp⟩
          rw [run_of_not h]
          simp only [List.flatMap_nil, List.not_mem_nil, false_iff]
          omega
      | true =>
          obtain ⟨hmem, hsorted⟩ := ih (i := i + 1)
          rw [if_pos rfl, List.flatMap_singleton]
          refine ⟨fun j => ?_, hsorted⟩
          rw [← atLeast, hmem, run_cons h]
          constructor
          · rintro ⟨hle, hrun⟩
            exact ⟨by omega, Or.inr hrun⟩
          · rintro ⟨hle, rfl | hrun⟩
            · omega
            · exact ⟨by omega, hrun⟩

theorem ends_seq_boundary (r : Regex α) (i : ℕ) :
    ends isWord s (seq r boundary) i = (ends isWord s r i).filter (boundaryAt isWord s) := by
  rw [ends]
  induction ends isWord s r i with
  | nil => rfl
  | cons k l ih =>
      rw [List.flatMap_cons, List.filter_cons, ih, ends]
      split_ifs <;> rfl

theorem ends_boundary_seq (r : Regex α) (i : ℕ) : ends isWord s (seq boundary r) i =
    if boundaryAt isWord s i then ends isWord s r i else [] := by
  rw [ends, ends]
  split_ifs
  · exact List.flatMap_singleton ..
  · rfl

theorem ends_ahead_seq (q r : Regex α) (i : ℕ) : ends isWord s (seq (ahead q) r) i =
    if ends isWord s q i = [] then [] else ends isWord s r i := by
  rw [ends, ends]
  split_ifs
  · rfl
  · exact List.flatMap_singleton ..

/-- The first of a descending list is its greatest. -/
theorem head?_eq_some_iff {l : List ℕ} (hl : l.Pairwise (· > ·)) :
    l.head? = some j ↔ j ∈ l ∧ ∀ k ∈ l, k ≤ j := by
  cases l with
  | nil => simp
  | cons i l =>
      obtain ⟨hfirst, -⟩ := List.pairwise_cons.mp hl
      rw [List.head?_cons, Option.some_inj]
      constructor
      · rintro rfl
        refine ⟨List.mem_cons_self .., fun k hk => ?_⟩
        rcases List.mem_cons.mp hk with rfl | hk
        · exact le_rfl
        · exact (hfirst k hk).le
      · rintro ⟨hj, hgreatest⟩
        have hle := hgreatest i (List.mem_cons_self ..)
        rcases List.mem_cons.mp hj with rfl | hj
        · rfl
        · exact absurd (hfirst j hj) (Nat.not_lt.mpr hle)

theorem le_of_mem_repeated {step : ℕ → List ℕ} {fuel : ℕ} (h : j ∈ repeated step fuel i) :
    i ≤ j := by
  induction fuel generalizing i with
  | zero => exact (List.mem_singleton.mp h).ge
  | succ fuel ih =>
      rw [repeated, List.mem_append, List.mem_flatMap, List.mem_singleton] at h
      rcases h with ⟨k, hk, hj⟩ | rfl
      · have hlt : i < k := of_decide_eq_true (List.mem_filter.mp hk).2
        exact hlt.le.trans (ih hj)
      · exact le_rfl

/-- A match does not end before it starts. -/
theorem le_of_mem_ends {r : Regex α} (h : j ∈ ends isWord s r i) : i ≤ j := by
  induction r generalizing i j with
  | one p =>
      rw [ends] at h
      split_ifs at h
      · rw [List.mem_singleton.mp h]
        exact Nat.le_succ i
      · cases h
  | empty => exact (List.mem_singleton.mp h).ge
  | seq q r ihq ihr =>
      obtain ⟨k, hk, hj⟩ := List.mem_flatMap.mp h
      exact (ihq hk).trans (ihr hj)
  | alt q r ihq ihr => exact (List.mem_append.mp h).elim ihq ihr
  | many r ih => exact le_of_mem_repeated h
  | boundary =>
      rw [ends] at h
      split_ifs at h
      · exact (List.mem_singleton.mp h).ge
      · cases h
  | ahead r ih =>
      rw [ends] at h
      split_ifs at h
      · cases h
      · exact (List.mem_singleton.mp h).ge

theorem le_of_matchAt {r : Regex α} (h : matchAt isWord s r i = some j) : i ≤ j :=
  le_of_mem_ends (List.mem_of_head? h)

end Ends

/-- A match that starts inside a string ends there. -/
theorem le_length_of_mem_ends {isWord : α → Bool} {s : List α} {r : Regex α} {i j : ℕ}
    (h : j ∈ ends isWord s r i) (hi : i ≤ s.length) : j ≤ s.length := by
  induction r generalizing i j with
  | one p =>
      rw [ends] at h
      split_ifs at h with hp
      · rw [List.mem_singleton.mp h]
        exact lt_length_of_holdsAt hp
      · cases h
  | empty => exact List.mem_singleton.mp h ▸ hi
  | seq q r ihq ihr =>
      obtain ⟨k, hk, hj⟩ := List.mem_flatMap.mp h
      exact ihr hj (ihq hk hi)
  | alt q r ihq ihr => exact (List.mem_append.mp h).elim (fun h => ihq h hi) fun h => ihr h hi
  | many r ih =>
      rw [ends] at h
      have hrepeated : ∀ fuel i j, i ≤ s.length →
          j ∈ repeated (ends isWord s r) fuel i → j ≤ s.length := by
        intro fuel
        induction fuel with
        | zero => exact fun i j hi hj => List.mem_singleton.mp hj ▸ hi
        | succ fuel ih' =>
            intro i j hi hj
            rw [repeated, List.mem_append, List.mem_flatMap, List.mem_singleton] at hj
            rcases hj with ⟨k, hk, hj⟩ | rfl
            · exact ih' k j (ih (List.mem_of_mem_filter hk) hi) hj
            · exact hi
      exact hrepeated _ _ _ hi h
  | boundary =>
      rw [ends] at h
      split_ifs at h
      · exact List.mem_singleton.mp h ▸ hi
      · cases h
  | ahead r ih =>
      rw [ends] at h
      split_ifs at h
      · cases h
      · exact List.mem_singleton.mp h ▸ hi

/-- Of two elements of a list in order, one comes before the other. -/
theorem eq_or_of_pairwise {β : Type*} {R : β → β → Prop} {l : List β} (hl : l.Pairwise R) {a b : β}
    (ha : a ∈ l) (hb : b ∈ l) : a = b ∨ R a b ∨ R b a := by
  induction l with
  | nil => cases ha
  | cons x l ih =>
      obtain ⟨hx, hrest⟩ := List.pairwise_cons.mp hl
      rcases List.mem_cons.mp ha with rfl | ha'
      · exact (List.mem_cons.mp hb).imp Eq.symm fun hb => Or.inl (hx b hb)
      · rcases List.mem_cons.mp hb with rfl | hb'
        · exact Or.inr (Or.inr (hx a ha'))
        · exact ih hrest ha' hb'

/-- **A match is found iff none that starts before it reaches into it.** -/
theorem mem_findAll_iff {isWord : α → Bool} {r : Regex α} {s : List α} {m : ℕ × ℕ} :
    m ∈ findAll isWord r s ↔ m.1 ≤ s.length ∧ matchAt isWord s r m.1 = some m.2 ∧
      ∀ m' ∈ findAll isWord r s, m'.1 < m.1 → m'.2 ≤ m.1 := by
  constructor
  · intro hm
    obtain ⟨hi, hmatch⟩ := of_mem_scan hm
    refine ⟨Nat.lt_succ_iff.mp (List.mem_range.mp hi), hmatch, fun m' hm' hlt => ?_⟩
    have hle := le_of_matchAt hmatch
    rcases eq_or_of_pairwise (pairwise_scan fun _ _ => le_of_matchAt) hm hm' with rfl | h | h
    · omega
    · omega
    · exact h
  · rintro ⟨hi, hmatch, hfirst⟩
    obtain ⟨m', hm', hle, hcover⟩ := exists_mem_scan List.pairwise_lt_range
      (List.mem_range.mpr (Nat.lt_succ_of_le hi)) (Nat.zero_le _) hmatch
    have heq : m'.1 = m.1 := by
      rcases hcover with heq | hlt
      · exact heq
      · by_contra hne
        exact absurd (hfirst m' hm' (lt_of_le_of_ne hle hne)) (Nat.not_le.mpr hlt)
    have hmatch' := (of_mem_scan hm').2
    rw [heq, hmatch] at hmatch'
    rwa [Prod.ext heq.symm (Option.some.inj hmatch')]

/-- **A pattern is found iff there are matches to be found.** -/
theorem search_iff {isWord : α → Bool} {r : Regex α} {s : List α} :
    search isWord r s = true ↔ findAll isWord r s ≠ [] := by
  rw [search, List.any_eq_true]
  constructor
  · rintro ⟨i, hi, hmatch⟩
    obtain ⟨j, hj⟩ := Option.isSome_iff_exists.mp hmatch
    obtain ⟨m, hm, -⟩ := exists_mem_scan List.pairwise_lt_range hi (Nat.zero_le i) hj
    exact List.ne_nil_of_mem hm
  · intro hne
    obtain ⟨m, hm⟩ := List.exists_mem_of_ne_nil _ hne
    obtain ⟨hi, hmatch⟩ := of_mem_scan hm
    exact ⟨m.1, hi, Option.isSome_iff_exists.mpr ⟨m.2, hmatch⟩⟩

/-- **A pattern is found iff a match of it ends somewhere.** -/
theorem search_iff_exists {isWord : α → Bool} {r : Regex α} {s : List α} :
    search isWord r s = true ↔ ∃ i ≤ s.length, ∃ j, j ∈ ends isWord s r i := by
  rw [search, List.any_eq_true]
  refine exists_congr fun i => and_congr (List.mem_range.trans Nat.lt_succ_iff) ?_
  rw [matchAt, List.isSome_head?, ne_eq, List.eq_nil_iff_forall_not_mem, not_forall]
  simp only [not_not]

theorem search_eq_false_iff {isWord : α → Bool} {r : Regex α} {s : List α} :
    search isWord r s = false ↔ findAll isWord r s = [] := by
  rw [← Bool.not_eq_true, search_iff, not_not]

/-! ### What stands behind a string -/

section Append

variable {isWord : α → Bool} {s t : List α} {i n : ℕ}

/-- What goes past a place never comes back. -/
theorem filter_flatMap_le (step step' : ℕ → List ℕ) {l l' : List ℕ}
    (hl : l'.filter (· ≤ n) = l) (hin : ∀ k ∈ l', k ≤ n → (step' k).filter (· ≤ n) = step k)
    (hout : ∀ k, ∀ j ∈ step' k, k ≤ j) :
    (l'.flatMap step').filter (· ≤ n) = l.flatMap step := by
  subst hl
  induction l' with
  | nil => rfl
  | cons k l' ih =>
      rw [List.flatMap_cons, List.filter_append, ih fun k' hk' =>
        hin k' (List.mem_cons_of_mem k hk'), List.filter_cons]
      by_cases hle : k ≤ n
      · rw [if_pos (decide_eq_true hle), List.flatMap_cons, hin k (List.mem_cons_self ..) hle]
      · have hnil : (step' k).filter (· ≤ n) = [] := by
          refine List.filter_eq_nil_iff.mpr fun j hj => ?_
          have := hout k j hj
          rw [decide_eq_true_eq]
          omega
        rw [if_neg (by simpa using hle), hnil, List.nil_append]

/-- From the place on, nothing is repeated before it. -/
theorem filter_repeated_self (step : ℕ → List ℕ) (fuel n : ℕ) :
    (repeated step fuel n).filter (· ≤ n) = [n] := by
  cases fuel with
  | zero => simp [repeated]
  | succ fuel =>
      have hnil : ((step n).filter (n < ·)).filter (· ≤ n) = [] := by
        refine List.filter_eq_nil_iff.mpr fun k hk => ?_
        have hlt : n < k := of_decide_eq_true (List.mem_filter.mp hk).2
        rw [decide_eq_true_eq]
        omega
      rw [repeated, List.filter_append, filter_flatMap_le (fun _ => []) _ hnil]
      · simp
      · intro k hk hle
        have hlt : n < k := of_decide_eq_true (List.mem_filter.mp hk).2
        omega
      · exact fun k j => le_of_mem_repeated

theorem filter_repeated {step step' : ℕ → List ℕ}
    (hin : ∀ k ≤ n, (step' k).filter (· ≤ n) = step k) {fuel fuel' : ℕ} (hi : i ≤ n)
    (hfuel : n ≤ fuel + i) (hfuel' : n ≤ fuel' + i) :
    (repeated step' fuel' i).filter (· ≤ n) = repeated step fuel i := by
  induction fuel generalizing i fuel' with
  | zero =>
      obtain rfl : i = n := by omega
      exact filter_repeated_self step' fuel' i
  | succ fuel ih =>
      have hfirst : ((step' i).filter (i < ·)).filter (· ≤ n) = (step i).filter (i < ·) := by
        rw [← hin i hi, List.filter_filter, List.filter_filter]
        exact List.filter_congr fun k _ => Bool.and_comm ..
      rcases hi.eq_or_lt with rfl | hlt
      · have hnil : (step i).filter (i < ·) = [] := by
          refine List.filter_eq_nil_iff.mpr fun k hk => ?_
          rw [← hin i le_rfl] at hk
          have hle : k ≤ i := of_decide_eq_true (List.mem_filter.mp hk).2
          rw [decide_eq_true_eq]
          omega
        rw [filter_repeated_self, repeated, hnil]
        rfl
      · obtain ⟨fuel', rfl⟩ : ∃ m, fuel' = m + 1 := ⟨fuel' - 1, by omega⟩
        have hturns := filter_flatMap_le (repeated step fuel) (repeated step' fuel') hfirst
          (fun k hk hle => ?_) fun k j => le_of_mem_repeated
        · rw [repeated, repeated, List.filter_append, hturns, List.filter_cons,
            if_pos (decide_eq_true hi), List.filter_nil]
        · have hlt : i < k := of_decide_eq_true (List.mem_filter.mp hk).2
          exact ih hle (by omega) (by omega)

theorem slice_append (t : List α) (i : ℕ) {j : ℕ} (hj : j ≤ s.length) :
    slice (s ++ t) i j = slice s i j := by
  rcases Nat.le_total i s.length with hi | hi
  · rw [slice, slice, List.drop_append_of_le_length hi, List.take_append_of_le_length]
    rw [List.length_drop]
    omega
  · rw [slice, slice, Nat.sub_eq_zero_of_le (hj.trans hi), List.take_zero, List.take_zero]

theorem holdsAt_append (p : α → Bool) (hi : i < s.length) :
    holdsAt (s ++ t) p i = holdsAt s p i := by
  rw [holdsAt, List.getElem?_append_left hi, holdsAt]

theorem holdsAt_of_length_le (p : α → Bool) (hi : s.length ≤ i) : holdsAt s p i = false := by
  rw [holdsAt, List.getElem?_eq_none hi]
  rfl

/-- What stands behind a string and is no word leaves its boundaries as they are. -/
theorem boundaryAt_append (ht : ∀ x ∈ t.head?, isWord x = false) (hi : i ≤ s.length) :
    boundaryAt isWord (s ++ t) i = boundaryAt isWord s i := by
  have hafter : holdsAt (s ++ t) isWord i = holdsAt s isWord i := by
    rcases hi.eq_or_lt with rfl | hlt
    · rw [holdsAt_of_length_le isWord le_rfl, holdsAt, List.getElem?_append_right le_rfl,
        Nat.sub_self, ← List.head?_eq_getElem?]
      cases h : t.head? with
      | none => rfl
      | some x => exact ht x h
    · exact holdsAt_append isWord hlt
  rw [boundaryAt, boundaryAt, hafter]
  rcases Nat.eq_zero_or_pos i with rfl | hpos
  · rfl
  · rw [holdsAt_append isWord (by omega)]

/-- **A pattern that does not look ahead has the same matches inside a string**, whatever stands
behind it that is no word. -/
theorem ends_append (ht : ∀ x ∈ t.head?, isWord x = false) {r : Regex α} (hr : r.lookFree = true)
    (hi : i ≤ s.length) :
    (ends isWord (s ++ t) r i).filter (· ≤ s.length) = ends isWord s r i := by
  induction r generalizing i with
  | one p =>
      rw [ends, ends]
      rcases hi.eq_or_lt with rfl | hlt
      · rw [holdsAt_of_length_le p le_rfl, if_neg Bool.false_ne_true]
        split_ifs
        · simp
        · rfl
      · rw [holdsAt_append p hlt]
        split_ifs
        · rw [List.filter_cons, if_pos (decide_eq_true (Nat.succ_le_of_lt hlt)), List.filter_nil]
        · rfl
  | empty => rw [ends, ends, List.filter_cons, if_pos (decide_eq_true hi), List.filter_nil]
  | seq q r ihq ihr =>
      rw [lookFree, Bool.and_eq_true] at hr
      exact filter_flatMap_le _ _ (ihq hr.1 hi) (fun k _ hle => ihr hr.2 hle)
        fun k j => le_of_mem_ends
  | alt q r ihq ihr =>
      rw [lookFree, Bool.and_eq_true] at hr
      rw [ends, ends, List.filter_append, ihq hr.1 hi, ihr hr.2 hi]
  | many r ih =>
      exact filter_repeated (fun k hk => ih hr hk) hi (by omega) (by
        rw [List.length_append]
        omega)
  | boundary =>
      rw [ends, ends, boundaryAt_append ht hi]
      split_ifs
      · rw [List.filter_cons, if_pos (decide_eq_true hi), List.filter_nil]
      · rfl
  | ahead r => cases hr

variable {r : Regex α} (ht : ∀ x ∈ t.head?, isWord x = false) (hr : r.lookFree = true)
  (hends : ∀ i, ∀ j ∈ ends isWord (s ++ t) r i, j ≤ s.length)

include ht hr hends

theorem matchAt_append (hi : i ≤ s.length) :
    matchAt isWord (s ++ t) r i = matchAt isWord s r i := by
  rw [matchAt, matchAt, ← ends_append ht hr hi]
  exact congrArg List.head? (List.filter_eq_self.mpr fun j hj => decide_eq_true (hends i j hj)).symm

omit ht hr in
theorem matchAt_eq_none (hi : s.length < i) : matchAt isWord (s ++ t) r i = none := by
  cases h : matchAt isWord (s ++ t) r i with
  | none => rfl
  | some j =>
      have hle := hends i j (List.mem_of_head? h)
      have := le_of_matchAt h
      omega

/-- **Matches that end inside a string are its own.** -/
theorem findAll_append : findAll isWord r (s ++ t) = findAll isWord r s := by
  have hrange : List.range ((s ++ t).length + 1) =
      List.range (s.length + 1) ++ (List.range t.length).map (s.length + 1 + ·) := by
    rw [← List.range_add, List.length_append, Nat.add_right_comm]
  rw [findAll, hrange, scan_append, findAll]
  · refine scan_congr fun i hi => matchAt_append ht hr hends ?_
    exact Nat.lt_succ_iff.mp (List.mem_range.mp hi)
  · intro i hi
    obtain ⟨k, -, rfl⟩ := List.mem_map.mp hi
    exact matchAt_eq_none hends (by omega)

end Append

/-! ### Patterns between boundaries -/

section Words

variable {isWord : α → Bool} {s t : List α}

/-- There is no boundary in what is no word. -/
theorem le_length_of_boundaryAt (ht : ∀ x ∈ t, isWord x = false) {i : ℕ}
    (h : boundaryAt isWord (s ++ t) i = true) : i ≤ s.length := by
  have hnot : ∀ k, s.length ≤ k → holdsAt (s ++ t) isWord k = false := by
    intro k hk
    rw [holdsAt, List.getElem?_append_right hk]
    cases hx : t[k - s.length]? with
    | none => rfl
    | some x => exact ht x (List.mem_of_getElem? hx)
  by_contra hlt
  rw [boundaryAt, hnot i (by omega), hnot (i - 1) (by omega), Bool.and_false] at h
  cases h

variable {r : Regex α} (ht : ∀ x ∈ t, isWord x = false)

include ht

theorem le_length_of_mem_ends_word (i : ℕ) :
    ∀ j ∈ ends isWord (s ++ t) (word r) i, j ≤ s.length := by
  intro j hj
  rw [word, ends_boundary_seq] at hj
  split_ifs at hj
  · rw [ends_seq_boundary] at hj
    exact le_length_of_boundaryAt ht (List.mem_filter.mp hj).2
  · cases hj

variable (hr : r.lookFree = true)

include hr

theorem search_word_append : search isWord (word r) (s ++ t) = search isWord (word r) s := by
  rw [Bool.eq_iff_iff, search_iff, search_iff, findAll_append
    (fun x hx => ht x (List.mem_of_head? hx)) (by simpa [word, lookFree] using hr)
    (le_length_of_mem_ends_word ht)]

end Words

end Text
end EvidenceLab
