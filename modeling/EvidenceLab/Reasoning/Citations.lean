/-
# What a citation denotes

The model cites a passage by its index, and `_resolve_evidence` reads the index off with
`int`.  A value denotes an index only as an integer, an integral number or the decimal string
of one (`Json.denotes`).  `int` reads more than that: it cuts a fraction towards zero, takes a
boolean for a number, and a string with blanks around it, a sign or underscores for the number
in it.  Such a value, where the index it is read as is that of a passage, is a stray citation
(`Stray`): the model did not mean the passage, yet its claim cites it.

What is resolved and what is counted of a list of values is settled by what each value is read
as (`resolveEvidence_values`), so the citations are accounted for exactly iff none is stray
(`accounted_iff`).
-/

import EvidenceLab.Data.Numerals
import EvidenceLab.Reasoning.Grounding

namespace EvidenceLab
namespace Reasoning

open Text Data EvidenceLab.Core

/-! ### What a value denotes -/

/-- The passage a value denotes. -/
def denoted (n : ℕ) (value : Json) : Option (Fin n) :=
  (List.finRange n).find? fun index => value.denotes index

/-- The value is read as the index of a passage that it does not denote: a boolean, a fraction,
or a string that is not the decimal string of the index. -/
def Stray (n : ℕ) : Json → Prop
  | .bool b => b.toNat < n
  | .float (.finite q _) => q.den ≠ 1 ∧ -1 < q ∧ q < n ∧ 0 < n
  | .str s => ∃ i < n, Json.intOfStr s = some (i : ℤ) ∧ s ≠ Json.decimal i
  | _ => False

/-- A value is a finite number, or none. -/
def finite : Json → Bool
  | .float .inf => false
  | .float .negInf => false
  | .float .nan => false
  | _ => true

/-! ### Reading a value -/

section Read

variable {n : ℕ} {value : Json}

/-- A value denotes one integer at most. -/
theorem denoted_eq_some {i : Fin n} : denoted n value = some i ↔ value.denotes i = true := by
  constructor
  · intro h
    exact List.find?_some (p := fun index : Fin n => value.denotes index) h
  · intro h
    obtain ⟨j, hj⟩ := Option.isSome_iff_exists.mp
      (List.find?_isSome.mpr ⟨i, List.mem_finRange i, h⟩ : (denoted n value).isSome)
    have hread := Json.toInt_of_denotes
      (List.find?_some (p := fun index : Fin n => value.denotes index) hj)
    rw [Json.toInt_of_denotes h, Except.ok.injEq, Int.natCast_inj] at hread
    rw [denoted, hj, Fin.ext hread]

/-- An integral number that is cut to a natural one is that number. -/
theorem eq_of_tdiv {q : ℚ} {i : ℕ} (hden : q.den = 1)
    (h : (i : ℚ) ≤ q ∧ q < i + 1 ∨ i = 0 ∧ -1 < q ∧ q < 0) : q = i := by
  have hq : ((q.num : ℤ) : ℚ) = q := (Rat.den_eq_one_iff q).mp hden
  rw [← hq] at h ⊢
  rcases h with ⟨hle, hlt⟩ | ⟨-, hlow, hneg⟩
  · have h₁ : (i : ℤ) ≤ q.num := by exact_mod_cast hle
    have h₂ : q.num < i + 1 := by exact_mod_cast hlt
    have h₃ : q.num = i := by omega
    rw [h₃]
    rfl
  · have h₁ : (-1 : ℤ) < q.num := by exact_mod_cast hlow
    have h₂ : q.num < 0 := by exact_mod_cast hneg
    omega

/-- A number that is cut. -/
theorem stray_finite_iff {q : ℚ} (hq : IsDouble q) : Stray n (.float (.finite q hq)) ↔
    ∃ i : Fin n, (Json.float (.finite q hq)).toInt = .ok (i.val : ℤ) ∧
      (Json.float (.finite q hq)).denotes i = false := by
  simp only [Stray, Json.toInt, Json.denotes, Except.ok.injEq, Json.tdiv_eq_iff,
    decide_eq_false_iff_not]
  constructor
  · rintro ⟨hden, hlow, hhigh, hn⟩
    have hne : ∀ i : ℕ, q ≠ i := fun i h => hden (by rw [h, Rat.den_natCast])
    rcases le_or_gt 0 q with hq | hq
    · have hfloor : ⌊q⌋₊ < n := (Nat.floor_lt hq).mpr hhigh
      exact ⟨⟨⌊q⌋₊, hfloor⟩, Or.inl ⟨Nat.floor_le hq, Nat.lt_floor_add_one q⟩, hne _⟩
    · exact ⟨⟨0, hn⟩, Or.inr ⟨rfl, hlow, hq⟩, hne _⟩
  · rintro ⟨i, hi, hne⟩
    have hcast : ((i.val : ℚ) + 1) ≤ n := by exact_mod_cast i.isLt
    have hpos : (0 : ℚ) ≤ (i.val : ℚ) := Nat.cast_nonneg _
    refine ⟨fun hden => hne (eq_of_tdiv hden hi), ?_, ?_, i.pos⟩
    · rcases hi with ⟨hle, -⟩ | ⟨-, hlow, -⟩
      · linarith
      · exact hlow
    · rcases hi with ⟨-, hlt⟩ | ⟨-, -, hneg⟩
      · linarith
      · linarith

/-- A string that is read as a number it does not spell. -/
theorem stray_str_iff (s : Str) : Stray n (.str s) ↔
    ∃ i : Fin n, (Json.str s).toInt = .ok (i.val : ℤ) ∧ (Json.str s).denotes i = false := by
  simp only [Stray, Json.toInt, Json.denotes, decide_eq_false_iff_not]
  constructor
  · rintro ⟨i, hi, hread, hne⟩
    rw [hread]
    exact ⟨⟨i, hi⟩, rfl, fun h => hne h.1⟩
  · rintro ⟨i, hread, hne⟩
    cases hs : Json.intOfStr s with
    | none =>
        rw [hs] at hread
        cases hread
    | some z =>
        rw [hs] at hread
        obtain rfl := Except.ok.inj hread
        refine ⟨i, i.isLt, rfl, fun heq => hne ⟨heq, ?_⟩⟩
        rw [heq, Json.intOfStr_decimal] at hs
        by_contra hlong
        rw [heq] at hlong
        rw [if_neg hlong] at hs
        cases hs

/-- A stray value is read as the index of a passage, and does not denote it. -/
theorem stray_iff : Stray n value ↔
    ∃ i : Fin n, value.toInt = .ok (i.val : ℤ) ∧ value.denotes i = false := by
  cases value with
  | bool b =>
      have hread : (Json.bool b).toInt = .ok (b.toNat : ℤ) := by cases b <;> rfl
      rw [hread]
      simp only [Stray, Json.denotes, Except.ok.injEq, Int.natCast_inj, and_true]
      constructor
      · exact fun h => ⟨⟨b.toNat, h⟩, rfl⟩
      · rintro ⟨i, hi⟩
        exact hi ▸ i.isLt
  | float x =>
      cases x with
      | finite q hq => exact stray_finite_iff hq
      | negZero =>
          simp only [Stray, Json.toInt, Json.denotes, Except.ok.injEq, false_iff,
            not_exists, not_and]
          intro i hi
          rw [Bool.not_eq_false, decide_eq_true_eq]
          omega
      | inf => simp [Stray, Json.toInt]
      | negInf => simp [Stray, Json.toInt]
      | nan => simp [Stray, Json.toInt]
  | str s => exact stray_str_iff s
  | int z => simp [Stray, Json.toInt, Json.denotes]
  | null => simp [Stray, Json.toInt]
  | list xs => simp [Stray, Json.toInt]
  | dict es => simp [Stray, Json.toInt]

/-- The passage a value is read as. -/
def readAs (n : ℕ) (value : Json) : Option (Fin n) :=
  match citedIndex n value with
  | .ok cited => cited
  | .error _ => none

/-- Reading a finite value never raises what is not caught. -/
theorem citedIndex_of_finite (h : finite value = true) :
    citedIndex n value = .ok (readAs n value) := by
  have herror : ∀ e, value.toInt = .error e → e = .typeError ∨ e = .valueError := by
    intro e he
    cases value with
    | null => exact Or.inl (Except.error.inj he).symm
    | bool b => cases he
    | int z => cases he
    | float x => cases x <;> cases he <;> cases h
    | str s =>
        rw [Json.toInt] at he
        cases hs : Json.intOfStr s with
        | none =>
            rw [hs] at he
            exact Or.inr (Except.error.inj he).symm
        | some z =>
            rw [hs] at he
            cases he
    | list xs => exact Or.inl (Except.error.inj he).symm
    | dict es => exact Or.inl (Except.error.inj he).symm
  rw [readAs]
  cases hread : value.toInt with
  | error e =>
      rcases herror e hread with rfl | rfl
      · simp only [citedIndex, hread]
      · simp only [citedIndex, hread]
  | ok z =>
      simp only [citedIndex, hread]
      split_ifs <;> rfl

theorem readAs_eq_some {i : Fin n} : readAs n value = some i ↔ value.toInt = .ok (i.val : ℤ) := by
  rw [readAs, citedIndex]
  cases hread : value.toInt with
  | error e => cases e <;> simp
  | ok z =>
      simp only [Except.ok.injEq]
      split_ifs with h
      · simp only [Option.some.injEq, Fin.ext_iff]
        omega
      · simp only [false_iff]
        omega

/-- A value that denotes a passage is read as it. -/
theorem readAs_of_denoted {i : Fin n} (h : denoted n value = some i) : readAs n value = some i :=
  readAs_eq_some.mpr (Json.toInt_of_denotes (denoted_eq_some.mp h))

/-- **A value is stray iff it is read as a passage and denotes none.** -/
theorem stray_iff_readAs :
    Stray n value ↔ (readAs n value).isSome = true ∧ denoted n value = none := by
  rw [stray_iff, Option.isSome_iff_exists]
  constructor
  · rintro ⟨i, hread, hnot⟩
    refine ⟨⟨i, readAs_eq_some.mpr hread⟩, ?_⟩
    refine Option.eq_none_iff_forall_ne_some.mpr ?_
    intro j hj
    have hij := (readAs_of_denoted hj).symm.trans (readAs_eq_some.mpr hread)
    rw [Option.some.inj hij] at hj
    rw [denoted_eq_some.mp hj] at hnot
    cases hnot
  · rintro ⟨⟨i, hread⟩, hnone⟩
    refine ⟨i, readAs_eq_some.mp hread, ?_⟩
    rw [Bool.eq_false_iff]
    intro h
    rw [denoted_eq_some.mpr h] at hnone
    cases hnone

theorem isNone_denoted (h : (readAs n value).isNone = true) :
    (denoted n value).isNone = true := by
  rw [Option.isNone_iff_eq_none, Option.eq_none_iff_forall_ne_some]
  intro i hi
  rw [readAs_of_denoted hi] at h
  cases h

theorem readAs_eq_denoted (h : ¬ Stray n value) : readAs n value = denoted n value := by
  cases hdenoted : denoted n value with
  | some i => exact readAs_of_denoted hdenoted
  | none =>
      rw [← Option.not_isSome_iff_eq_none]
      exact fun hsome => h (stray_iff_readAs.mpr ⟨hsome, hdenoted⟩)

end Read

/-! ### First occurrences -/

section First

variable {α : Type} [DecidableEq α]

/-- How many members of a list occur in it before, or in the list before it. -/
def repeats (before : List α) : List α → ℕ
  | [] => 0
  | x :: xs => (if x ∈ before then 1 else 0) + repeats (before ++ [x]) xs

theorem eraseDups_concat (xs : List α) (x : α) :
    (xs ++ [x]).eraseDups = if x ∈ xs then xs.eraseDups else xs.eraseDups ++ [x] := by
  rw [List.eraseDups_append]
  split_ifs with h
  · simp [List.removeAll, h]
  · simp [List.removeAll, h, List.eraseDups_cons]

/-- A list is its first occurrences and its repeats. -/
theorem length_eraseDups_append (before xs : List α) :
    (before ++ xs).eraseDups.length + repeats before xs =
      before.eraseDups.length + xs.length := by
  induction xs generalizing before with
  | nil =>
      rw [List.append_nil]
      rfl
  | cons x xs ih =>
      have h := ih (before ++ [x])
      rw [List.append_assoc, List.singleton_append, eraseDups_concat] at h
      rw [repeats, List.length_cons]
      split_ifs at h ⊢ with hx
      · omega
      · rw [List.length_append, List.length_singleton] at h
        omega

/-- A predicate that holds of a member of which a stronger one does not holds more often. -/
theorem countP_lt_countP {β : Type} {p q : β → Bool} {xs : List β}
    (hpq : ∀ x, p x = true → q x = true) {x : β} (hx : x ∈ xs) (hp : p x = false)
    (hq : q x = true) : xs.countP p < xs.countP q := by
  obtain ⟨front, back, rfl⟩ := List.append_of_mem hx
  have hfront := List.countP_mono_left (l := front) fun y _ => hpq y
  have hback := List.countP_mono_left (l := back) fun y _ => hpq y
  rw [List.countP_append, List.countP_append, List.countP_cons_of_neg (by rw [hp]; simp),
    List.countP_cons_of_pos hq]
  omega

end First

/-! ### Reading a list of values -/

variable {evidence : List RetrievedChunk} {values : List Json}

/-- The loop over finite values: the passages they are read as, in order of first citation, and
the number of the others. -/
theorem resolveLoop_of_finite {n : ℕ} (h : ∀ value ∈ values, finite value = true)
    (before : List (Fin n)) (count : ℕ) :
    resolveLoop n values before.eraseDups count =
      .ok ((before ++ values.filterMap (readAs n)).eraseDups,
        count + values.countP fun value => (readAs n value).isNone) := by
  induction values generalizing before count with
  | nil => rw [resolveLoop, List.filterMap_nil, List.append_nil, List.countP_nil, add_zero]
  | cons value rest ih =>
      have hrest := ih fun v hv => h v (List.mem_cons_of_mem _ hv)
      rw [resolveLoop, citedIndex_of_finite (h value List.mem_cons_self), List.filterMap_cons,
        List.countP_cons]
      cases hread : readAs n value with
      | none =>
          simp only [Option.isNone_none, if_true]
          rw [hrest, add_assoc, Nat.add_comm 1]
      | some i =>
          have hconcat := hrest (before ++ [i]) count
          rw [eraseDups_concat, List.append_assoc, List.singleton_append] at hconcat
          simp only [Option.isNone_some, Bool.false_eq_true, if_false, add_zero,
            List.mem_eraseDups]
          split_ifs with hmem
          · rwa [if_pos hmem] at hconcat
          · rwa [if_neg hmem] at hconcat

/-- **What is resolved and counted of a list of finite values.** -/
theorem resolveEvidence_values (evidence : List RetrievedChunk)
    (h : ∀ value ∈ values, finite value = true) :
    resolveEvidence (some (.list values)) evidence =
      .ok ((values.filterMap (readAs evidence.length)).eraseDups.map fun index =>
          (evidence.get index).chunkId,
        values.countP fun value => (readAs evidence.length value).isNone) := by
  have hloop := resolveLoop_of_finite (n := evidence.length) h [] 0
  rw [List.eraseDups_nil, List.nil_append, Nat.zero_add] at hloop
  simp only [resolveEvidence, hloop]
  rfl

/-! ### The account of a list of citations -/

/-- The citations of a list are accounted for: resolved are the passages that are denoted, each
once and in order of first citation, invented is what denotes no passage, and the rest are
repeats. -/
structure Accounted (evidence : List RetrievedChunk) (values : List Json) (r : List Uuid × ℕ) :
    Prop where
  resolved : r.1 = (values.filterMap (denoted evidence.length)).eraseDups.map fun index =>
    (evidence.get index).chunkId
  nodup : r.1.Nodup
  invented : r.2 = values.countP fun value => (denoted evidence.length value).isNone
  total : values.length =
    r.1.length + r.2 + repeats [] (values.filterMap (denoted evidence.length))

/-- A stray citation is not accounted for: it is counted less than the inventions. -/
theorem not_accounted_of_stray (hfinite : ∀ value ∈ values, finite value = true) {value : Json}
    (hvalue : value ∈ values) (hstray : Stray evidence.length value) {r : List Uuid × ℕ}
    (hr : resolveEvidence (some (.list values)) evidence = .ok r) :
    ¬ Accounted evidence values r := by
  intro haccounted
  obtain rfl := Except.ok.inj ((resolveEvidence_values evidence hfinite).symm.trans hr)
  -- A value that is read as no passage denotes none, so the counts differ by the stray ones.
  obtain ⟨hsome, hnone⟩ := stray_iff_readAs.mp hstray
  have hlt : values.countP (fun v => (readAs evidence.length v).isNone) <
      values.countP fun v => (denoted evidence.length v).isNone := by
    refine countP_lt_countP (fun _ => isNone_denoted) hvalue ?_ ?_
    · rw [Option.isNone_eq_false_iff]
      exact hsome
    · rw [hnone]
      rfl
  exact absurd haccounted.invented hlt.ne

/-- Values of which none is stray are accounted for. -/
theorem accounted_of_not_stray (hdistinct : (evidence.map (·.chunkId)).Nodup)
    (hfinite : ∀ value ∈ values, finite value = true)
    (h : ∀ value ∈ values, ¬ Stray evidence.length value) :
    ∃ r, resolveEvidence (some (.list values)) evidence = .ok r ∧
      Accounted evidence values r := by
  have hvalues := resolveEvidence_values evidence hfinite
  have hread : ∀ v ∈ values, readAs evidence.length v = denoted evidence.length v :=
    fun v hv => readAs_eq_denoted (h v hv)
  have hfilter : values.filterMap (readAs evidence.length) =
      values.filterMap (denoted evidence.length) :=
    List.filterMap_congr hread
  have hcount : (values.countP fun v => (readAs evidence.length v).isNone) =
      values.countP fun v => (denoted evidence.length v).isNone :=
    List.countP_congr fun v hv => by rw [hread v hv]
  refine ⟨_, hvalues, ?_, resolveEvidence_nodup hdistinct hvalues, hcount, ?_⟩
  · rw [hfilter]
  · have hlength := length_eraseDups_append [] (values.filterMap (denoted evidence.length))
    have hsplit := List.length_eq_countP_add_countP (fun v => (denoted evidence.length v).isSome)
      (l := values)
    rw [List.nil_append, List.eraseDups_nil, List.length_nil] at hlength
    rw [List.length_filterMap_eq_countP] at hlength
    simp only [Option.not_isSome, Bool.decide_eq_true, decide_not] at hsplit
    rw [List.length_map, hfilter, hcount]
    omega

/-- **Citations are accounted for exactly where none is stray.** -/
theorem accounted_iff (hdistinct : (evidence.map (·.chunkId)).Nodup)
    (hfinite : ∀ value ∈ values, finite value = true) :
    (∃ r, resolveEvidence (some (.list values)) evidence = .ok r ∧ Accounted evidence values r) ↔
      ∀ value ∈ values, ¬ Stray evidence.length value := by
  constructor
  · rintro ⟨r, hr, haccounted⟩ value hvalue hstray
    exact not_accounted_of_stray hfinite hvalue hstray hr haccounted
  · exact accounted_of_not_stray hdistinct hfinite

/-- A list with an integer cited twice, an integral number and an invented index. -/
def sampleCitations : List Json :=
  [.int 1, .float (.ofRat 0), .int 7, .int 1]

theorem accounted_iff_sample :
    ∃ r, resolveEvidence (some (.list sampleCitations)) [samplePassage 4, samplePassage 5] =
      .ok r ∧ Accounted [samplePassage 4, samplePassage 5] sampleCitations r := by
  refine (accounted_iff (by decide) (by decide +kernel)).mpr ?_
  intro value hvalue
  have hzero : IsDouble 0 := by decide +kernel
  simp only [sampleCitations, Float64.ofRat_of_isDouble hzero, List.mem_cons, List.not_mem_nil,
    or_false] at hvalue
  rcases hvalue with rfl | rfl | rfl | rfl <;> simp [Stray]

/-- One half is read as the first passage. -/
theorem accounted_fails :
    ¬ ∀ (evidence : List RetrievedChunk) (values : List Json),
      (evidence.map (·.chunkId)).Nodup → (∀ value ∈ values, finite value = true) →
      ∃ r, resolveEvidence (some (.list values)) evidence = .ok r ∧
        Accounted evidence values r := by
  intro h
  obtain ⟨r, hr, haccounted⟩ :=
    h [samplePassage 4] [.float (.ofRat (1 / 2))] (by decide) (by decide +kernel)
  have hhalf : IsDouble (1 / 2) := by decide +kernel
  have hstray : Stray [samplePassage 4].length (.float (.ofRat (1 / 2))) := by
    rw [Float64.ofRat_of_isDouble hhalf]
    exact ⟨by decide +kernel, by decide +kernel, by decide +kernel, by decide⟩
  exact not_accounted_of_stray (by decide +kernel) List.mem_cons_self hstray hr haccounted

end Reasoning
end EvidenceLab
