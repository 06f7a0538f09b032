/-
# What a malformed claim costs

`_parse` checks the payload, each raw claim and each cited value for itself, and what is
malformed at one level is skipped there.  Two things get past the guards: `claims` may be a
value that there is nothing to iterate over in, and `int` of an infinite float raises an
`OverflowError`, which is neither a `TypeError` nor a `ValueError`.  Either loses the answer.

The claims of a payload are readable where neither happens (`Readable`), and then an answer is
parsed or the payload is refused as the taxonomy says: the answer is recovered from a payload
iff its claims are readable, where it is looked at at all (`recovers_iff`).
-/

import EvidenceLab.Reasoning.Accounting
import EvidenceLab.Reasoning.Citations

namespace EvidenceLab
namespace Reasoning

open Text Data EvidenceLab.Core

variable {render : Json → Str} {evidence : List RetrievedChunk}

/-! ### What gets past the guards -/

/-- An infinite float. -/
def infinite : Json → Bool
  | .float .inf => true
  | .float .negInf => true
  | _ => false

/-- Nothing to go through, or something that can be gone through. -/
def iterable : Option Json → Bool
  | none => true
  | some (.list _) => true
  | some (.str _) => true
  | some (.dict _) => true
  | some value => !value.truthy

/-- The claims of a payload can be read: they can be iterated over, and no claim that is kept
cites an infinite float. -/
def Readable (render : Json → Str) (payload : Json) : Prop :=
  iterable (payload.get? claimsKey) = true ∧
    ∀ value ∈ citations render (rawClaims payload), infinite value = false

/-- Malformed claims do not cost the answer: a text is answered with, and whatever else the
payload is, it is refused with the code of the stage. -/
structure Recovers (render : Json → Str) (modelId : Str) (payload : Json)
    (evidence : List RetrievedChunk) (usage : TokenUsage) : Prop where
  answered : ∀ s, payload.get? answerKey = some (.str s) → strip isSpace s ≠ [] → evidence ≠ [] →
    ∃ answer, parse render modelId payload evidence usage = .ok answer ∧
      answer.text = strip isSpace s
  refused : ∀ e, parse render modelId payload evidence usage = .error e →
    ∃ message, e = generationFailed message

/-! ### The levels of the parser -/

/-- A cited value raises `OverflowError` or nothing. -/
theorem citedIndex_eq_error {n : ℕ} {value : Json} {e : Exc} :
    citedIndex n value = .error e ↔ infinite value = true ∧ e = .overflowError := by
  by_cases hfinite : finite value = true
  · have hnot : infinite value = false := by
      cases value with
      | float x => cases x <;> first | rfl | cases hfinite
      | null | bool _ | int _ | str _ | list _ | dict _ => rfl
    rw [citedIndex_of_finite hfinite, hnot]
    simp
  · cases value with
    | float x =>
        cases x with
        | inf => simp [citedIndex, Json.toInt, infinite, eq_comm]
        | negInf => simp [citedIndex, Json.toInt, infinite, eq_comm]
        | nan => simp [citedIndex, Json.toInt, infinite]
        | finite _ _ | negZero => exact (hfinite rfl).elim
    | null | bool _ | int _ | str _ | list _ | dict _ => exact absurd rfl hfinite

theorem resolveLoop_eq_error {n : ℕ} {values : List Json} {seen : List (Fin n)} {count : ℕ}
    {e : Exc} : resolveLoop n values seen count = .error e ↔
      (∃ value ∈ values, infinite value = true) ∧ e = .overflowError := by
  induction values generalizing seen count with
  | nil => simp [resolveLoop]
  | cons value rest ih =>
      rw [resolveLoop, List.exists_mem_cons_iff]
      cases hv : citedIndex n value with
      | error e' =>
          obtain ⟨hinf, rfl⟩ := citedIndex_eq_error.mp hv
          exact ⟨fun h => ⟨Or.inl hinf, (Except.error.inj h).symm⟩, fun h => by rw [h.2]⟩
      | ok cited =>
          have hnot : ¬ infinite value = true := by
            intro hinf
            rw [citedIndex_eq_error.mpr ⟨hinf, rfl⟩] at hv
            cases hv
          rw [or_iff_right hnot]
          cases cited with
          | none => exact ih
          | some index =>
              dsimp only
              split_ifs
              · exact ih
              · exact ih

theorem resolveEvidence_eq_error {raw : Json} {e : Exc} :
    resolveEvidence (raw.get? evidenceKey) evidence = .error e ↔
      (∃ value ∈ citedValues raw, infinite value = true) ∧ e = .overflowError := by
  cases hraw : raw.get? evidenceKey with
  | none => simp [resolveEvidence, citedValues, hraw]
  | some value =>
      cases value with
      | list values =>
          have hloop : resolveLoop evidence.length values [] 0 = .error e ↔ _ :=
            resolveLoop_eq_error
          rw [citedValues, hraw, ← hloop, resolveEvidence]
          cases resolveLoop evidence.length values [] 0 with
          | error e' => simp [Except.map]
          | ok r => simp [Except.map]
      | null | bool _ | int _ | float _ | str _ | dict _ =>
          simp [resolveEvidence, citedValues, hraw]

/-- A claim that is skipped costs nothing, and one that is kept only what it cites. -/
theorem parseClaims_eq_error {raws : List Json} {e : Exc} :
    parseClaims render evidence raws = .error e ↔
      (∃ value ∈ citations render raws, infinite value = true) ∧ e = .overflowError := by
  induction raws with
  | nil => simp [parseClaims, citations]
  | cons raw rest ih =>
      have hskip : isClaim render raw = false →
          citations render (raw :: rest) = citations render rest := by
        intro hc
        rw [citations, List.filter_cons, hc]
        rfl
      rw [parseClaims]
      dsimp only
      split_ifs with hdict htext
      · rw [hskip (by simp [isClaim, htext])]
        exact ih
      · have hkeep : citations render (raw :: rest) = citedValues raw ++ citations render rest := by
          rw [citations, List.filter_cons, if_pos (by simp [isClaim, hdict, htext])]
          rfl
        rw [hkeep]
        simp only [List.mem_append, or_and_right, exists_or]
        cases hres : resolveEvidence (raw.get? evidenceKey) evidence with
        | error e' =>
            obtain ⟨hinf, rfl⟩ := resolveEvidence_eq_error.mp hres
            exact ⟨fun h => Or.inl ⟨hinf, (Except.error.inj h).symm⟩,
              fun h => by rw [h.elim And.right And.right]; rfl⟩
        | ok cited =>
            have hnot : ¬ ((∃ value ∈ citedValues raw, infinite value = true) ∧
                e = .overflowError) := by
              intro hinf
              rw [resolveEvidence_eq_error.mpr hinf] at hres
              cases hres
            rw [or_iff_right hnot, ← ih]
            cases parseClaims render evidence rest with
            | error e' => exact Iff.rfl
            | ok tail => exact iff_of_false (by rintro ⟨⟩) (by rintro ⟨⟩)
      · rw [hskip (by simp [isClaim, hdict])]
        exact ih

theorem iterate_eq_error {claims : Option Json} {e : Exc} :
    Json.iterate claims = .error e ↔ iterable claims = false ∧ e = .typeError := by
  cases claims with
  | none => simp [Json.iterate, iterable]
  | some value =>
      cases value with
      | list _ | str _ | dict _ =>
          rw [Json.iterate]
          split_ifs <;> simp [iterable]
      | null => simp [Json.iterate, iterable, Json.truthy]
      | bool _ | int _ | float _ =>
          simp only [Json.iterate, iterable]
          split_ifs with htruthy <;> simp [htruthy, eq_comm]

/-! ### Recovering the answer -/

variable {modelId : Str} {payload : Json} {usage : TokenUsage}

/-- The claims of a readable payload are parsed. -/
theorem exists_parseClaims (evidence : List RetrievedChunk) (h : Readable render payload) :
    ∃ raws r,
    Json.iterate (payload.get? claimsKey) = .ok raws ∧
      parseClaims render evidence raws = .ok r := by
  cases hraws : Json.iterate (payload.get? claimsKey) with
  | error e =>
      have hnot := (iterate_eq_error.mp hraws).1
      rw [h.1] at hnot
      cases hnot
  | ok raws =>
      refine ⟨raws, ?_⟩
      cases hclaims : parseClaims render evidence raws with
      | error e =>
          obtain ⟨⟨value, hvalue, hinf⟩, -⟩ := parseClaims_eq_error.mp hclaims
          have hraw : rawClaims payload = raws := by rw [rawClaims, hraws]
          rw [h.2 value (hraw ▸ hvalue)] at hinf
          cases hinf
      | ok r => exact ⟨r, rfl, rfl⟩

/-- A payload with an answer and readable claims is answered, unless the answer is empty. -/
theorem parse_of_readable (hdict : payload.isDict = true)
    (hanswer : (payload.get? answerKey).isSome = true) (h : Readable render payload) :
    ∃ answer : GeneratedAnswer,
      answer.text = strip isSpace (Json.toStr render (payload.get? answerKey)) ∧
      parse render modelId payload evidence usage =
        if answer.text = [] ∧ ¬ answer.abstained = true then
          .error (generationFailed "The model returned an empty answer.")
        else .ok answer := by
  obtain ⟨raws, r, hraws, hclaims⟩ := exists_parseClaims evidence h
  refine ⟨{ text := strip isSpace (Json.toStr render (payload.get? answerKey))
            claims := r.1
            abstained := (payload.get? abstainedKey).elim false Json.truthy
            modelId
            usage
            metadata := { evidenceCount := some evidence.length
                          inventedCitations := some r.2 } }, rfl, ?_⟩
  rw [parse, if_pos ⟨hdict, hanswer⟩, hraws]
  simp only [bind, Except.bind, hclaims]
  split_ifs <;> rfl

/-- Where the claims cannot be read, an exception gets out that is none of the taxonomy. -/
theorem parse_of_not_readable (hdict : payload.isDict = true)
    (hanswer : (payload.get? answerKey).isSome = true) (h : ¬ Readable render payload) :
    parse render modelId payload evidence usage = .error .typeError ∨
      parse render modelId payload evidence usage = .error .overflowError := by
  rw [parse, if_pos ⟨hdict, hanswer⟩]
  cases hraws : Json.iterate (payload.get? claimsKey) with
  | error e =>
      obtain ⟨-, rfl⟩ := iterate_eq_error.mp hraws
      exact Or.inl rfl
  | ok raws =>
      have hraw : rawClaims payload = raws := by rw [rawClaims, hraws]
      have hiterable : iterable (payload.get? claimsKey) = true := by
        by_contra hnot
        rw [iterate_eq_error.mpr ⟨Bool.eq_false_iff.mpr hnot, rfl⟩] at hraws
        cases hraws
      have hinf : ∃ value ∈ citations render raws, infinite value = true := by
        by_contra hnone
        refine h ⟨hiterable, fun value hvalue => Bool.eq_false_iff.mpr fun hinf => hnone ?_⟩
        exact ⟨value, hraw ▸ hvalue, hinf⟩
      exact Or.inr (bind_eq_error.mpr (Or.inr ⟨raws, rfl,
        bind_of_error (parseClaims_eq_error.mpr ⟨hinf, rfl⟩)⟩))

/-- What is no object with an answer is refused. -/
theorem parse_of_no_answer
    (h : ¬ (payload.isDict = true ∧ (payload.get? answerKey).isSome = true)) :
    parse render modelId payload evidence usage =
      .error (generationFailed "The model did not return an answer object.") := by
  rw [parse, if_neg h]

/-- **The answer is recovered exactly where the claims are readable.** -/
theorem recovers_iff (render : Json → Str) (modelId : Str) (payload : Json)
    (evidence : List RetrievedChunk) (usage : TokenUsage) :
    Recovers render modelId payload evidence usage ↔
      (payload.isDict = true → (payload.get? answerKey).isSome = true →
        Readable render payload) := by
  constructor
  · intro h hdict hanswer
    by_contra hnot
    rcases parse_of_not_readable hdict hanswer hnot with herror | herror
    · obtain ⟨message, he⟩ := h.refused _ herror
      cases he
    · obtain ⟨message, he⟩ := h.refused _ herror
      cases he
  · intro h
    refine ⟨?_, ?_⟩
    · intro s hs hblank _
      have hdict : payload.isDict = true := by
        cases payload <;> first | rfl | cases hs
      have hanswer : (payload.get? answerKey).isSome = true := by rw [hs]; rfl
      obtain ⟨answer, htext, hparse⟩ := parse_of_readable hdict hanswer (h hdict hanswer)
      rw [hs] at htext
      refine ⟨answer, ?_, htext⟩
      rw [hparse, if_neg]
      exact fun hempty => hblank (htext.symm.trans hempty.1)
    · intro e he
      by_cases hobject : payload.isDict = true ∧ (payload.get? answerKey).isSome = true
      · obtain ⟨answer, -, hparse⟩ :=
          parse_of_readable hobject.1 hobject.2 (h hobject.1 hobject.2)
        rw [hparse] at he
        split_ifs at he
        exact ⟨_, (Except.error.inj he).symm⟩
      · rw [parse_of_no_answer hobject] at he
        exact ⟨_, (Except.error.inj he).symm⟩

/-- A payload with the answer "a" and the claims `claims`. -/
def answering (claims : Json) : Json :=
  .dict [(answerKey, .str (lit ['a'])), (claimsKey, claims)]

/-- A claim that cites `Infinity`. -/
def infiniteClaim : Json :=
  .dict [(textKey, .str (lit ['a'])), (evidenceKey, .list [.float .inf])]

/-- The claims 5 raise a `TypeError`, and a claim citing `Infinity` an `OverflowError`. -/
theorem recovers_fails :
    ¬ Recovers (fun _ => []) [] (answering (.int 5)) [samplePassage 4] {} ∧
      ¬ Recovers (fun _ => []) [] (answering (.list [infiniteClaim])) [samplePassage 4] {} := by
  constructor
  · intro h
    obtain ⟨message, he⟩ := h.refused .typeError rfl
    cases he
  · intro h
    obtain ⟨message, he⟩ := h.refused .overflowError rfl
    cases he

end Reasoning
end EvidenceLab
