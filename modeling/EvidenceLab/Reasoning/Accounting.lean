/-
# What the citations of an answer come to

A cited value either points at a passage or is invented.  The generator drops the
invented ones and counts them; this counts them on the payload itself, over the
evidence lists of the claims it keeps (`citations`), and shows that the number
reported in the metadata is that count (`inventedCitations_parse`).
-/

import EvidenceLab.Reasoning.Grounding

namespace EvidenceLab
namespace Reasoning

open Text Data EvidenceLab.Core

/-! ### The citations of a payload -/

/-- A value that denotes the index of one of `n` passages. -/
def pointsAtPassage (n : ℕ) (value : Json) : Bool :=
  match citedIndex n value with
  | .ok (some _) => true
  | _ => false

/-- A raw claim that becomes a claim: an object with a text. -/
def isClaim (render : Json → Str) (raw : Json) : Bool :=
  raw.isDict && decide (strip isSpace (Json.toStr render (raw.get? textKey)) ≠ [])

/-- The values a raw claim cites. -/
def citedValues (raw : Json) : List Json :=
  match raw.get? evidenceKey with
  | some (.list values) => values
  | _ => []

/-- Every value cited by a claim that is kept. -/
def citations (render : Json → Str) (raws : List Json) : List Json :=
  (raws.filter (isClaim render)).flatMap citedValues

/-- The raw claims of a payload; a value that cannot be iterated over has none. -/
def rawClaims (payload : Json) : List Json :=
  match Json.iterate (payload.get? claimsKey) with
  | .ok raws => raws
  | .error _ => []

/-- The citations among some values that point at no passage. -/
def invented (n : ℕ) (values : List Json) : List Json :=
  values.filter fun value => !pointsAtPassage n value

/-! ### Counting what is dropped -/

variable {render : Json → Str} {evidence : List RetrievedChunk}

theorem invented_append (n : ℕ) (values values' : List Json) :
    (invented n (values ++ values')).length =
      (invented n values).length + (invented n values').length := by
  rw [invented, List.filter_append, List.length_append]
  rfl

/-- The loop counts the values that point at no passage. -/
theorem resolveLoop_invented {n : ℕ} {values : List Json} {seen : List (Fin n)} {count : ℕ}
    {r : List (Fin n) × ℕ} (h : resolveLoop n values seen count = .ok r) :
    r.2 = count + (invented n values).length := by
  induction values generalizing seen count with
  | nil =>
      rw [← Except.ok.inj h]
      rfl
  | cons value rest ih =>
      rw [resolveLoop] at h
      cases hv : citedIndex n value with
      | error e => rw [hv] at h; cases h
      | ok cited =>
          rw [hv] at h
          cases cited with
          | none =>
              have hp : pointsAtPassage n value = false := by rw [pointsAtPassage, hv]
              rw [ih h, invented, invented, List.filter_cons, hp]
              simp only [Bool.not_false, if_true, List.length_cons]
              omega
          | some index =>
              have hp : pointsAtPassage n value = true := by rw [pointsAtPassage, hv]
              have hskip : invented n (value :: rest) = invented n rest := by
                rw [invented, List.filter_cons, hp]
                rfl
              dsimp only at h
              rw [hskip]
              split_ifs at h
              · exact ih h
              · exact ih h

theorem resolveEvidence_invented {raw : Json} {r : List Uuid × ℕ}
    (h : resolveEvidence (raw.get? evidenceKey) evidence = .ok r) :
    r.2 = (invented evidence.length (citedValues raw)).length := by
  -- What is no list resolves to nothing, and cites nothing.
  have hother : citedValues raw = [] → .ok ([], 0) = (.ok r : Except Exc (List Uuid × ℕ)) →
      r.2 = (invented evidence.length (citedValues raw)).length := fun hnil hr => by
    rw [hnil, ← Except.ok.inj hr]
    rfl
  cases hraw : raw.get? evidenceKey with
  | none => exact hother (by rw [citedValues, hraw]) (by rw [← h, hraw]; rfl)
  | some value =>
      cases value with
      | list values =>
          rw [citedValues, hraw]
          rw [hraw, resolveEvidence] at h
          cases hl : resolveLoop evidence.length values [] 0 with
          | error e => rw [hl] at h; cases h
          | ok p =>
              rw [hl] at h
              rw [← Except.ok.inj h]
              exact (resolveLoop_invented hl).trans (Nat.zero_add _)
      | null => exact hother (by rw [citedValues, hraw]) (by rw [← h, hraw]; rfl)
      | bool _ => exact hother (by rw [citedValues, hraw]) (by rw [← h, hraw]; rfl)
      | int _ => exact hother (by rw [citedValues, hraw]) (by rw [← h, hraw]; rfl)
      | float _ => exact hother (by rw [citedValues, hraw]) (by rw [← h, hraw]; rfl)
      | str _ => exact hother (by rw [citedValues, hraw]) (by rw [← h, hraw]; rfl)
      | dict _ => exact hother (by rw [citedValues, hraw]) (by rw [← h, hraw]; rfl)

/-- **The generator counts what it drops**: the invented citations of the claims it
keeps. -/
theorem parseClaims_invented {raws : List Json} {r : List Claim × ℕ}
    (h : parseClaims render evidence raws = .ok r) :
    r.2 = (invented evidence.length (citations render raws)).length := by
  induction raws generalizing r with
  | nil =>
      rw [← Except.ok.inj h]
      rfl
  | cons raw rest ih =>
      rw [parseClaims] at h
      dsimp only at h
      have hskip : isClaim render raw = false →
          citations render (raw :: rest) = citations render rest := fun hc => by
        rw [citations, List.filter_cons, hc]
        rfl
      split_ifs at h with hdict htext
      · rw [hskip (by simp [isClaim, htext])]
        exact ih h
      · obtain ⟨cited, hcited, h⟩ := bind_eq_ok.mp h
        obtain ⟨tail, htail, h⟩ := bind_eq_ok.mp h
        obtain rfl := Except.ok.inj h
        have hkeep : citations render (raw :: rest) = citedValues raw ++ citations render rest := by
          rw [citations, List.filter_cons, if_pos (by simp [isClaim, hdict, htext])]
          rfl
        rw [hkeep, invented_append, ← resolveEvidence_invented hcited, ← ih htail]
      · rw [hskip (by simp [isClaim, hdict])]
        exact ih h

/-- **The count in the metadata** is the number of invented citations of the payload. -/
theorem inventedCitations_parse {modelId : Str} {payload : Json} {usage : TokenUsage}
    {answer : GeneratedAnswer} (h : parse render modelId payload evidence usage = .ok answer) :
    answer.metadata.inventedCitations =
      some (invented evidence.length (citations render (rawClaims payload))).length := by
  obtain ⟨raws, claims, dropped, hraws, hclaims, rfl⟩ := parse_eq_ok h
  have hraw : rawClaims payload = raws := by rw [rawClaims, hraws]
  rw [hraw]
  exact congrArg some (parseClaims_invented hclaims)

/-- Every citation that survives points at a passage. -/
theorem parse_subset {modelId : Str} {payload : Json} {usage : TokenUsage}
    {answer : GeneratedAnswer} (h : parse render modelId payload evidence usage = .ok answer) :
    ∀ claim ∈ answer.claims, ∀ id ∈ claim.evidence, id ∈ evidence.map (·.chunkId) := by
  obtain ⟨raws, claims, dropped, -, hclaims, rfl⟩ := parse_eq_ok h
  exact parseClaims_forall (P := fun ids => ∀ id ∈ ids, id ∈ evidence.map (·.chunkId))
    (fun _ _ h => resolveEvidence_subset h) hclaims

end Reasoning
end EvidenceLab
