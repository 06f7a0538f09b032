/-
# Grounded answer generation

`core/reasoning/base.py` and `grounded.py`.  The evidence is shown to the model
by positional index; what it answers is arbitrary JSON.  `parse` reads an answer
out of it: a claim that is no object or has no text is skipped, a citation that
is no index of a passage is dropped and counted (`resolveEvidence`).
-/

import EvidenceLab.Core.Types
import EvidenceLab.Data.Numerals

namespace EvidenceLab
namespace Reasoning

open Text Data EvidenceLab.Core

/-! ### Contracts -/

/-- `InferenceBudget`, as far as a generator reads it. -/
structure InferenceBudget where
  maxInputTokens : ℕ
  maxOutputTokens : ℕ

/-- `Claim`: one assertion in an answer, with the evidence supporting it. -/
structure Claim where
  text : Str
  evidence : List Uuid := []

/-- `Claim.is_supported`. -/
def Claim.isSupported (claim : Claim) : Bool := !claim.evidence.isEmpty

/-- `TokenUsage`. -/
structure TokenUsage where
  inputTokens : ℕ := 0
  outputTokens : ℕ := 0

/-- `TokenUsage.total`. -/
def TokenUsage.total (usage : TokenUsage) : ℕ := usage.inputTokens + usage.outputTokens

/-- The keys a generator sets in the `metadata` of an answer. -/
structure AnswerMetadata where
  reason : Option String := none
  evidenceCount : Option ℕ := none
  inventedCitations : Option ℕ := none

/-- `GeneratedAnswer`. -/
structure GeneratedAnswer where
  text : Str
  claims : List Claim := []
  abstained : Bool := false
  modelId : Str := []
  usage : TokenUsage := {}
  metadata : AnswerMetadata := {}

/-- `GeneratedAnswer.cited_chunk_ids`: every chunk cited, in first-cited order. -/
def GeneratedAnswer.citedChunkIds (answer : GeneratedAnswer) : List Uuid :=
  (answer.claims.foldl
    (fun seen claim => claim.evidence.foldl (fun seen id => seen.setDefault id ()) seen)
    (Dict.empty : Dict Uuid Unit)).keys

/-- `GeneratedAnswer.unsupported_claims`. -/
def GeneratedAnswer.unsupportedClaims (answer : GeneratedAnswer) : List Claim :=
  answer.claims.filter fun claim => !claim.isSupported

/-- `ChatModel`: what a provider's model answers, and its name. -/
structure ChatModel where
  modelId : Str
  completeJson : String → Str → ℕ → ℚ → Except Exc (Json × TokenUsage)

/-- `AnswerGenerator`: its model and what `generate` does. -/
structure AnswerGenerator where
  modelId : Str
  generate : Str → List RetrievedChunk → InferenceBudget → Except Exc GeneratedAnswer

/-! ### The prompt -/

def systemPrompt : String :=
  "You answer questions strictly from numbered passages supplied by the user.\n\nRules:\n" ++
  "- Use only the passages. Never use outside knowledge, and never guess.\n" ++
  "- Break your answer into claims. Every claim must cite the passage indices that support it.\n" ++
  "- A claim with no supporting passage must not be made.\n" ++
  "- If the passages do not answer the question, set \"abstained\" to true and leave " ++
  "\"claims\" empty. Refusing is correct when the evidence is absent.\n\n" ++
  "Respond with JSON only, in this exact shape:\n" ++
  "\x7b\"answer\": \"<the full answer as prose>\",\n" ++
  " \"claims\": [\x7b\"text\": \"<one assertion>\", \"evidence\": [<passage index>, ...]\x7d],\n" ++
  " \"abstained\": false\x7d"

/-- `MAX_PASSAGE_CHARS`. -/
def maxPassageChars : ℕ := 4000

/-- The line of a numbered passage. -/
def passageLine (index : ℕ) (chunk : RetrievedChunk) : Str :=
  lit ['['] ++ Json.decimal index ++ lit [']', ' '] ++ chunk.text.take maxPassageChars

/-- `build_user_prompt`. -/
def buildUserPrompt (query : Str) (evidence : List RetrievedChunk) : Str :=
  [lf].intercalate
    ([lit ['Q', 'u', 'e', 's', 't', 'i', 'o', 'n', ':', ' '] ++ query, [],
      lit ['P', 'a', 's', 's', 'a', 'g', 'e', 's', ':']] ++
      evidence.zipIdx.map (fun entry => passageLine entry.2 entry.1) ++
      if evidence = [] then [lit ['(', 'n', 'o', 'n', 'e', ')']] else [])

/-! ### Reading the answer -/

/-- The keys of a payload. -/
def answerKey : Str := lit ['a', 'n', 's', 'w', 'e', 'r']
def abstainedKey : Str := lit ['a', 'b', 's', 't', 'a', 'i', 'n', 'e', 'd']
def claimsKey : Str := lit ['c', 'l', 'a', 'i', 'm', 's']
def textKey : Str := lit ['t', 'e', 'x', 't']
def evidenceKey : Str := lit ['e', 'v', 'i', 'd', 'e', 'n', 'c', 'e']

/-- What one cited value is: a passage, or an invention.  An exception other than
`TypeError` and `ValueError` is not caught. -/
def citedIndex (n : ℕ) (value : Json) : Except Exc (Option (Fin n)) :=
  match value.toInt with
  | .error .typeError => .ok none
  | .error .valueError => .ok none
  | .error e => .error e
  | .ok index =>
      if h : 0 ≤ index ∧ index < n then .ok (some ⟨index.toNat, by omega⟩) else .ok none

/-- The loop of `_resolve_evidence`: the indices seen so far, in order, and the
citations invented so far. -/
def resolveLoop (n : ℕ) : List Json → List (Fin n) → ℕ → Except Exc (List (Fin n) × ℕ)
  | [], seen, invented => .ok (seen, invented)
  | value :: rest, seen, invented =>
      match citedIndex n value with
      | .error e => .error e
      | .ok none => resolveLoop n rest seen (invented + 1)
      | .ok (some index) =>
          if index ∈ seen then resolveLoop n rest seen invented
          else resolveLoop n rest (seen ++ [index]) invented

/-- `_resolve_evidence`: the ids of the passages a claim cites, and how many of its
citations were invented. -/
def resolveEvidence (rawIndices : Option Json) (evidence : List RetrievedChunk) :
    Except Exc (List Uuid × ℕ) :=
  match rawIndices with
  | some (.list values) =>
      (resolveLoop evidence.length values [] 0).map fun r =>
        (r.1.map fun index => (evidence.get index).chunkId, r.2)
  | _ => .ok ([], 0)

/-- The loop of `_parse` over the raw claims: the claims and the number of dropped
citations. -/
def parseClaims (render : Json → Str) (evidence : List RetrievedChunk) :
    List Json → Except Exc (List Claim × ℕ)
  | [] => .ok ([], 0)
  | raw :: rest =>
      if raw.isDict then
        let claimText := strip isSpace (Json.toStr render (raw.get? textKey))
        if claimText = [] then parseClaims render evidence rest
        else do
          let cited ← resolveEvidence (raw.get? evidenceKey) evidence
          let tail ← parseClaims render evidence rest
          return (⟨claimText, cited.1⟩ :: tail.1, cited.2 + tail.2)
      else parseClaims render evidence rest

/-- `PipelineError(message, code=GENERATION_FAILED, stage="generation")`. -/
def generationFailed (message : String) : Exc :=
  .domain (pipelineError message .generationFailed "generation")

/-- `GroundedAnswerGenerator._parse`. -/
def parse (render : Json → Str) (modelId : Str) (payload : Json) (evidence : List RetrievedChunk)
    (usage : TokenUsage) : Except Exc GeneratedAnswer :=
  if payload.isDict ∧ (payload.get? answerKey).isSome then do
    let text := strip isSpace (Json.toStr render (payload.get? answerKey))
    let abstained := (payload.get? abstainedKey).elim false Json.truthy
    let raws ← Json.iterate (payload.get? claimsKey)
    let (claims, dropped) ← parseClaims render evidence raws
    if text = [] ∧ ¬ abstained then
      throw (generationFailed "The model returned an empty answer.")
    return { text, claims, abstained, modelId, usage,
             metadata := { evidenceCount := some evidence.length
                           inventedCitations := some dropped } }
  else .error (generationFailed "The model did not return an answer object.")

/-- `GroundedAnswerGenerator.generate`: without evidence the model is not called. -/
def generate (render : Json → Str) (model : ChatModel) (temperature : ℚ) (query : Str)
    (evidence : List RetrievedChunk) (budget : InferenceBudget) : Except Exc GeneratedAnswer :=
  match evidence with
  | [] => .ok { text := lit "No relevant evidence was retrieved for this question.".toList
                abstained := true
                modelId := model.modelId
                metadata := { reason := some "no_evidence" } }
  | _ => do
    let (payload, usage) ← model.completeJson systemPrompt (buildUserPrompt query evidence)
      budget.maxOutputTokens temperature
    parse render model.modelId payload evidence usage

/-- `GroundedAnswerGenerator` over a chat model. -/
def groundedAnswerGenerator (render : Json → Str) (model : ChatModel) (temperature : ℚ) :
    AnswerGenerator where
  modelId := model.modelId
  generate := generate render model temperature

end Reasoning
end EvidenceLab
