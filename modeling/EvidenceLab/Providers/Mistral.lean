/-
# The Mistral adapter

`models/providers/mistral.py`.  A call of the API is what the HTTP client answers: it
times out, it does not reach the server, or there is a response with a status and a
body that may be no JSON.  `MistralTransport.post` repeats a call that failed in
passing, and the two models read an untrusted JSON value out of the last response.

`json.loads` of the text of a message, and `float` of a string, are parameters.  What
`json.loads` raises is `JSONDecodeError` for a malformed text, and something else
where a text is too much for it: a `ValueError` for a number of too many digits.
-/

import EvidenceLab.Data.Json

namespace EvidenceLab
namespace Providers

open Text Data EvidenceLab.Core

/-! ### Transport -/

/-- What `json.loads` and `response.json()` raise. -/
inductive JsonError
  | malformed
  | tooMuch
  deriving DecidableEq, Repr

/-- The exception of a reader of JSON. -/
def JsonError.exc : JsonError → Exc
  | malformed => .jsonDecodeError
  | tooMuch => .valueError

/-- What becomes of an HTTP request: `httpx.TimeoutException`, another `httpx.HTTPError`,
or a response. -/
inductive HttpOutcome
  | timeout
  | unreachable
  | response (status : ℕ) (body : Except JsonError Json)

/-- `ProviderError(..., provider=PROVIDER_NAME)`. -/
def mistralError (message : String) (code : ErrorCode) (retryable : Bool := false)
    (details : List (String × Detail) := []) : Exc :=
  .domain (providerError message code "mistral" retryable details)

/-- `_RETRYABLE_STATUS`. -/
def retryableStatus : List ℕ := [408, 409, 429, 500, 502, 503, 504]

/-- `_is_retryable`. -/
def isRetryable : Exc → Bool
  | .domain ⟨.provider _ retryable, _, _, _⟩ => retryable
  | _ => false

/-- `_error_for`: an HTTP status in the terms of the domain. -/
def errorFor (status : ℕ) (default : ErrorCode) : Exc :=
  let retryable : Bool := status ∈ retryableStatus
  let details := [("status_code", Detail.number status)]
  if status = 401 ∨ status = 403 then
    mistralError "The Mistral API key was rejected." .providerNotConfigured retryable details
  else if status = 429 then
    mistralError "The Mistral rate limit was exceeded." .modelRateLimit retryable details
  else if status = 422 then
    mistralError "Mistral rejected the request payload." .modelContextExceeded retryable details
  else if 500 ≤ status then
    mistralError "Mistral is unavailable." .modelUnavailable retryable details
  else
    mistralError ("Mistral returned an unexpected status (" ++ toString status ++ ").") default
      retryable details

/-- `response.is_success`. -/
def isSuccess (status : ℕ) : Bool := decide (200 ≤ status ∧ status < 300)

/-- `_post_once`. -/
def postOnce (default : ErrorCode) : HttpOutcome → Except Exc Json
  | .timeout => .error (mistralError "The request to Mistral timed out." .modelTimeout true)
  | .unreachable => .error (mistralError "Mistral could not be reached." .modelUnavailable true)
  | .response status body =>
      if isSuccess status then body.mapError JsonError.exc
      else .error (errorFor status default)

/-- The attempts from the `n`-th on, `more` of them after it. -/
def postFrom (default : ErrorCode) (http : ℕ → HttpOutcome) : ℕ → ℕ → Except Exc Json
  | 0, n => postOnce default (http n)
  | more + 1, n =>
      match postOnce default (http n) with
      | .ok payload => .ok payload
      | .error e => if isRetryable e then postFrom default http more (n + 1) else .error e

/-- `post`: at least one attempt is made. -/
def post (maxRetries : ℤ) (default : ErrorCode) (http : ℕ → HttpOutcome) : Except Exc Json :=
  postFrom default http (maxRetries - 1).toNat 0

/-! ### Embeddings -/

/-- The keys of a response. -/
def dataKey : Str := lit ['d', 'a', 't', 'a']
def indexKey : Str := lit ['i', 'n', 'd', 'e', 'x']
def embeddingKey : Str := lit ['e', 'm', 'b', 'e', 'd', 'd', 'i', 'n', 'g']

/-- `MistralEmbeddingModel`, with `float` of a string. -/
structure MistralEmbeddingModel where
  modelId : String := "mistral-embed"
  dimensions : ℕ := 1024
  maxBatchSize : ℕ := 512
  maxRetries : ℤ := 3
  floatOfStr : Str → Option Float64

/-- What `except (KeyError, TypeError, ValueError)` catches. -/
def isParseError : Exc → Bool
  | .keyError => true
  | .typeError => true
  | .valueError => true
  | .jsonDecodeError => true
  | _ => false

/-- `int(item["index"])`. -/
def itemIndex (item : Json) : Except Exc ℤ := do
  let index ← item.subscript indexKey
  index.toInt

namespace MistralEmbeddingModel

variable (m : MistralEmbeddingModel)

/-- `[float(value) for value in item["embedding"]]`. -/
def itemVector (item : Json) : Except Exc (List Float64) := do
  let embedding ← item.subscript embeddingKey
  let values ← embedding.elements
  values.mapM (Json.toFloat m.floatOfStr)

/-- The `try` of `_parse_embeddings`. -/
def itemVectors (payload : Json) : Except Exc (List (List Float64)) := do
  let data ← payload.subscript dataKey
  let items ← data.elements
  let keys ← items.mapM itemIndex
  let ordered := ((keys.zip items).mergeSort fun a b => a.1 ≤ b.1).map Prod.snd
  ordered.mapM m.itemVector

/-- `_parse_embeddings`. -/
def parseEmbeddings (payload : Json) (expected : ℕ) : Except Exc (List (List Float64)) := do
  let vectors ← catching isParseError
    (mistralError "The embedding response could not be parsed." .embeddingFailed)
    (m.itemVectors payload)
  if vectors.length ≠ expected then
    throw (mistralError ("Expected " ++ toString expected ++ " embeddings but received " ++
      toString vectors.length ++ ".") .embeddingFailed)
  else
    match vectors.find? (·.length ≠ m.dimensions) with
    | some vector =>
        throw (mistralError ("Expected " ++ toString m.dimensions ++
          "-dimensional vectors, received " ++ toString vector.length ++ ".") .embeddingFailed)
    | none => return vectors

/-- `embed`, `post` being what the transport makes of the request. -/
def embedWith (texts : List Str) (post : Except Exc Json) : Except Exc (List (List Float64)) :=
  if texts = [] then .ok []
  else if m.maxBatchSize < texts.length then
    .error (mistralError ("Batch of " ++ toString texts.length ++
      " exceeds the provider limit of " ++ toString m.maxBatchSize ++ ".") .modelContextExceeded)
  else do
    let payload ← post
    m.parseEmbeddings payload texts.length

/-- `embed`. -/
def embed (texts : List Str) (http : ℕ → HttpOutcome) : Except Exc (List (List Float64)) :=
  m.embedWith texts (post m.maxRetries .embeddingFailed http)

end MistralEmbeddingModel

/-! ### Chat -/

/-- The keys of a response. -/
def choicesKey : Str := lit ['c', 'h', 'o', 'i', 'c', 'e', 's']
def messageKey : Str := lit ['m', 'e', 's', 's', 'a', 'g', 'e']
def contentKey : Str := lit ['c', 'o', 'n', 't', 'e', 'n', 't']
def finishReasonKey : Str :=
  lit ['f', 'i', 'n', 'i', 's', 'h', '_', 'r', 'e', 'a', 's', 'o', 'n']
def usageKey : Str := lit ['u', 's', 'a', 'g', 'e']
def promptTokensKey : Str :=
  lit ['p', 'r', 'o', 'm', 'p', 't', '_', 't', 'o', 'k', 'e', 'n', 's']
def completionTokensKey : Str :=
  lit ['c', 'o', 'm', 'p', 'l', 'e', 't', 'i', 'o', 'n', '_', 't', 'o', 'k', 'e', 'n', 's']

/-- `TokenUsage` as a provider reports it: the numbers may be negative. -/
structure ReportedUsage where
  inputTokens : ℤ
  outputTokens : ℤ
  deriving DecidableEq, Repr

/-- `MistralChatModel`, with `json.loads` of a string. -/
structure MistralChatModel where
  modelId : String := "mistral-medium-latest"
  maxRetries : ℤ := 3
  loads : Str → Except JsonError Json

/-- What `except (KeyError, IndexError, TypeError)` catches. -/
def isLookupError : Exc → Bool
  | .keyError => true
  | .indexError => true
  | .typeError => true
  | _ => false

/-- What `except json.JSONDecodeError` catches. -/
def isDecodeError : Exc → Bool
  | .jsonDecodeError => true
  | _ => false

/-- `payload["choices"][0]`, and its `["message"]["content"]`. -/
def choiceContent (payload : Json) : Except Exc (Json × Json) := do
  let choices ← payload.subscript choicesKey
  let choice ← choices.subscriptZero
  let message ← choice.subscript messageKey
  let content ← message.subscript contentKey
  return (choice, content)

/-- `choice.get("finish_reason") == "length"`. -/
def cutOff (choice : Json) : Bool :=
  match choice.get? finishReasonKey with
  | some (.str reason) => reason = lit ['l', 'e', 'n', 'g', 't', 'h']
  | _ => false

/-- `payload.get("usage") or {}`. -/
def usageOf (payload : Json) : Except Exc Json :=
  if payload.isDict then
    match payload.get? usageKey with
    | none => .ok (.dict [])
    | some usage => .ok (if usage.truthy then usage else .dict [])
  else .error .attributeError

/-- `int(usage.get(key, 0) or 0)`. -/
def tokensOf (usage : Json) (key : Str) : Except Exc ℤ :=
  if usage.isDict then
    match usage.get? key with
    | none => .ok 0
    | some tokens => if tokens.truthy then tokens.toInt else .ok 0
  else .error .attributeError

/-- `_parse_usage`. -/
def parseUsage (payload : Json) : Except Exc ReportedUsage := do
  let usage ← usageOf payload
  let inputTokens ← tokensOf usage promptTokensKey
  let outputTokens ← tokensOf usage completionTokensKey
  return ⟨inputTokens, outputTokens⟩

namespace MistralChatModel

variable (m : MistralChatModel)

/-- `json.loads(content)`; what is no string is a `TypeError`. -/
def loadsContent : Json → Except Exc Json
  | .str s => (m.loads s).mapError JsonError.exc
  | _ => .error .typeError

/-- `_parse_content`. -/
def parseContent (payload : Json) : Except Exc Json := do
  let (choice, content) ← catching isLookupError
    (mistralError "The chat response had no message content." .generationFailed)
    (choiceContent payload)
  if cutOff choice then
    throw (mistralError "The answer was cut off by the output token limit." .modelContextExceeded)
  else
    let parsed ← catching isDecodeError
      (mistralError "The chat response was not valid JSON." .generationFailed)
      (m.loadsContent content)
    if parsed.isDict then return parsed
    else throw (mistralError "The chat response was not a JSON object." .generationFailed)

/-- `complete_json`. -/
def completeJson (http : ℕ → HttpOutcome) : Except Exc (Json × ReportedUsage) := do
  let payload ← post m.maxRetries .generationFailed http
  let parsed ← m.parseContent payload
  let usage ← parseUsage payload
  return (parsed, usage)

end MistralChatModel

end Providers
end EvidenceLab
