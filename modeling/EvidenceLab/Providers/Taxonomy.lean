/-
# Provider failures and the taxonomy

Every failure of a call should be a `ProviderError`.  The transport keeps to that
except for a response that is a success and no JSON: `response.json()` is not guarded.
Which of the JSON values are read within the taxonomy is said of the value itself:
`ChatReadable` for a chat response and `EmbeddingsReadable` for an embedding response.
Outside of them a `TypeError`, `ValueError`, `AttributeError` or `OverflowError`
escapes (`taxonomy_iff`).
-/

import EvidenceLab.Providers.Mistral

namespace EvidenceLab
namespace Providers

open Text Data EvidenceLab.Core

variable {α β : Type}

/-! ### The taxonomy -/

/-- `isinstance(e, ProviderError)`. -/
def isProviderError : Exc → Bool
  | .domain ⟨.provider _ _, _, _, _⟩ => true
  | _ => false

/-- A call gives something good, or raises a `ProviderError`. -/
def InTaxonomy (good : α → Prop) : Except Exc α → Prop
  | .ok a => good a
  | .error e => isProviderError e = true

@[simp] theorem inTaxonomy_ok {good : α → Prop} {a : α} :
    InTaxonomy good (.ok a) ↔ good a := Iff.rfl

@[simp] theorem inTaxonomy_error {good : α → Prop} {e : Exc} :
    InTaxonomy good (.error e : Except Exc α) ↔ isProviderError e = true := Iff.rfl

@[simp] theorem isProviderError_mistralError (message : String) (code : ErrorCode)
    (retryable : Bool) (details : List (String × Detail)) :
    isProviderError (mistralError message code retryable details) = true := rfl

/-- What is good may be weakened. -/
theorem InTaxonomy.mono {good good' : α → Prop} {x : Except Exc α} (h : InTaxonomy good x)
    (hgood : ∀ a, x = .ok a → good a → good' a) : InTaxonomy good' x := by
  cases x with
  | ok a => exact hgood a rfl h
  | error e => exact h

/-- A sequence is in the taxonomy iff its first step is, and what follows is. -/
theorem inTaxonomy_bind {good : β → Prop} {x : Except Exc α} {f : α → Except Exc β} :
    InTaxonomy good (x >>= f) ↔
      InTaxonomy (fun a => InTaxonomy good (f a)) x := by
  cases x <;> rfl

@[simp] theorem catching_ok {caught : Exc → Bool} {instead : Exc} {a : α} :
    catching caught instead (.ok a) = .ok a := rfl

theorem catching_error {caught : Exc → Bool} {instead e : Exc} (h : caught e = true) :
    catching caught instead (.error e : Except Exc α) = .error instead := if_pos h

/-! ### The transport -/

/-- The outcomes that are worth another attempt. -/
def passing : HttpOutcome → Bool
  | .timeout => true
  | .unreachable => true
  | .response status _ => status ∈ retryableStatus

/-- The outcome that counts, from the `n`-th attempt on with `more` after it. -/
def decisiveFrom (http : ℕ → HttpOutcome) : ℕ → ℕ → HttpOutcome
  | 0, n => http n
  | more + 1, n => if passing (http n) then decisiveFrom http more (n + 1) else http n

/-- The outcome of the last attempt that is made. -/
def decisive (maxRetries : ℤ) (http : ℕ → HttpOutcome) : HttpOutcome :=
  decisiveFrom http (maxRetries - 1).toNat 0

/-- An error for a status says whether the status is worth another attempt. -/
theorem errorFor_spec (status : ℕ) (default : ErrorCode) :
    isProviderError (errorFor status default) = true ∧
      isRetryable (errorFor status default) = decide (status ∈ retryableStatus) := by
  unfold errorFor
  simp only []
  split_ifs <;> exact ⟨rfl, rfl⟩

/-- An attempt raises an error that is retried iff its outcome is worth it. -/
theorem postOnce_error {default : ErrorCode} {outcome : HttpOutcome} {e : Exc}
    (h : postOnce default outcome = .error e) : isRetryable e = passing outcome := by
  cases outcome with
  | timeout =>
      cases h
      rfl
  | unreachable =>
      cases h
      rfl
  | response status body =>
      simp only [postOnce] at h
      split_ifs at h with hsuccess
      · have hstatus : status ∉ retryableStatus := by
          have hrange := of_decide_eq_true hsuccess
          simp only [retryableStatus, List.mem_cons, List.not_mem_nil, or_false]
          omega
        have hpassing : passing (.response status body) = false := decide_eq_false hstatus
        rw [hpassing]
        cases body with
        | ok payload => cases h
        | error failure =>
            cases h
            cases failure <;> rfl
      · cases h
        exact (errorFor_spec status default).2

/-- An attempt with a value is not worth another one. -/
theorem postOnce_ok {default : ErrorCode} {outcome : HttpOutcome} {payload : Json}
    (h : postOnce default outcome = .ok payload) : passing outcome = false := by
  cases outcome with
  | timeout => cases h
  | unreachable => cases h
  | response status body =>
      simp only [postOnce] at h
      split_ifs at h with hsuccess
      have hrange := of_decide_eq_true hsuccess
      refine decide_eq_false ?_
      simp only [retryableStatus, List.mem_cons, List.not_mem_nil, or_false]
      omega

/-- What the attempts give is what the one that counts gives. -/
theorem postFrom_eq (default : ErrorCode) (http : ℕ → HttpOutcome) (more n : ℕ) :
    postFrom default http more n = postOnce default (decisiveFrom http more n) := by
  induction more generalizing n with
  | zero => rfl
  | succ more ih =>
      rw [postFrom, decisiveFrom]
      cases h : postOnce default (http n) with
      | ok payload => rw [postOnce_ok h, if_neg Bool.false_ne_true, h]
      | error e =>
          simp only [postOnce_error h]
          by_cases hpassing : passing (http n) = true
          · rw [if_pos hpassing, if_pos hpassing, ih]
          · rw [if_neg hpassing, if_neg hpassing, h]

/-- A response that is a success has a body that can be read. -/
def HttpOutcome.Readable (readable : Json → Prop) : HttpOutcome → Prop
  | .response status body =>
      isSuccess status = true → ∃ payload, body = .ok payload ∧ readable payload
  | _ => True

/-- **A call is in the taxonomy iff the response that counts can be read**, if it is a
success. -/
theorem inTaxonomy_post {good : Json → Prop} {maxRetries : ℤ} {default : ErrorCode}
    {http : ℕ → HttpOutcome} :
    InTaxonomy good (post maxRetries default http) ↔
      (decisive maxRetries http).Readable good := by
  rw [post, postFrom_eq]
  unfold decisive
  cases decisiveFrom http (maxRetries - 1).toNat 0 with
  | timeout => exact ⟨fun _ => trivial, fun _ => rfl⟩
  | unreachable => exact ⟨fun _ => trivial, fun _ => rfl⟩
  | response status body =>
      simp only [postOnce, HttpOutcome.Readable]
      by_cases hsuccess : isSuccess status = true
      · rw [if_pos hsuccess]
        cases body with
        | ok payload => simp [Except.mapError, hsuccess]
        | error failure => cases failure <;> simp [Except.mapError, hsuccess, JsonError.exc,
            isProviderError]
      · rw [if_neg hsuccess, inTaxonomy_error, (errorFor_spec status default).1]
        exact ⟨fun _ h => absurd h hsuccess, fun _ => rfl⟩

/-! ### Chat responses -/

theorem subscript_eq_ok {value x : Json} {key : Str} :
    value.subscript key = .ok x ↔ value.get? key = some x := by
  cases value with
  | dict entries =>
      simp only [Json.subscript, Json.get?]
      cases entries.lookup key <;> simp
  | _ => simp [Json.subscript, Json.get?]

theorem subscript_error {value : Json} {key : Str} {e : Exc}
    (h : value.subscript key = .error e) : e = .keyError ∨ e = .typeError := by
  cases value with
  | dict entries =>
      simp only [Json.subscript] at h
      cases hget : entries.lookup key with
      | none =>
          rw [hget] at h
          cases h
          exact Or.inl rfl
      | some x =>
          rw [hget] at h
          cases h
  | _ =>
      cases h
      exact Or.inr rfl

/-- The usage of a response can be read: if there is one to speak of it is an object,
and so are its numbers ones that `int` accepts. -/
def UsageReadable (payload : Json) : Prop :=
  ∀ usage, payload.get? usageKey = some usage → usage.truthy = true →
    usage.isDict = true ∧
    ∀ key ∈ [promptTokensKey, completionTokensKey], ∀ tokens, usage.get? key = some tokens →
      tokens.truthy = true → ∃ n, tokens.toInt = .ok n

/-- A chat response can be read: where it has a message content that was not cut off,
this is a string that is not too much for `json.loads`, and if it is the text of an
object the usage of the response can be read. -/
def MistralChatModel.ChatReadable (m : MistralChatModel) (payload : Json) : Prop :=
  ∀ choice rest message content,
    payload.get? choicesKey = some (.list (choice :: rest)) →
    choice.get? messageKey = some message → message.get? contentKey = some content →
    cutOff choice = false →
      ∃ s, content = .str s ∧ m.loads s ≠ .error .tooMuch ∧
        ∀ parsed, m.loads s = .ok parsed → parsed.isDict = true → UsageReadable payload

/-- The message content of a response is that of the first of its choices. -/
theorem choiceContent_eq_ok {payload choice content : Json} :
    choiceContent payload = .ok (choice, content) ↔
      ∃ rest message, payload.get? choicesKey = some (.list (choice :: rest)) ∧
        choice.get? messageKey = some message ∧ message.get? contentKey = some content := by
  simp only [choiceContent, bind_eq_ok, subscript_eq_ok]
  constructor
  · rintro ⟨choices, hchoices, first, hfirst, message, hmessage, found, hcontent, heq⟩
    cases heq
    cases choices with
    | list xs =>
        cases xs with
        | nil => cases hfirst
        | cons x rest =>
            cases hfirst
            exact ⟨rest, message, hchoices, hmessage, hcontent⟩
    | str text =>
        cases text with
        | nil => cases hfirst
        | cons c rest =>
            cases hfirst
            cases hmessage
    | _ => cases hfirst
  · rintro ⟨rest, message, hchoices, hmessage, hcontent⟩
    exact ⟨_, hchoices, choice, rfl, message, hmessage, content, hcontent, rfl⟩

/-- What the way to the message content raises is caught. -/
theorem choiceContent_error {payload : Json} {e : Exc} (h : choiceContent payload = .error e) :
    isLookupError e = true := by
  have hsubscript : ∀ {value : Json} {key : Str}, value.subscript key = .error e →
      isLookupError e = true := by
    intro value key hvalue
    rcases subscript_error hvalue with rfl | rfl <;> rfl
  simp only [choiceContent, bind_eq_error] at h
  rcases h with h | ⟨choices, -, h | ⟨choice, -, h | ⟨message, -, h | ⟨content, -, h⟩⟩⟩⟩
  · exact hsubscript h
  · cases choices with
    | list xs =>
        cases xs with
        | nil =>
            cases h
            rfl
        | cons x rest => cases h
    | str text =>
        cases text with
        | nil =>
            cases h
            rfl
        | cons c rest => cases h
    | _ =>
        cases h
        rfl
  · exact hsubscript h
  · exact hsubscript h
  · cases h

/-- A step that raises no `ProviderError` is in the taxonomy iff it returns. -/
theorem inTaxonomy_of_foreign {x : Except Exc α}
    (hforeign : ∀ e, x = .error e → isProviderError e = false) :
    InTaxonomy (fun _ => True) x ↔ ∃ a, x = .ok a := by
  cases x with
  | ok a => exact ⟨fun _ => ⟨a, rfl⟩, fun _ => trivial⟩
  | error e =>
      rw [inTaxonomy_error, hforeign e rfl]
      constructor
      · intro habsurd
        cases habsurd
      · rintro ⟨a, ha⟩
        cases ha

theorem toInt_foreign {value : Json} {e : Exc} (h : value.toInt = .error e) :
    isProviderError e = false := by
  cases value with
  | float x => cases x <;> cases h <;> rfl
  | str s =>
      simp only [Json.toInt] at h
      cases hs : Json.intOfStr s <;> rw [hs] at h <;> cases h
      rfl
  | _ => cases h <;> rfl

theorem tokensOf_foreign {usage : Json} {key : Str} {e : Exc}
    (h : tokensOf usage key = .error e) : isProviderError e = false := by
  unfold tokensOf at h
  split_ifs at h
  · cases hget : usage.get? key with
    | none =>
        rw [hget] at h
        cases h
    | some tokens =>
        rw [hget] at h
        simp only [] at h
        split_ifs at h
        exact toInt_foreign h
  · cases h
    rfl

/-- The number of tokens under a key of an object is read iff `int` accepts it. -/
theorem exists_tokensOf {usage : Json} {key : Str} (husage : usage.isDict = true) :
    (∃ n, tokensOf usage key = .ok n) ↔
      ∀ tokens, usage.get? key = some tokens → tokens.truthy = true →
        ∃ n, tokens.toInt = .ok n := by
  unfold tokensOf
  rw [if_pos husage]
  cases hget : usage.get? key with
  | none =>
      constructor
      · rintro - tokens h
        cases h
      · exact fun _ => ⟨0, rfl⟩
  | some tokens =>
      by_cases htruthy : tokens.truthy = true
      · simp only [if_pos htruthy]
        constructor
        · rintro hn tokens' h -
          cases h
          exact hn
        · exact fun h => h tokens rfl htruthy
      · simp only [if_neg htruthy]
        constructor
        · rintro - tokens' h htrue
          cases h
          exact absurd htrue htruthy
        · exact fun _ => ⟨0, rfl⟩

theorem exists_parseUsage_iff {payload usage : Json} (h : usageOf payload = .ok usage) :
    (∃ u, parseUsage payload = .ok u) ↔
      (∃ n, tokensOf usage promptTokensKey = .ok n) ∧
        ∃ n, tokensOf usage completionTokensKey = .ok n := by
  simp only [parseUsage, bind_eq_ok]
  constructor
  · rintro ⟨_, usage', h', i, hi, o, ho, -⟩
    cases h.symm.trans h'
    exact ⟨⟨i, hi⟩, o, ho⟩
  · rintro ⟨⟨i, hi⟩, o, ho⟩
    exact ⟨_, usage, h, i, hi, o, ho, rfl⟩

/-- Both numbers of tokens are read iff they can be. -/
theorem exists_tokensOf_iff (usage : Json) :
    ((∃ n, tokensOf usage promptTokensKey = .ok n) ∧
        ∃ n, tokensOf usage completionTokensKey = .ok n) ↔
      usage.isDict = true ∧
        ∀ key ∈ [promptTokensKey, completionTokensKey], ∀ tokens, usage.get? key = some tokens →
          tokens.truthy = true → ∃ n, tokens.toInt = .ok n := by
  constructor
  · rintro ⟨hin, hout⟩
    have husage : usage.isDict = true := by
      by_contra hno
      obtain ⟨n, hn⟩ := hin
      rw [tokensOf, if_neg hno] at hn
      cases hn
    refine ⟨husage, ?_⟩
    intro key hkey
    rcases List.mem_pair.mp hkey with rfl | rfl
    · exact (exists_tokensOf husage).mp hin
    · exact (exists_tokensOf husage).mp hout
  · rintro ⟨husage, hkeys⟩
    constructor
    · exact (exists_tokensOf husage).mpr (hkeys _ (List.mem_cons_self ..))
    · exact (exists_tokensOf husage).mpr (hkeys _ (List.mem_cons_of_mem _ (List.mem_cons_self ..)))

/-- The usage of a response object is read iff it can be. -/
theorem exists_parseUsage {payload : Json} (hpayload : payload.isDict = true) :
    (∃ u, parseUsage payload = .ok u) ↔ UsageReadable payload := by
  -- Where there is no usage to speak of, both numbers are 0.
  have hempty : usageOf payload = .ok (.dict []) → ∃ u, parseUsage payload = .ok u :=
    fun h => (exists_parseUsage_iff h).mpr ⟨⟨0, rfl⟩, 0, rfl⟩
  cases hget : payload.get? usageKey with
  | none =>
      have husage : usageOf payload = .ok (.dict []) := by
        rw [usageOf, if_pos hpayload, hget]
      refine ⟨?_, fun _ => hempty husage⟩
      rintro - usage h
      cases hget.symm.trans h
  | some usage =>
      by_cases htruthy : usage.truthy = true
      · have husage : usageOf payload = .ok usage := by
          simp only [usageOf, if_pos hpayload, hget, if_pos htruthy]
        rw [exists_parseUsage_iff husage, exists_tokensOf_iff]
        constructor
        · rintro h usage' hget' -
          cases hget.symm.trans hget'
          exact h
        · exact fun h => h usage hget htruthy
      · have husage : usageOf payload = .ok (.dict []) := by
          simp only [usageOf, if_pos hpayload, hget, if_neg htruthy]
        refine ⟨?_, fun _ => hempty husage⟩
        rintro - usage' hget' htrue
        cases hget.symm.trans hget'
        exact absurd htrue htruthy

theorem parseUsage_foreign {payload : Json} {e : Exc} (h : parseUsage payload = .error e) :
    isProviderError e = false := by
  simp only [parseUsage, bind_eq_error] at h
  rcases h with h | ⟨usage, -, h | ⟨i, -, h | ⟨o, -, h⟩⟩⟩
  · unfold usageOf at h
    split_ifs at h
    · cases hget : payload.get? usageKey <;> rw [hget] at h <;> cases h
    · cases h
      rfl
  · exact tokensOf_foreign h
  · exact tokensOf_foreign h
  · cases h

/-- Without a message content there is nothing to read. -/
theorem chatReadable_of_error {m : MistralChatModel} {payload : Json} {e : Exc}
    (h : choiceContent payload = .error e) : m.ChatReadable payload := by
  intro choice rest message content hchoices hmessage hcontent
  cases h.symm.trans (choiceContent_eq_ok.mpr ⟨rest, message, hchoices, hmessage, hcontent⟩)

/-- A message content that was not cut off can be read. -/
def MistralChatModel.ContentReadable (m : MistralChatModel) (payload content : Json) : Prop :=
  ∃ s, content = .str s ∧ m.loads s ≠ .error .tooMuch ∧
    ∀ parsed, m.loads s = .ok parsed → parsed.isDict = true → UsageReadable payload

theorem contentReadable_str {m : MistralChatModel} {payload : Json} {s : Str} :
    m.ContentReadable payload (.str s) ↔ m.loads s ≠ .error .tooMuch ∧
      ∀ parsed, m.loads s = .ok parsed → parsed.isDict = true → UsageReadable payload := by
  constructor
  · rintro ⟨s', hs, hread⟩
    cases hs
    exact hread
  · exact fun hread => ⟨s, rfl, hread⟩

/-- With one, it is what has to be read. -/
theorem chatReadable_of_ok {m : MistralChatModel} {payload choice content : Json}
    (h : choiceContent payload = .ok (choice, content)) :
    m.ChatReadable payload ↔ (cutOff choice = false → m.ContentReadable payload content) := by
  constructor
  · intro hread
    obtain ⟨rest, message, hchoices, hmessage, hcontent⟩ := choiceContent_eq_ok.mp h
    exact hread choice rest message content hchoices hmessage hcontent
  · intro hread choice' rest message content' hchoices hmessage hcontent
    have hsame := choiceContent_eq_ok.mpr ⟨rest, message, hchoices, hmessage, hcontent⟩
    cases h.symm.trans hsame
    exact hread

/-- The value of a response that has a message content is an object. -/
theorem isDict_of_choiceContent {payload : Json} {r : Json × Json}
    (h : choiceContent payload = .ok r) : payload.isDict = true := by
  obtain ⟨rest, message, hchoices, -, -⟩ := choiceContent_eq_ok.mp h
  cases payload with
  | dict entries => rfl
  | _ => cases hchoices

/-- Behind a parsed object it is the usage that has to be read. -/
theorem inTaxonomy_usage {payload parsed : Json} (hpayload : payload.isDict = true)
    (hparsed : parsed.isDict = true) :
    InTaxonomy (fun r : Json × ReportedUsage => r.1.isDict = true)
        (parseUsage payload >>= fun usage => pure (parsed, usage)) ↔ UsageReadable payload := by
  rw [inTaxonomy_bind, ← exists_parseUsage hpayload,
    ← inTaxonomy_of_foreign fun e => parseUsage_foreign]
  constructor
  · exact fun h => h.mono fun _ _ _ => trivial
  · exact fun h => h.mono fun _ _ _ => hparsed

/-- A content that is a string is read within the taxonomy iff it can be read. -/
theorem inTaxonomy_loads {m : MistralChatModel} {payload : Json} {s : Str}
    (hpayload : payload.isDict = true) :
    InTaxonomy (fun parsed => InTaxonomy (fun r : Json × ReportedUsage => r.1.isDict = true)
        (parseUsage payload >>= fun usage => pure (parsed, usage)))
      (catching isDecodeError
          (mistralError "The chat response was not valid JSON." .generationFailed)
          ((m.loads s).mapError JsonError.exc) >>= fun parsed =>
        if parsed.isDict = true then pure parsed
        else throw (mistralError "The chat response was not a JSON object." .generationFailed)) ↔
      m.ContentReadable payload (.str s) := by
  rw [contentReadable_str, inTaxonomy_bind]
  cases hloads : m.loads s with
  | error failure =>
      cases failure with
      | malformed =>
          refine iff_of_true rfl ⟨?_, ?_⟩
          · exact fun h => by cases h
          · intro parsed h
            cases h
      | tooMuch =>
          refine iff_of_false ?_ fun h => h.1 rfl
          intro h
          cases h
  | ok parsed =>
      by_cases hparsed : parsed.isDict = true
      · simp only [Except.mapError, catching_ok, inTaxonomy_ok, if_pos hparsed]
        refine (inTaxonomy_usage hpayload hparsed).trans ?_
        constructor
        · intro husage
          refine ⟨?_, fun _ _ _ => husage⟩
          exact fun h => by cases h
        · exact fun h => h.2 parsed rfl hparsed
      · simp only [Except.mapError, catching_ok, inTaxonomy_ok, if_neg hparsed]
        refine iff_of_true rfl ⟨?_, ?_⟩
        · exact fun h => by cases h
        · intro parsed' h hdict
          cases h
          exact absurd hdict hparsed

/-- **A chat response is read within the taxonomy iff it can be read.** -/
theorem inTaxonomy_chat (m : MistralChatModel) (payload : Json) :
    InTaxonomy (fun r : Json × ReportedUsage => r.1.isDict = true)
        (m.parseContent payload >>= fun parsed =>
          parseUsage payload >>= fun usage => pure (parsed, usage)) ↔
      m.ChatReadable payload := by
  rw [inTaxonomy_bind]
  unfold MistralChatModel.parseContent
  rw [inTaxonomy_bind]
  cases hcontent : choiceContent payload with
  | error e =>
      rw [catching_error (choiceContent_error hcontent)]
      exact iff_of_true rfl (chatReadable_of_error hcontent)
  | ok found =>
      obtain ⟨choice, content⟩ := found
      have hpayload := isDict_of_choiceContent hcontent
      rw [chatReadable_of_ok hcontent, catching_ok, inTaxonomy_ok]
      by_cases hcut : cutOff choice = true
      · simp only [if_pos hcut]
        refine iff_of_true rfl ?_
        intro hno
        cases hcut.symm.trans hno
      · simp only [if_neg hcut]
        rw [forall_prop_of_true (Bool.eq_false_iff.mpr hcut)]
        cases content with
        | str s => exact inTaxonomy_loads hpayload
        | _ =>
            refine iff_of_false (fun h => by cases h) ?_
            rintro ⟨s, hs, -⟩
            cases hs

/-! ### Embedding responses -/

/-- No element that a loop reaches is bad: it goes on as long as its turns return. -/
def Unreached (f : α → Except Exc β) (bad : α → Prop) (xs : List α) : Prop :=
  ∀ pre x post, xs = pre ++ x :: post → (∀ y ∈ pre, ∃ b, f y = .ok b) → ¬ bad x

/-- The index of an item is infinite. -/
def InfiniteIndex (item : Json) : Prop :=
  item.get? indexKey = some (.float .inf) ∨ item.get? indexKey = some (.float .negInf)

/-- A value is an integer that is too large for a `float`. -/
def TooLarge (value : Json) : Prop := ∃ n : ℤ, value = .int n ∧ Json.floatOverflow ≤ n.natAbs

namespace MistralEmbeddingModel

variable (m : MistralEmbeddingModel)

/-- The embedding of an item has a number that is too large, before any that is no
number. -/
def LargeNumber (item : Json) : Prop :=
  ∃ embedding values, item.get? embeddingKey = some embedding ∧
    embedding.elements = .ok values ∧ ¬ Unreached (Json.toFloat m.floatOfStr) TooLarge values

/-- An embedding response can be read: no index that is reached is infinite, and then
no number that is reached is too large. -/
def EmbeddingsReadable (payload : Json) : Prop :=
  ∀ data items, payload.get? dataKey = some data → data.elements = .ok items →
    Unreached itemIndex InfiniteIndex items ∧
    ∀ keys, items.mapM itemIndex = .ok keys →
      Unreached m.itemVector m.LargeNumber
        (((keys.zip items).mergeSort fun a b => a.1 ≤ b.1).map Prod.snd)

end MistralEmbeddingModel

/-- What is raised while a response is read: either it is caught, or it is the error of
a number that is too large. -/
def Caught (e : Exc) : Prop := isParseError e = true ∨ e = .overflowError

theorem caught_subscript {value : Json} {key : Str} {e : Exc}
    (h : value.subscript key = .error e) : isParseError e = true := by
  rcases subscript_error h with rfl | rfl <;> rfl

theorem caught_elements {value : Json} {e : Exc} (h : value.elements = .error e) :
    isParseError e = true := by
  cases value <;> cases h <;> rfl

theorem toInt_error {value : Json} {e : Exc} (h : value.toInt = .error e) :
    isParseError e = true ∨
      e = .overflowError ∧ (value = .float .inf ∨ value = .float .negInf) := by
  cases value with
  | float x => cases x <;> cases h <;> simp [isParseError]
  | str s =>
      simp only [Json.toInt] at h
      cases hs : Json.intOfStr s <;> rw [hs] at h <;> cases h
      exact Or.inl rfl
  | _ => cases h <;> exact Or.inl rfl

/-- `int(item["index"])` overflows iff the index is infinite. -/
theorem itemIndex_error {item : Json} {e : Exc} (h : itemIndex item = .error e) :
    isParseError e = true ∨ e = .overflowError ∧ InfiniteIndex item := by
  simp only [itemIndex, bind_eq_error] at h
  rcases h with h | ⟨index, hindex, h⟩
  · exact Or.inl (caught_subscript h)
  · rcases toInt_error h with h | ⟨he, rfl | rfl⟩
    · exact Or.inl h
    · exact Or.inr ⟨he, Or.inl (subscript_eq_ok.mp hindex)⟩
    · exact Or.inr ⟨he, Or.inr (subscript_eq_ok.mp hindex)⟩

theorem itemIndex_of_infinite {item : Json} (h : InfiniteIndex item) :
    itemIndex item = .error .overflowError := by
  rcases h with h | h <;> rw [itemIndex, subscript_eq_ok.mpr h] <;> rfl

/-- `float(value)` overflows iff the value is an integer that is too large. -/
theorem toFloat_error {floatOfStr : Str → Option Float64} {value : Json} {e : Exc}
    (h : value.toFloat floatOfStr = .error e) :
    isParseError e = true ∨ e = .overflowError ∧ TooLarge value := by
  cases value with
  | int n =>
      simp only [Json.toFloat] at h
      split_ifs at h with hn
      cases h
      exact Or.inr ⟨rfl, n, rfl, not_lt.mp hn⟩
  | float x => cases h
  | bool b => cases h
  | str s =>
      simp only [Json.toFloat] at h
      cases hs : floatOfStr s <;> rw [hs] at h <;> cases h
      exact Or.inl rfl
  | _ =>
      cases h
      exact Or.inl rfl

theorem toFloat_of_tooLarge {floatOfStr : Str → Option Float64} {value : Json}
    (h : TooLarge value) : value.toFloat floatOfStr = .error .overflowError := by
  obtain ⟨n, rfl, hn⟩ := h
  simp only [Json.toFloat, if_neg (not_lt.mpr hn)]

/-- **A loop overflows iff it reaches a bad element**, when a turn does iff its element
is bad. -/
theorem mapM_overflow {f : α → Except Exc β} {bad : α → Prop} {xs : List α}
    (hbad : ∀ x, bad x ↔ f x = .error .overflowError) :
    xs.mapM f = .error .overflowError ↔ ¬ Unreached f bad xs := by
  rw [mapM_eq_error]
  constructor
  · rintro ⟨pre, x, post, hxs, hpre, hx⟩ hun
    exact hun pre x post hxs hpre ((hbad x).mpr hx)
  · intro h
    by_contra hno
    refine h ?_
    intro pre x post hxs hpre hx
    exact hno ⟨pre, x, post, hxs, hpre, (hbad x).mp hx⟩

/-- A loop over turns that raise what is caught raises what is caught. -/
theorem mapM_caught {f : α → Except Exc β} {xs : List α} {e : Exc}
    (hf : ∀ x e, f x = .error e → Caught e) (h : xs.mapM f = .error e) : Caught e := by
  obtain ⟨-, x, -, -, -, hx⟩ := mapM_eq_error.mp h
  exact hf x e hx

section Reading

variable (m : MistralEmbeddingModel)

/-- `float` raises what is caught, or overflows on a number that is too large. -/
theorem toFloat_overflow {value : Json} :
    TooLarge value ↔ value.toFloat m.floatOfStr = .error .overflowError := by
  refine ⟨toFloat_of_tooLarge, fun h => ?_⟩
  rcases toFloat_error h with h | ⟨-, h⟩
  · cases h
  · exact h

theorem itemIndex_overflow {item : Json} :
    InfiniteIndex item ↔ itemIndex item = .error .overflowError := by
  refine ⟨itemIndex_of_infinite, fun h => ?_⟩
  rcases itemIndex_error h with h | ⟨-, h⟩
  · cases h
  · exact h

theorem itemVector_caught {item : Json} {e : Exc} (h : m.itemVector item = .error e) :
    Caught e := by
  simp only [MistralEmbeddingModel.itemVector, bind_eq_error] at h
  rcases h with h | ⟨embedding, -, h | ⟨values, -, h⟩⟩
  · exact Or.inl (caught_subscript h)
  · exact Or.inl (caught_elements h)
  · exact mapM_caught (fun x e he => (toFloat_error he).imp_right And.left) h

theorem itemVector_overflow {item : Json} :
    m.LargeNumber item ↔ m.itemVector item = .error .overflowError := by
  simp only [MistralEmbeddingModel.itemVector, bind_eq_error]
  constructor
  · rintro ⟨embedding, values, hembedding, hvalues, hun⟩
    exact Or.inr ⟨embedding, subscript_eq_ok.mpr hembedding, Or.inr ⟨values, hvalues,
      (mapM_overflow fun _ => toFloat_overflow m).mpr hun⟩⟩
  · rintro (h | ⟨embedding, hembedding, h | ⟨values, hvalues, h⟩⟩)
    · cases caught_subscript h
    · cases caught_elements h
    · exact ⟨embedding, values, subscript_eq_ok.mp hembedding, hvalues,
        (mapM_overflow fun _ => toFloat_overflow m).mp h⟩

theorem itemVectors_caught {payload : Json} {e : Exc} (h : m.itemVectors payload = .error e) :
    Caught e := by
  simp only [MistralEmbeddingModel.itemVectors, bind_eq_error] at h
  rcases h with h | ⟨data, -, h | ⟨items, -, h | ⟨keys, -, h⟩⟩⟩
  · exact Or.inl (caught_subscript h)
  · exact Or.inl (caught_elements h)
  · exact mapM_caught (fun x e he => (itemIndex_error he).imp_right And.left) h
  · exact mapM_caught (fun x e he => itemVector_caught m he) h

/-- **Reading an embedding response overflows iff it cannot be read.** -/
theorem itemVectors_overflow {payload : Json} :
    m.itemVectors payload = .error .overflowError ↔ ¬ m.EmbeddingsReadable payload := by
  simp only [MistralEmbeddingModel.itemVectors, bind_eq_error]
  constructor
  · rintro (h | ⟨data, hdata, h | ⟨items, hitems, h | ⟨keys, hkeys, h⟩⟩⟩) hread
    · cases caught_subscript h
    · cases caught_elements h
    · exact (mapM_overflow fun _ => itemIndex_overflow).mp h
        (hread data items (subscript_eq_ok.mp hdata) hitems).1
    · exact (mapM_overflow fun _ => itemVector_overflow m).mp h
        ((hread data items (subscript_eq_ok.mp hdata) hitems).2 keys hkeys)
  · intro h
    by_contra hno
    refine h ?_
    intro data items hdata hitems
    have hdata' := subscript_eq_ok.mpr hdata
    constructor
    · by_contra hun
      exact hno (Or.inr ⟨data, hdata', Or.inr ⟨items, hitems,
        Or.inl ((mapM_overflow fun _ => itemIndex_overflow).mpr hun)⟩⟩)
    · intro keys hkeys
      by_contra hun
      exact hno (Or.inr ⟨data, hdata', Or.inr ⟨items, hitems, Or.inr ⟨keys, hkeys,
        (mapM_overflow fun _ => itemVector_overflow m).mpr hun⟩⟩⟩)

/-- **An embedding response is read within the taxonomy iff it can be read.** -/
theorem inTaxonomy_embeddings (payload : Json) (expected : ℕ) :
    InTaxonomy (fun vectors => vectors.length = expected ∧
        ∀ vector ∈ vectors, vector.length = m.dimensions)
      (m.parseEmbeddings payload expected) ↔ m.EmbeddingsReadable payload := by
  unfold MistralEmbeddingModel.parseEmbeddings
  rw [inTaxonomy_bind]
  cases h : m.itemVectors payload with
  | error e =>
      rcases itemVectors_caught m h with he | rfl
      · rw [catching_error he]
        refine iff_of_true rfl (by_contra fun hno => ?_)
        rw [(itemVectors_overflow m).mpr hno] at h
        cases h
        cases he
      · exact iff_of_false (fun habsurd => by cases habsurd) ((itemVectors_overflow m).mp h)
  | ok vectors =>
      have hread : m.EmbeddingsReadable payload := by
        by_contra hno
        cases ((itemVectors_overflow m).mpr hno).symm.trans h
      rw [catching_ok, inTaxonomy_ok]
      refine iff_of_true ?_ hread
      split_ifs with hlen
      · exact rfl
      · cases hfind : vectors.find? (·.length ≠ m.dimensions) with
        | some vector => exact rfl
        | none =>
            refine ⟨not_not.mp hlen, ?_⟩
            intro vector hvector
            simpa using List.find?_eq_none.mp hfind vector hvector

end Reading

/-! ### The two models -/

/-- **Which calls stay in the taxonomy.**  A chat call gives an object with its usage
or raises a `ProviderError` iff the response that counts can be read, and so does an
embedding call, which gives one vector of the declared width for each text. -/
theorem taxonomy_iff (chat : MistralChatModel) (embeddings : MistralEmbeddingModel)
    (texts : List Str) (http : ℕ → HttpOutcome) :
    (InTaxonomy (fun r : Json × ReportedUsage => r.1.isDict = true) (chat.completeJson http) ↔
      (decisive chat.maxRetries http).Readable chat.ChatReadable) ∧
    (InTaxonomy (fun vectors => vectors.length = texts.length ∧
        ∀ vector ∈ vectors, vector.length = embeddings.dimensions) (embeddings.embed texts http) ↔
      (texts ≠ [] → texts.length ≤ embeddings.maxBatchSize →
        (decisive embeddings.maxRetries http).Readable embeddings.EmbeddingsReadable)) := by
  constructor
  · unfold MistralChatModel.completeJson
    rw [inTaxonomy_bind]
    simp only [inTaxonomy_chat]
    exact inTaxonomy_post
  · unfold MistralEmbeddingModel.embed MistralEmbeddingModel.embedWith
    by_cases hempty : texts = []
    · rw [if_pos hempty]
      refine iff_of_true ⟨(congrArg List.length hempty).symm, ?_⟩ (fun h => absurd hempty h)
      intro vector hvector
      exact absurd hvector List.not_mem_nil
    · rw [if_neg hempty]
      by_cases hlarge : embeddings.maxBatchSize < texts.length
      · rw [if_pos hlarge]
        exact iff_of_true rfl fun _ h => absurd hlarge (not_lt.mpr h)
      · rw [if_neg hlarge, inTaxonomy_bind]
        simp only [inTaxonomy_embeddings]
        refine inTaxonomy_post.trans ?_
        exact ⟨fun h _ _ => h, fun h => h hempty (not_lt.mp hlarge)⟩

/-- A chat response whose message has no text, as one with tool calls has. -/
def nullContent : Json :=
  .dict [(choicesKey, .list [.dict [(messageKey, .dict [(contentKey, .null)])]])]

/-- A `TypeError` leaves a chat call on it, and the decoder's error an embedding call
that is answered with a page of HTML. -/
theorem taxonomy_fails :
    let chat : MistralChatModel := { loads := fun _ => .error .malformed }
    let embeddings : MistralEmbeddingModel := { floatOfStr := fun _ => none }
    let http : Except JsonError Json → ℕ → HttpOutcome := fun body _ => .response 200 body
    chat.completeJson (http (.ok nullContent)) = .error .typeError ∧
      embeddings.embed [lit ['a']] (http (.error .malformed)) = .error .jsonDecodeError ∧
      ¬ InTaxonomy (fun _ => True) (chat.completeJson (http (.ok nullContent))) ∧
      ¬ InTaxonomy (fun _ => True) (embeddings.embed [lit ['a']] (http (.error .malformed))) := by
  refine ⟨rfl, rfl, ?_, ?_⟩
  · intro h
    cases h
  · intro h
    cases h

end Providers
end EvidenceLab
