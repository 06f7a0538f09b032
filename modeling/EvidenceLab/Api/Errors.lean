/-
# Error envelopes

`app/api/errors.py` inside the stack that answers a request: the endpoint, the handlers for the
exceptions that the application knows, the middleware that binds the id of the request, and around
all of it the handler for any other exception.  The handlers read the context when the endpoint is
left, so a trace that it had bound is not in it any more; and the outermost one reads it when the
id of the request is not in it either (`envelope_identifies_iff`).

What the framework does is modelled as it is documented: the middleware runs what is inside it in a
task of its own, with a copy of the context, and `JSONResponse` refuses what is not JSON.
-/

import EvidenceLab.Api.Context
import EvidenceLab.Reasoning.TracedRuns

namespace EvidenceLab
namespace Api

open Text Data EvidenceLab.Core Runs Reasoning

/-! ### Exceptions and envelopes -/

variable {V : Type}

/-- What can leave an endpoint: an exception of the code, a `RequestValidationError` with what
`errors()` gives, or an `HTTPException`. -/
inductive Raised (V : Type)
  | exc (e : Exc)
  | validation (errors : V)
  | http (statusCode : ℕ) (detail : String)

/-- What `except Exception` catches. -/
def Raised.isException : Raised V → Bool
  | .exc e => e.isException
  | .validation _ => true
  | .http _ _ => true

/-- The `details` of an envelope. -/
inductive Details (V : Type)
  | fields (entries : List (String × Detail))
  | errors (errors : V)

/-- What an envelope holds under `error`. -/
structure ErrorEnvelope (V : Type) where
  statusCode : ℕ
  code : ErrorCode
  message : String
  details : Details V
  requestId : Option Str
  traceId : Option Str

/-- `DEFAULT_STATUS_CODE`. -/
def defaultStatusCode : ℕ := 500

/-- `_STATUS_BY_CODE`. -/
def statusByCode : List (ErrorCode × ℕ) :=
  [(.modelRateLimit, 429), (.modelTimeout, 504), (.modelUnavailable, 502),
    (.modelContextExceeded, 422), (.providerNotConfigured, 503), (.unsupportedMediaType, 415),
    (.payloadTooLarge, 413), (.validationError, 422), (.notFound, 404), (.conflict, 409),
    (.unauthenticated, 401), (.forbidden, 403), (.rateLimited, 429)]

/-- The `status_code` that the class of an error gives it, if it is an `AppError`. -/
def explicitStatus : ErrorKind → Option ℕ
  | .notFound => some 404
  | .conflict => some 409
  | .unsupportedMediaType => some 415
  | .payloadTooLarge => some 413
  | _ => none

/-- `status_code_for`. -/
def statusCodeFor (e : DomainError) : ℕ :=
  (explicitStatus e.kind).getD ((statusByCode.lookup e.code).getD defaultStatusCode)

/-- `_envelope`. -/
def envelope (ctx : RequestContext) (code : ErrorCode) (message : String) (statusCode : ℕ)
    (details : Details V := .fields []) : ErrorEnvelope V where
  statusCode := statusCode
  code := code
  message := message
  details := details
  requestId := ctx.requestId
  traceId := ctx.traceId

/-- `_domain_error`. -/
def domainError (ctx : RequestContext) (e : DomainError) : ErrorEnvelope V :=
  envelope ctx e.code e.message (statusCodeFor e) (.fields e.details)

/-- `_validation_error`. -/
def validationError (ctx : RequestContext) (errors : V) : ErrorEnvelope V :=
  envelope ctx .validationError "Request validation failed." 422 (.errors errors)

/-- `_http_error`. -/
def httpError (ctx : RequestContext) (statusCode : ℕ) (detail : String) : ErrorEnvelope V :=
  envelope ctx (if statusCode = 404 then .notFound else .internalError) detail statusCode

/-- The part of the application that decides on envelopes: `settings.DEBUG`, `str` of an
exception, and whether `json.dumps` accepts the errors of a validation, which it does not if they
quote a `NaN` of the request. -/
structure App (V : Type) where
  debug : Bool
  text : Raised V → String
  dumps : V → Bool

/-- `_unhandled`. -/
def App.unhandled (app : App V) (ctx : RequestContext) (e : Raised V) : ErrorEnvelope V :=
  envelope ctx .internalError (if app.debug then app.text e else "An internal error occurred.") 500

/-- The handlers inside the middleware: an envelope, or what the rendering of one raises, or
nothing, if no handler is for the exception. -/
def App.handle (app : App V) (ctx : RequestContext) :
    Raised V → Option (Except (Raised V) (ErrorEnvelope V))
  | .exc e => e.domain?.map fun e => .ok (domainError ctx e)
  | .validation errors =>
      some (if app.dumps errors then .ok (validationError ctx errors)
        else .error (.exc .valueError))
  | .http statusCode detail => some (.ok (httpError ctx statusCode detail))

/-! ### The stack -/

/-- A response: that of the endpoint, or an envelope; with the `X-Request-ID` that it carries. -/
structure Response (V : Type) where
  error : Option (ErrorEnvelope V) := none
  requestIdHeader : Option Str := none

/-- A request: its `X-Request-ID`, and the id that is generated for want of one. -/
structure Incoming where
  header : Option Str := none
  generated : Uuid

/-- `request.headers.get(REQUEST_ID_HEADER) or str(uuid4())`. -/
def Incoming.requestId (incoming : Incoming) : Str :=
  (incoming.header.filter (· ≠ [])).getD incoming.generated.str

/-- The endpoint with the handlers around it: what they do when it is left. -/
def App.exceptionMiddleware (app : App V) (endpoint : Code RequestContext (Raised V))
    (ctx : RequestContext) : Except (Raised V) (Response V) × RequestContext :=
  let r := (bindContext (Raised V)).run endpoint ctx
  (r.1.elim (.ok {}) fun e =>
    (app.handle r.2 e).elim (.error e) fun rendered => rendered.map fun error => { error }, r.2)

/-- `call_next`: what is inside runs in a task of its own. -/
def callNext {β : Type} (next : RequestContext → β × RequestContext) (ctx : RequestContext) :
    β × RequestContext :=
  ((next ctx).1, ctx)

/-- `request_context_middleware`, with `access_log_middleware` inside it, which adds nothing to
what is modelled of a response. -/
def App.requestContextMiddleware (app : App V) (endpoint : Code RequestContext (Raised V))
    (incoming : Incoming) (ctx : RequestContext) :
    Except (Raised V) (Response V) × RequestContext :=
  let ids : RequestContext := { requestId := some incoming.requestId }
  let r := callNext (callNext (app.exceptionMiddleware endpoint))
    ((bindContext (Raised V)).enter ids ctx)
  (r.1.map fun response => { response with requestIdHeader := some incoming.requestId },
    (bindContext (Raised V)).exit ids ctx none r.2)

/-- The whole stack: any other exception has its envelope made around the middleware, and what
is no `Exception` is not answered. -/
def App.serve (app : App V) (endpoint : Code RequestContext (Raised V)) (incoming : Incoming) :
    Option (Response V) :=
  let r := app.requestContextMiddleware endpoint incoming {}
  match r.1 with
  | .ok response => some response
  | .error e => if e.isException then some { error := some (app.unhandled r.2 e) } else none

/-! ### What the stack answers -/

/-- The exceptions that the handlers inside the middleware answer. -/
def App.answers (app : App V) : Raised V → Bool
  | .exc e => e.domain?.isSome
  | .validation errors => app.dumps errors
  | .http _ _ => true

variable {app : App V} {endpoint : Code RequestContext (Raised V)} {e : Raised V}

theorem isException_of_answers (h : app.answers e = true) : e.isException = true := by
  cases e with
  | exc e =>
      obtain ⟨d, hd⟩ := Option.isSome_iff_exists.mp h
      exact Exc.isException_of_domain? hd
  | validation errors => rfl
  | http statusCode detail => rfl

/-- What the handlers make of what leaves an endpoint: an envelope with the context that they find,
or an exception that is one iff that was one. -/
theorem exceptionMiddleware_of_raises (app : App V) (h : endpoint.raises = some e)
    (ctx : RequestContext) :
    (app.answers e = true ∧ ∃ failure, app.exceptionMiddleware endpoint ctx =
      (.ok { error := some failure }, ctx) ∧
        failure.requestId = ctx.requestId ∧ failure.traceId = ctx.traceId) ∨
    (app.answers e = false ∧ ∃ e', app.exceptionMiddleware endpoint ctx = (.error e', ctx) ∧
      e'.isException = e.isException) := by
  rw [App.exceptionMiddleware, Manager.run_fst, run_bindContext, h, Option.elim_some]
  cases e with
  | exc e =>
      rw [App.answers, App.handle]
      cases e.domain? with
      | none => exact Or.inr ⟨rfl, _, rfl, rfl⟩
      | some d => exact Or.inl ⟨rfl, _, rfl, rfl, rfl⟩
  | validation errors =>
      rw [App.answers, App.handle]
      cases app.dumps errors with
      | true => exact Or.inl ⟨rfl, _, rfl, rfl, rfl⟩
      | false => exact Or.inr ⟨rfl, _, rfl, rfl⟩
  | http statusCode detail => exact Or.inl ⟨rfl, _, rfl, rfl, rfl⟩

/-- The context inside the middleware. -/
def Incoming.context (incoming : Incoming) : RequestContext :=
  { requestId := some incoming.requestId }

theorem serve_of_ok {incoming : Incoming} {response : Response V}
    (h : (app.exceptionMiddleware endpoint incoming.context).1 = .ok response) :
    app.serve endpoint incoming =
      some { response with requestIdHeader := some incoming.requestId } := by
  have hinner : (app.requestContextMiddleware endpoint incoming {}).1 =
      .ok { response with requestIdHeader := some incoming.requestId } :=
    congrArg (Except.map _) h
  rw [App.serve, hinner]

theorem serve_of_error {incoming : Incoming}
    (h : (app.exceptionMiddleware endpoint incoming.context).1 = .error e) :
    app.serve endpoint incoming =
      if e.isException then some { error := some (app.unhandled {} e) } else none := by
  have hinner : (app.requestContextMiddleware endpoint incoming {}).1 = .error e :=
    congrArg (Except.map _) h
  have hcontext : (app.requestContextMiddleware endpoint incoming {}).2 = {} :=
    exit_enter (E := Raised V) { requestId := some incoming.requestId } {} none
  rw [App.serve, hinner, hcontext]

theorem serve_of_returns (h : endpoint.raises = none) (incoming : Incoming) :
    app.serve endpoint incoming = some { requestIdHeader := some incoming.requestId } := by
  have hinner : (app.exceptionMiddleware endpoint incoming.context).1 = .ok {} := by
    rw [App.exceptionMiddleware, Manager.run_fst, h]
    rfl
  exact serve_of_ok hinner

/-- **What is answered when something leaves an endpoint**: an envelope with the id of the request
from the handlers inside the middleware, one without from the handler around it, and nothing to
what is no `Exception`.  None has the id of a trace. -/
theorem serve_of_raises (app : App V) (h : endpoint.raises = some e) (incoming : Incoming) :
    (app.answers e = true ∧ e.isException = true ∧ ∃ failure, app.serve endpoint incoming =
      some { error := some failure, requestIdHeader := some incoming.requestId } ∧
        failure.requestId = some incoming.requestId ∧ failure.traceId = none) ∨
    (app.answers e = false ∧ e.isException = true ∧ ∃ failure, app.serve endpoint incoming =
      some { error := some failure } ∧ failure.requestId = none ∧ failure.traceId = none) ∨
    (e.isException = false ∧ app.serve endpoint incoming = none) := by
  rcases exceptionMiddleware_of_raises app h incoming.context with
    ⟨hanswers, failure, hinner, hrequest, htrace⟩ | ⟨hanswers, e', hinner, hexception⟩
  · exact Or.inl ⟨hanswers, isException_of_answers hanswers, failure,
      serve_of_ok (congrArg Prod.fst hinner), hrequest, htrace⟩
  · have hserve := serve_of_error (congrArg Prod.fst hinner)
    rw [hexception] at hserve
    cases he : e.isException with
    | true =>
        rw [he, if_pos rfl] at hserve
        exact Or.inr (Or.inl ⟨hanswers, rfl, _, hserve, rfl, rfl⟩)
    | false =>
        rw [he, if_neg Bool.false_ne_true] at hserve
        exact Or.inr (Or.inr ⟨rfl, hserve⟩)

/-! ### Envelopes that identify their execution -/

/-- Every envelope that answers the request has its id. -/
def IdentifiesRequest (app : App V) (endpoint : Code RequestContext (Raised V))
    (incoming : Incoming) : Prop :=
  ∀ response failure, app.serve endpoint incoming = some response →
    response.error = some failure → failure.requestId = some incoming.requestId

/-- What leaves `create_query`, if it does not answer: the checks come before the block that binds
the id of the trace, the execution is inside it. -/
def createQueryEndpoint (V : Type) (deps : TracedDeps) (request : QueryRequest) :
    Code RequestContext (Raised V) :=
  match checkQuery deps.query request with
  | .error e => .raise (.exc e)
  | .ok (project, generator) =>
      .block { traceId := some deps.traceId.str }
        (match (runTraced deps request project generator).1 with
        | .error e => .raise (.exc e)
        | .ok _ => .pass)

/-- Every envelope that answers an execution of `create_query` has the id of the trace that it
has persisted. -/
def IdentifiesTrace (app : App V) (deps : TracedDeps) (request : QueryRequest)
    (incoming : Incoming) : Prop :=
  ∀ response failure, app.serve (createQueryEndpoint V deps request) incoming = some response →
    response.error = some failure →
      ∀ saved ∈ (createQueryTraced deps request).2, failure.traceId = some saved.row.id.str

theorem raises_createQueryEndpoint (V : Type) (deps : TracedDeps) (request : QueryRequest) :
    (∃ response, (createQueryTraced deps request).1 = .ok response ∧
      (createQueryEndpoint V deps request).raises = none) ∨
    ∃ e, (createQueryTraced deps request).1 = .error e ∧
      (createQueryEndpoint V deps request).raises = some (.exc e) := by
  rw [createQueryTraced, createQueryEndpoint]
  cases checkQuery deps.query request with
  | error e => exact Or.inr ⟨e, rfl, rfl⟩
  | ok checked =>
      obtain ⟨project, generator⟩ := checked
      dsimp only
      rw [Code.raises]
      cases (runTraced deps request project generator).1 with
      | error e => exact Or.inr ⟨e, rfl, rfl⟩
      | ok response => exact Or.inl ⟨response, rfl, rfl⟩

/-- **The id of the request is there iff** no exception is left to the outermost handler. -/
theorem identifiesRequest_iff (app : App V) (endpoint : Code RequestContext (Raised V))
    (incoming : Incoming) : IdentifiesRequest app endpoint incoming ↔
      ∀ e, endpoint.raises = some e → e.isException = true → app.answers e = true := by
  cases h : endpoint.raises with
  | none =>
      refine iff_of_true ?_ (fun e he => absurd he (Option.some_ne_none e).symm)
      intro response failure hserve hfailure
      obtain rfl := Option.some.inj ((serve_of_returns h incoming).symm.trans hserve)
      cases hfailure
  | some e =>
      rcases serve_of_raises app h incoming with
        ⟨hanswers, -, failure, hserve, hrequest, -⟩ |
        ⟨hanswers, hexception, failure, hserve, hrequest, -⟩ | ⟨hexception, hserve⟩
      · refine iff_of_true ?_ ?_
        · intro response failure' hserve' hfailure
          obtain rfl := Option.some.inj (hserve.symm.trans hserve')
          exact Option.some.inj hfailure ▸ hrequest
        · rintro e' he' -
          exact Option.some.inj he' ▸ hanswers
      · refine iff_of_false (fun hid => ?_) fun hall => ?_
        · have hwrong := hid _ failure hserve rfl
          rw [hrequest] at hwrong
          cases hwrong
        · exact Bool.false_ne_true (hanswers.symm.trans (hall e rfl hexception))
      · refine iff_of_true ?_ ?_
        · intro response failure hserve'
          cases hserve.symm.trans hserve'
        · intro e' he' hexception'
          obtain rfl := Option.some.inj he'
          cases hexception.symm.trans hexception'

/-- No envelope has the id of a trace, and each exception gets one. -/
theorem envelope_of_raises (app : App V) (h : endpoint.raises = some e)
    (he : e.isException = true) (incoming : Incoming) :
    ∃ response failure, app.serve endpoint incoming = some response ∧
      response.error = some failure ∧ failure.traceId = none := by
  rcases serve_of_raises app h incoming with
    ⟨-, -, failure, hserve, -, htrace⟩ | ⟨-, -, failure, hserve, -, htrace⟩ | ⟨hexception, -⟩
  · exact ⟨_, failure, hserve, rfl, htrace⟩
  · exact ⟨_, failure, hserve, rfl, htrace⟩
  · cases hexception.symm.trans he

/-- **The id of a trace is never there**: only where none is persisted, or nothing is answered. -/
theorem identifiesTrace_iff (app : App V) (deps : TracedDeps) (request : QueryRequest)
    (incoming : Incoming) : IdentifiesTrace app deps request incoming ↔
      ((createQueryTraced deps request).2 = [] ∨
        ∀ e, (createQueryTraced deps request).1 = .error e → e.isException = false) := by
  rcases raises_createQueryEndpoint V deps request with
    ⟨response, hreturn, hraises⟩ | ⟨e, herror, hraises⟩
  · refine iff_of_true ?_ (Or.inr fun e he => ?_)
    · intro response' failure hserve hfailure
      obtain rfl := Option.some.inj ((serve_of_returns hraises incoming).symm.trans hserve)
      cases hfailure
    · cases hreturn.symm.trans he
  · cases he : e.isException with
    | true =>
        obtain ⟨response, failure, hserve, hfailure, htrace⟩ :=
          envelope_of_raises app hraises he incoming
        constructor
        · intro hid
          refine Or.inl (List.eq_nil_iff_forall_not_mem.mpr fun saved hsaved => ?_)
          have hwrong := hid response failure hserve hfailure saved hsaved
          rw [htrace] at hwrong
          cases hwrong
        · rintro (hnil | hcancelled) response' failure' - - saved hsaved
          · rw [hnil] at hsaved
            cases hsaved
          · cases he.symm.trans (hcancelled e herror)
    | false =>
        refine iff_of_true ?_ (Or.inr fun e' he' => ?_)
        · intro response failure hserve
          rcases serve_of_raises app hraises incoming with
            ⟨-, hexception, -⟩ | ⟨-, hexception, -⟩ | ⟨-, hnone⟩
          · cases he.symm.trans hexception
          · cases he.symm.trans hexception
          · cases hnone.symm.trans hserve
        · obtain rfl := Except.error.inj (herror.symm.trans he')
          exact he

/-- **When an envelope identifies its execution.** -/
theorem envelope_identifies_iff (app : App V) (incoming : Incoming) :
    (∀ endpoint : Code RequestContext (Raised V), IdentifiesRequest app endpoint incoming ↔
      ∀ e, endpoint.raises = some e → e.isException = true → app.answers e = true) ∧
    ∀ deps request, IdentifiesTrace app deps request incoming ↔
      ((createQueryTraced deps request).2 = [] ∨
        ∀ e, (createQueryTraced deps request).1 = .error e → e.isException = false) :=
  ⟨fun endpoint => identifiesRequest_iff app endpoint incoming,
    fun deps request => identifiesTrace_iff app deps request incoming⟩

/-- A query whose retrieval fails. -/
def failedQuery : TracedDeps :=
  tracedSample (.error (.domain (pipelineError "no index" .retrievalFailed "retrieval")))

/-- **An envelope without the id of the request, and one without the id of the trace.** -/
theorem envelope_unidentified :
    (¬ ∀ (app : App Empty) endpoint incoming, IdentifiesRequest app endpoint incoming) ∧
      ¬ ∀ (app : App Empty) deps request incoming, IdentifiesTrace app deps request incoming := by
  let app : App Empty := { debug := false, text := fun _ => "", dumps := fun _ => true }
  refine ⟨fun hclaim => ?_, fun hclaim => ?_⟩
  · have hanswers := (identifiesRequest_iff app (.raise (.exc .crash)) { generated := 0 }).mp
      (hclaim _ _ _) _ rfl rfl
    exact Bool.false_ne_true hanswers
  · rcases (identifiesTrace_iff app failedQuery { projectId := 3, query := [] }
      { generated := 0 }).mp (hclaim _ _ _ _) with hnone | hcancelled
    · exact List.cons_ne_nil _ _ hnone
    · exact Bool.false_ne_true (hcancelled _ rfl).symm

end Api
end EvidenceLab
