/-
# The error taxonomy

`core/errors.py`, and the exceptions of the language and its libraries that the
modelled code distinguishes.  A stage of the pipeline that fails on purpose
raises a `DomainError`; anything else that derives from `Exception` is a crash;
the cancellation of a task derives from `BaseException` only, so neither
`except DomainError` nor `except Exception` sees it.
-/

import EvidenceLab.Text.Unicode

namespace EvidenceLab
namespace Core

open Text

/-- `ErrorCode`: stable, machine-readable failure codes. -/
inductive ErrorCode
  | ingestionFailed | parsingFailed | chunkingFailed | embeddingFailed | indexingFailed
  | retrievalFailed | rerankingFailed | fusionFailed | routingFailed | generationFailed
  | verificationFailed | evaluationFailed | experimentFailed | benchmarkFailed
  | modelTimeout | modelRateLimit | modelUnavailable | modelContextExceeded
  | providerNotConfigured
  | validationError | notFound | conflict | unauthenticated | forbidden | rateLimited
  | unsupportedMediaType | payloadTooLarge | storageFailed | internalError
  deriving DecidableEq, Repr

/-- What an error carries in `details`. -/
inductive Detail
  | none
  | text (s : Str)
  | number (n : ℕ)
  | name (s : String)
  | names (ss : List String)
  deriving DecidableEq, Repr

/-- The subclasses of `DomainError` and what each adds to it. -/
inductive ErrorKind
  | domain
  | pipeline (stage : String)
  | provider (provider : String) (retryable : Bool)
  | storage
  | notFound
  | conflict
  | unsupportedMediaType
  | payloadTooLarge
  deriving DecidableEq, Repr

/-- `DomainError`: every error the platform raises deliberately. -/
structure DomainError where
  kind : ErrorKind
  message : String
  code : ErrorCode
  details : List (String × Detail) := []
  deriving DecidableEq, Repr

/-- `PipelineError`: raised by a stage of the pipeline. -/
def pipelineError (message : String) (code : ErrorCode) (stage : String)
    (details : List (String × Detail) := []) : DomainError :=
  ⟨.pipeline stage, message, code, details⟩

/-- `ProviderError`: raised by a model provider adapter. -/
def providerError (message : String) (code : ErrorCode) (provider : String)
    (retryable : Bool := false) (details : List (String × Detail) := []) : DomainError :=
  ⟨.provider provider retryable, message, code, details⟩

/-- What can leave a call of the modelled code besides a value. -/
inductive Exc
  | domain (e : DomainError)
  | keyError
  | indexError
  | attributeError
  | typeError
  | valueError
  /-- `json.JSONDecodeError`, a `ValueError`. -/
  | jsonDecodeError
  | overflowError
  | osError
  | pdfReadError
  /-- Any other subclass of `Exception`: a driver, a library, an assertion. -/
  | crash
  /-- `asyncio.CancelledError`, a `BaseException` that is not an `Exception`. -/
  | cancelled
  deriving DecidableEq, Repr

/-- What `except Exception` catches. -/
def Exc.isException : Exc → Bool
  | .cancelled => false
  | _ => true

/-- What `except DomainError` catches. -/
def Exc.domain? : Exc → Option DomainError
  | .domain e => some e
  | _ => none

/-- Every domain error is an exception: a handler for `Exception` that comes
after one for `DomainError` sees only crashes. -/
theorem Exc.isException_of_domain? {x : Exc} {e : DomainError} (h : x.domain? = some e) :
    x.isException = true := by
  cases x <;> simp_all [Exc.domain?, Exc.isException]

/-- Raises another exception in the place of those that a handler catches. -/
def catching {α : Type} (caught : Exc → Bool) (instead : Exc) : Except Exc α → Except Exc α
  | .ok a => .ok a
  | .error e => if caught e then .error instead else .error e

/-- A sequence that returns has steps that return. -/
theorem bind_eq_ok {ε α β : Type} {x : Except ε α} {f : α → Except ε β} {b : β} :
    x >>= f = .ok b ↔ ∃ a, x = .ok a ∧ f a = .ok b := by
  cases x with
  | error e =>
      refine ⟨(fun h => by cases h), ?_⟩
      rintro ⟨_, h, -⟩
      cases h
  | ok a =>
      refine ⟨fun h => ⟨a, rfl, h⟩, ?_⟩
      rintro ⟨_, h, h'⟩
      cases h
      exact h'

/-- A sequence raises what its first step raises, or what a later one does. -/
theorem bind_eq_error {ε α β : Type} {x : Except ε α} {f : α → Except ε β} {e : ε} :
    x >>= f = .error e ↔ x = .error e ∨ ∃ a, x = .ok a ∧ f a = .error e := by
  cases x <;> simp [bind, Except.bind]

theorem bind_of_error {ε α β : Type} {x : Except ε α} {f : α → Except ε β} {e : ε}
    (h : x = .error e) : x >>= f = .error e :=
  bind_eq_error.mpr (Or.inl h)

/-- A loop raises what the first of its turns raises that does not return. -/
theorem mapM_eq_error {ε α β : Type} {f : α → Except ε β} {xs : List α} {e : ε} :
    xs.mapM f = .error e ↔
      ∃ pre x post, xs = pre ++ x :: post ∧ (∀ y ∈ pre, ∃ b, f y = .ok b) ∧ f x = .error e := by
  induction xs with
  | nil =>
      constructor
      · intro h
        cases h
      · rintro ⟨pre, x, post, h, -⟩
        exact absurd h (List.append_ne_nil_of_right_ne_nil _ (List.cons_ne_nil _ _)).symm
  | cons x xs ih =>
      simp only [List.mapM_cons, bind_eq_error, ih]
      constructor
      · rintro (hx | ⟨b, hb, ⟨pre, y, post, rfl, hpre, hy⟩ | ⟨bs, -, h⟩⟩)
        · exact ⟨[], x, xs, rfl, (fun y hy => absurd hy List.not_mem_nil), hx⟩
        · refine ⟨x :: pre, y, post, rfl, ?_, hy⟩
          intro z hz
          rcases List.mem_cons.mp hz with rfl | hz
          · exact ⟨b, hb⟩
          · exact hpre z hz
        · cases h
      · rintro ⟨pre, y, post, h, hpre, hy⟩
        cases pre with
        | nil =>
            obtain ⟨rfl, rfl⟩ := List.cons.inj h
            exact Or.inl hy
        | cons z pre =>
            obtain ⟨rfl, rfl⟩ := List.cons.inj h
            obtain ⟨b, hb⟩ := hpre x (List.mem_cons_self ..)
            exact Or.inr ⟨b, hb, Or.inl
              ⟨pre, y, post, rfl, fun w hw => hpre w (List.mem_cons_of_mem _ hw), hy⟩⟩

/-- A loop all of whose turns return collects what they return. -/
theorem mapM_eq_ok {ε α β : Type} {f : α → Except ε β} {g : α → β} {xs : List α}
    (h : ∀ x ∈ xs, f x = .ok (g x)) : xs.mapM f = .ok (xs.map g) := by
  induction xs with
  | nil => rfl
  | cons x xs ih =>
      rw [List.mapM_cons, h x (List.mem_cons_self ..),
        ih fun y hy => h y (List.mem_cons_of_mem _ hy)]
      rfl

/-- A loop returns what its turns return, turn by turn. -/
theorem getElem?_of_mapM {ε α β : Type} {f : α → Except ε β} {xs : List α} {ys : List β}
    (h : xs.mapM f = .ok ys) : xs.length = ys.length ∧
      ∀ (i : ℕ) x y, xs[i]? = some x → ys[i]? = some y → f x = .ok y := by
  induction xs generalizing ys with
  | nil =>
      obtain rfl := Except.ok.inj h
      exact ⟨rfl, fun i x y hx => by cases hx⟩
  | cons x xs ih =>
      rw [List.mapM_cons] at h
      obtain ⟨y, hy, h⟩ := bind_eq_ok.mp h
      obtain ⟨ys, hys, h⟩ := bind_eq_ok.mp h
      obtain rfl := Except.ok.inj h
      obtain ⟨hlength, hget⟩ := ih hys
      refine ⟨congrArg (· + 1) hlength, ?_⟩
      intro i x' y' hx' hy'
      cases i with
      | zero =>
          obtain rfl := Option.some.inj hx'
          obtain rfl := Option.some.inj hy'
          exact hy
      | succ i => exact hget i x' y' hx' hy'

/-- Every turn of a loop that returns does. -/
theorem exists_of_mapM {ε α β : Type} {f : α → Except ε β} {xs : List α} {ys : List β}
    (h : xs.mapM f = .ok ys) {x : α} (hx : x ∈ xs) : ∃ y ∈ ys, f x = .ok y := by
  obtain ⟨hlength, hget⟩ := getElem?_of_mapM h
  obtain ⟨i, hi, rfl⟩ := List.mem_iff_getElem.mp hx
  have hi' : i < ys.length := hlength ▸ hi
  exact ⟨ys[i], List.getElem_mem hi', hget i _ _ (List.getElem?_eq_getElem hi)
    (List.getElem?_eq_getElem hi')⟩

/-- What a loop returns is what its turns return. -/
theorem exists_turn_of_mapM {ε α β : Type} {f : α → Except ε β} {xs : List α} {ys : List β}
    (h : xs.mapM f = .ok ys) {y : β} (hy : y ∈ ys) : ∃ x ∈ xs, f x = .ok y := by
  obtain ⟨hlength, hget⟩ := getElem?_of_mapM h
  obtain ⟨i, hi, rfl⟩ := List.mem_iff_getElem.mp hy
  have hi' : i < xs.length := hlength ▸ hi
  exact ⟨xs[i], List.getElem_mem hi', hget i _ _ (List.getElem?_eq_getElem hi')
    (List.getElem?_eq_getElem hi)⟩

/-- A loop whose turns all return does. -/
theorem exists_mapM {ε α β : Type} {f : α → Except ε β} {xs : List α}
    (h : ∀ x ∈ xs, ∃ y, f x = .ok y) : ∃ ys, xs.mapM f = .ok ys := by
  induction xs with
  | nil => exact ⟨[], rfl⟩
  | cons x xs ih =>
      obtain ⟨y, hy⟩ := h x List.mem_cons_self
      obtain ⟨ys, hys⟩ := ih fun x hx => h x (List.mem_cons_of_mem _ hx)
      exact ⟨y :: ys, by rw [List.mapM_cons, hy, hys]; rfl⟩

end Core
end EvidenceLab
