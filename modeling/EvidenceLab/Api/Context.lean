/-
# The ambient context

`app/core/context.py`: the identifiers of a request, in context variables that nested blocks bind.
A block resets the variables that it has set to what they were, so code that binds them in blocks
only leaves the context as it found it, whatever it raises (`run_bindContext`).
-/

import EvidenceLab.Data.Uuid
import EvidenceLab.Runs.Blocks
import EvidenceLab.Text.Unicode

namespace EvidenceLab
namespace Api

open Text Data Runs

/-- `RequestContext`: the values of the context variables. -/
structure RequestContext where
  requestId : Option Str := none
  traceId : Option Str := none
  userId : Option Uuid := none
  organizationId : Option Uuid := none
  projectId : Option Uuid := none
  deriving DecidableEq

/-- `bind_context`, which sets the variables that it is given. -/
def bindContext (E : Type) : Manager RequestContext E RequestContext where
  enter ids ctx :=
    { requestId := ids.requestId.or ctx.requestId
      traceId := ids.traceId.or ctx.traceId
      userId := ids.userId.or ctx.userId
      organizationId := ids.organizationId.or ctx.organizationId
      projectId := ids.projectId.or ctx.projectId }
  exit ids before _ ctx :=
    { requestId := if ids.requestId.isSome then before.requestId else ctx.requestId
      traceId := if ids.traceId.isSome then before.traceId else ctx.traceId
      userId := if ids.userId.isSome then before.userId else ctx.userId
      organizationId := if ids.organizationId.isSome then before.organizationId
        else ctx.organizationId
      projectId := if ids.projectId.isSome then before.projectId else ctx.projectId }

/-- What a block resets a variable to, if it was left as the block had set it. -/
theorem reset_eq {α : Type} (id before : Option α) :
    (if id.isSome then before else id.or before) = before := by
  cases id with
  | none => rfl
  | some a => rfl

variable {E : Type}

/-- A block that finds the context as it had set it resets it. -/
theorem exit_enter (ids ctx : RequestContext) (raised : Option E) :
    (bindContext E).exit ids ctx raised ((bindContext E).enter ids ctx) = ctx := by
  simp only [bindContext, reset_eq]

/-- **Bindings are undone**, at any depth and whatever is raised. -/
theorem run_bindContext (code : Code RequestContext E) (ctx : RequestContext) :
    ((bindContext E).run code ctx).2 = ctx := by
  refine (bindContext E).run_rule (R := fun ctx _ ctx' => ctx' = ctx) ?_ ?_ ?_ code ctx
  · exact fun _ => rfl
  · rintro s s' s'' - - rfl rfl
    rfl
  · rintro ids s s' - raised rfl
    exact exit_enter ids s raised

end Api
end EvidenceLab
