/-
# Code with blocks

What a context manager sees of the code around it: blocks that are entered, and left in any case,
whatever is raised inside.  What the code raises, and which blocks end with what, does not depend
on the manager (`Code.raises`, `Code.left`); a manager that keeps a state sees each block that
ends, in order (`Manager.run_rule`).
-/

import Mathlib.Tactic.Common

namespace EvidenceLab
namespace Runs

/-- Code that raises, enters blocks and handles what is raised. -/
inductive Code (B E : Type*)
  | pass
  | raise (e : E)
  | block (b : B) (body : Code B E)
  | seq (first next : Code B E)
  | handle (body : Code B E) (catches : E → Bool) (handler : E → Code B E)

variable {B E S : Type*}

namespace Code

/-- What leaves the code, if it does not end. -/
def raises : Code B E → Option E
  | pass => none
  | raise e => some e
  | block _ body => body.raises
  | seq first next => first.raises.elim next.raises some
  | handle body catches handler =>
      body.raises.elim none fun e => if catches e then (handler e).raises else some e

/-- The blocks in the order in which they end, each with what leaves it. -/
def left : Code B E → List (B × Option E)
  | pass => []
  | raise _ => []
  | block b body => body.left ++ [(b, body.raises)]
  | seq first next => first.left ++ first.raises.elim next.left fun _ => []
  | handle body catches handler =>
      body.left ++ body.raises.elim [] fun e => if catches e then (handler e).left else []

end Code

/-- What is done when a block is entered and when it is left: then with the state in which it was
entered, what leaves it and the state now. -/
structure Manager (B E S : Type*) where
  enter : B → S → S
  exit : B → S → Option E → S → S

namespace Manager

variable (m : Manager B E S)

/-- Code under a manager: what leaves it, and the state then. -/
def run : Code B E → S → Option E × S
  | .pass, s => (none, s)
  | .raise e, s => (some e, s)
  | .block b body, s =>
      let r := run body (m.enter b s)
      (r.1, m.exit b s r.1 r.2)
  | .seq first next, s =>
      let r := run first s
      r.1.elim (run next r.2) fun e => (some e, r.2)
  | .handle body catches handler, s =>
      let r := run body s
      r.1.elim r fun e => if catches e then run (handler e) r.2 else r

/-- **Blocks let through what is raised.** -/
theorem run_fst (code : Code B E) (s : S) : (m.run code s).1 = code.raises := by
  induction code generalizing s with
  | pass => rfl
  | raise e => rfl
  | block b body ih => exact ih _
  | seq first next ihfirst ihnext =>
      rw [run, ihfirst, Code.raises]
      cases first.raises with
      | none => exact ihnext _
      | some e => rfl
  | handle body catches handler ihbody ihhandler =>
      rw [run, ihbody, Code.raises]
      cases h : body.raises with
      | none => exact (ihbody s).trans h
      | some e =>
          rw [Option.elim_some, Option.elim_some]
          split_ifs with hcatches
          · exact ihhandler e _
          · exact (ihbody s).trans h

/-- **What holds of a manager's states** before and behind each block that ends holds of them
before and behind the code. -/
theorem run_rule {R : S → List (B × Option E) → S → Prop} (nil : ∀ s, R s [] s)
    (append : ∀ {s s' s'' xs ys}, R s xs s' → R s' ys s'' → R s (xs ++ ys) s'')
    (block : ∀ {b s s' xs} raised, R (m.enter b s) xs s' →
      R s (xs ++ [(b, raised)]) (m.exit b s raised s'))
    (code : Code B E) (s : S) : R s code.left (m.run code s).2 := by
  induction code generalizing s with
  | pass => exact nil s
  | raise e => exact nil s
  | block b body ih =>
      rw [run, m.run_fst, Code.left]
      exact block _ (ih _)
  | seq first next ihfirst ihnext =>
      rw [run, m.run_fst, Code.left]
      refine append (ihfirst s) ?_
      cases first.raises with
      | none => exact ihnext _
      | some e => exact nil _
  | handle body catches handler ihbody ihhandler =>
      rw [run, m.run_fst, Code.left]
      refine append (ihbody s) ?_
      cases body.raises with
      | none => exact nil _
      | some e =>
          rw [Option.elim_some, Option.elim_some]
          split_ifs
          · exact ihhandler e _
          · exact nil _

end Manager
end Runs
end EvidenceLab
