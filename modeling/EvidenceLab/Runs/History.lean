/-
# Systems that read what they have been

A transaction that commits may have read before other transactions did: each of its reads
is answered by a state that the system has been in, and the commit changes the present
one.  A `History` is all these states.

What such a system answers is determined by a part of its state when any two of its states
that agree on this part give the same answer (`Determined`).  An answer that is put
together from several reads is determined when each of them is, and what is read next need
be determined only where the reads before it succeed (`Determined.bind`).
-/

import EvidenceLab.Runs.System

namespace EvidenceLab
namespace Runs

/-! ### Histories -/

/-- The present state of a system, and those before it. -/
structure History (S : Type*) where
  now : S
  past : List S := []

namespace History

variable {S E : Type*}

/-- All states, the present one first. -/
def states (h : History S) : List S := h.now :: h.past

/-- What the reads of a transaction see, each the state of its index. -/
def seen (h : History S) (snapshot : ℕ → ℕ) (i : ℕ) : S := (h.states[snapshot i]?).getD h.now

/-- A transaction commits to the present state. -/
def step (commit : E → (ℕ → S) → S → Option S) (h : History S) (e : E × (ℕ → ℕ)) :
    Option (History S) :=
  (commit e.1 (h.seen e.2) h.now).map fun s => ⟨s, h.states⟩

theorem seen_mem (h : History S) (snapshot : ℕ → ℕ) (i : ℕ) : h.seen snapshot i ∈ h.states := by
  rw [seen]
  cases hs : h.states[snapshot i]? with
  | none => exact List.mem_cons_self
  | some s => exact List.mem_of_getElem? hs

theorem step_eq_some {commit : E → (ℕ → S) → S → Option S} {h h' : History S}
    {e : E × (ℕ → ℕ)} : h.step commit e = some h' ↔
      ∃ s, commit e.1 (h.seen e.2) h.now = some s ∧ h' = ⟨s, h.states⟩ := by
  rw [step, Option.map_eq_some_iff]
  simp only [eq_comm]

end History

/-! ### Determined answers -/

section Determined

universe u

variable {S ε : Type*} {R R' : Type u} {I : S → Prop} {View : S → S → Prop} {read : S → R}

/-- The read gives the same in any two states of the kind that agree on the view. -/
def Determined (I : S → Prop) (View : S → S → Prop) (read : S → R) : Prop :=
  ∀ s s', I s → I s' → View s s' → read s = read s'

theorem Determined.const (r : R) : Determined I View fun _ => r := fun _ _ _ _ _ => rfl

theorem Determined.map (h : Determined I View read) (f : R → R') :
    Determined I View fun s => f (read s) :=
  fun s s' hs hs' hview => congrArg f (h s s' hs hs' hview)

/-- A read of fewer states. -/
theorem Determined.mono {J : S → Prop} (h : Determined I View read) (hJ : ∀ s, J s → I s) :
    Determined J View read :=
  fun s s' hs hs' hview => h s s' (hJ s hs) (hJ s' hs') hview

/-- Which of two reads it is may depend on what is known already. -/
theorem Determined.ite {read' : S → R} {c : Prop} [Decidable c]
    (h : c → Determined I View read) (h' : ¬ c → Determined I View read') :
    Determined I View fun s => if c then read s else read' s := by
  by_cases hc : c
  · simp only [if_pos hc]
    exact h hc
  · simp only [if_neg hc]
    exact h' hc

/-- **A read after another.** -/
theorem Determined.bind {first : S → Except ε R} {next : R → S → Except ε R'}
    (h : Determined I View first)
    (hnext : ∀ r, Determined (fun s => I s ∧ first s = .ok r) View (next r)) :
    Determined I View fun s => first s >>= fun r => next r s := by
  intro s s' hs hs' hview
  have heq := h s s' hs hs' hview
  show (first s >>= _) = (first s' >>= _)
  cases hfirst : first s with
  | error e => rw [← heq, hfirst]; rfl
  | ok r =>
      rw [← heq, hfirst]
      exact hnext r s s' ⟨hs, hfirst⟩ ⟨hs', heq ▸ hfirst⟩ hview

end Determined

end Runs
end EvidenceLab
