/-
# The times of nested calls

A clock that never goes back gives each call of a well-nested sequence a time, from its
opening to its closing.  Of two calls, the earlier one is around the later one, in its
time as well, or is over when that begins (`pairwise_calls`).
-/

import EvidenceLab.Runs.Nesting

namespace EvidenceLab
namespace Runs

variable {O C τ : Type*} [LE τ] (opensAt : O → τ) (closesAt : C → τ)

/-- When a boundary is passed. -/
def Boundary.time : Boundary O C → τ
  | .opening o => opensAt o
  | .closing c => closesAt c

/-- The clock does not go back. -/
def Clocked (es : List (Boundary O C)) : Prop :=
  es.Pairwise fun e e' => e.time opensAt closesAt ≤ e'.time opensAt closesAt

/-- The first call is around the second one, and takes all of its time. -/
structure Call.Encloses (a b : Call O C) : Prop where
  around : a.opening :: a.around <:+ b.around
  opens : opensAt a.opening ≤ opensAt b.opening
  closes : ∀ c ∈ a.closing, ∀ c' ∈ b.closing, closesAt c' ≤ closesAt c

/-- The first call is over when the second one begins. -/
def Call.Precedes (a b : Call O C) : Prop :=
  ∀ c ∈ a.closing, closesAt c ≤ opensAt b.opening

variable {opensAt closesAt} {es : List (Boundary O C)} {outer : List O} {call : Call O C}

/-- What was open before a well-nested sequence is around its calls. -/
theorem suffix_around (h : WellNested es) (hcall : call ∈ calls outer es) :
    outer <:+ call.around := by
  induction h generalizing outer with
  | nil => exact absurd hcall List.not_mem_nil
  | call o c hbody _ ihbody ihrest =>
      rw [calls_call _ _ _ _ hbody, List.mem_cons, List.mem_append] at hcall
      rcases hcall with rfl | hcall | hcall
      · exact List.suffix_rfl
      · exact (List.suffix_cons o outer).trans (ihbody hcall)
      · exact ihrest hcall

/-- The opening of a call is one of the sequence. -/
theorem opening_mem (hcall : call ∈ calls outer es) : Boundary.opening call.opening ∈ es := by
  induction es generalizing outer with
  | nil => exact absurd hcall List.not_mem_nil
  | cons e es ih =>
      cases e with
      | closing c => exact List.mem_cons_of_mem _ (ih hcall)
      | opening o =>
          rcases List.mem_cons.mp hcall with rfl | hcall
          · exact List.mem_cons_self ..
          · exact List.mem_cons_of_mem _ (ih hcall)

/-- The closing of a call is one of the sequence. -/
theorem closing_mem (h : WellNested es) (hcall : call ∈ calls outer es) {c : C}
    (hc : c ∈ call.closing) : Boundary.closing c ∈ es := by
  obtain ⟨c', hc', hmem⟩ := closing_of_mem_calls h hcall
  rwa [Option.some.inj ((Option.mem_def.mp hc).symm.trans hc')]

/-- **Of two calls, the earlier one is around the later one or is over when it begins.** -/
theorem pairwise_calls (h : WellNested es) (hclock : Clocked opensAt closesAt es) :
    (calls outer es).Pairwise fun a b =>
      a.Encloses opensAt closesAt b ∨ a.Precedes opensAt closesAt b := by
  induction h generalizing outer with
  | nil => exact List.Pairwise.nil
  | call o c hbody hrest ihbody ihrest =>
      obtain ⟨hopen, hclock⟩ := List.pairwise_cons.mp hclock
      obtain ⟨hclockBody, hclock, hbefore⟩ := List.pairwise_append.mp hclock
      obtain ⟨hclose, hclockRest⟩ := List.pairwise_cons.mp hclock
      rw [calls_call _ _ _ _ hbody]
      refine List.pairwise_cons.mpr ⟨fun b hb => ?_, List.pairwise_append.mpr
        ⟨ihbody hclockBody, ihrest hclockRest, fun a ha b hb => Or.inr fun c' hc' => ?_⟩⟩
      · rcases List.mem_append.mp hb with hb | hb
        · refine Or.inl ⟨suffix_around hbody hb, ?_, ?_⟩
          · exact hopen _ (List.mem_append_left _ (opening_mem hb))
          · rintro c' hc' c'' hc''
            obtain rfl := Option.some.inj hc'
            exact hbefore _ (closing_mem hbody hb hc'') _ List.mem_cons_self
        · refine Or.inr fun c' hc' => ?_
          obtain rfl := Option.some.inj hc'
          exact hclose _ (opening_mem hb)
      · exact hbefore _ (closing_mem hbody ha hc') _ (List.mem_cons_of_mem _ (opening_mem hb))

end Runs
end EvidenceLab
