/-
# Runs without the others

Several parties write to one system, and each has a view of its states.  The operations of a
run that concern one party are a run of their own, of its views, when every step unwinds
(`Unwinds`): an operation that does not concern it leaves its view as it was, and one that does
makes of its view, having read its views, the view of what it has made.  So the party has what
it would have if there were no others (`exists_unwound`).
-/

import EvidenceLab.Runs.History

namespace EvidenceLab
namespace Runs
namespace History

variable {S E : Type*}

section Unwinding

variable (commit : E → (ℕ → S) → S → Option S) (view : S → S) (concerns : S → E → Bool)

/-- The operations of a run that concern a party. -/
def concerning : History S → List (E × (ℕ → ℕ)) → List E
  | _, [] => []
  | h, e :: es => (h.step commit e).elim [] fun h' =>
      if concerns h.now e.1 then e.1 :: concerning h' es else concerning h' es

/-- An operation that makes a new state does to the view of a party what it should. -/
structure Unwinds (h : History S) (e : E × (ℕ → ℕ)) (s : S) : Prop where
  respects : concerns h.now e.1 = false → view s = view h.now
  consistent : concerns h.now e.1 = true →
    commit e.1 (fun i => view (h.seen e.2 i)) (view h.now) = some (view s)

/-- The second has been in the views of all states of the first, and is in the last one. -/
structure Reflects (h g : History S) : Prop where
  now : g.now = view h.now
  states : ∀ s ∈ h.states, view s ∈ g.states

end Unwinding

variable {commit : E → (ℕ → S) → S → Option S} {view : S → S} {concerns : S → E → Bool}
  {h h' g : History S} {es : List (E × (ℕ → ℕ))}

/-- What has been seen of the first can be seen of the second, by its view. -/
theorem Reflects.exists_seen (hg : Reflects view h g) (snapshot : ℕ → ℕ) :
    ∃ snapshot', g.seen snapshot' = fun i => view (h.seen snapshot i) := by
  have hindex : ∀ i, ∃ j, g.states[j]? = some (view (h.seen snapshot i)) := fun i =>
    List.mem_iff_getElem?.mp (hg.states _ (h.seen_mem snapshot i))
  choose snapshot' hsnapshot using hindex
  refine ⟨snapshot', funext fun i => ?_⟩
  rw [seen, hsnapshot, Option.getD_some]

/-- The present state of a history is one of its states after any run. -/
theorem states_subset_of_run (hrun : run (step commit) h es = some h') :
    h.states ⊆ h'.states := by
  induction es generalizing h with
  | nil => exact Option.some.inj hrun ▸ fun _ => id
  | cons e es ih =>
      obtain ⟨m, hm, hrest⟩ := run_cons.mp hrun
      obtain ⟨s, -, rfl⟩ := step_eq_some.mp hm
      exact fun _ hs => ih hrest (List.mem_cons_of_mem _ hs)

/-- **A run without the others.**  Where every step unwinds, the operations that concern a party
lead to its view of what all of them lead to. -/
theorem exists_unwound {P : History S → Prop}
    (hunwinds : ∀ h e s, P h → P ⟨s, h.states⟩ → commit e.1 (h.seen e.2) h.now = some s →
      Unwinds commit view concerns h e s)
    (hP : Throughout (step commit) P h es) (hrun : run (step commit) h es = some h')
    (hg : Reflects view h g) :
    ∃ es' g', es'.map Prod.fst = concerning commit concerns h es ∧
      run (step commit) g es' = some g' ∧ Reflects view h' g' := by
  induction es generalizing h g with
  | nil =>
      obtain rfl := Option.some.inj hrun
      exact ⟨[], g, rfl, rfl, hg⟩
  | cons e es ih =>
      obtain ⟨m, hm, hrest⟩ := run_cons.mp hrun
      obtain ⟨s, hcommit, rfl⟩ := step_eq_some.mp hm
      have hPm := hP.2 _ hm
      have hstep := hunwinds h e s hP.head hPm.head hcommit
      rw [concerning, hm, Option.elim_some]
      by_cases hconcerns : concerns h.now e.1 = true
      · obtain ⟨snapshot, hseen⟩ := hg.exists_seen e.2
        have hown : g.step commit (e.1, snapshot) = some ⟨view s, g.states⟩ :=
          step_eq_some.mpr ⟨view s, by rw [hseen, hg.now]; exact hstep.consistent hconcerns, rfl⟩
        have hreflects : Reflects view ⟨s, h.states⟩ ⟨view s, g.states⟩ := by
          refine ⟨rfl, fun s' hs' => ?_⟩
          rcases List.mem_cons.mp hs' with rfl | hs'
          · exact List.mem_cons_self
          · exact List.mem_cons_of_mem _ (hg.states s' hs')
        obtain ⟨es', g', hes', hrun', hg'⟩ := ih hPm hrest hreflects
        refine ⟨(e.1, snapshot) :: es', g', ?_, run_cons.mpr ⟨_, hown, hrun'⟩, hg'⟩
        rw [List.map_cons, hes', if_pos hconcerns]
      · have hsame := hstep.respects (Bool.eq_false_iff.mpr hconcerns)
        have hreflects : Reflects view ⟨s, h.states⟩ g := by
          refine ⟨hg.now.trans hsame.symm, fun s' hs' => ?_⟩
          rcases List.mem_cons.mp hs' with rfl | hs'
          · rw [hsame, ← hg.now]
            exact List.mem_cons_self
          · exact hg.states s' hs'
        obtain ⟨es', g', hes', hrun', hg'⟩ := ih hPm hrest hreflects
        exact ⟨es', g', by rw [hes', if_neg hconcerns], hrun', hg'⟩

end History
end Runs
end EvidenceLab
