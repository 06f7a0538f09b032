/-
# Step systems

A system is a function that takes a state and an event to the next state, or to
nothing where the event is not enabled.  A property of all its runs is proved by a
step lemma: `throughout_of_every` carries an invariant along a run whose steps meet
a condition, and `throughout_iff_every` says that the condition is exact when the
property fails right after a step that does not meet it.  Two systems are compared by
what matches one step (`leads_of_simulation`).
-/

import Mathlib.Data.List.Basic

namespace EvidenceLab
namespace Runs

variable {S E : Type*} (step : S → E → Option S)

/-- The state after a run, if every event is enabled where it happens. -/
def run (s : S) : List E → Option S
  | [] => some s
  | e :: es => (step s e).bind fun s' => run s' es

/-- `P` holds in every state of the run, the first one included. -/
def Throughout (P : S → Prop) (s : S) : List E → Prop
  | [] => P s
  | e :: es => P s ∧ ∀ s', step s e = some s' → Throughout P s' es

/-- Every step of the run meets `ok`. -/
def Every (ok : S → E → Prop) (s : S) : List E → Prop
  | [] => True
  | e :: es => ∀ s', step s e = some s' → ok s e ∧ Every ok s' es

variable {step} {P I : S → Prop} {ok : S → E → Prop}

@[simp] theorem run_nil (s : S) : run step s [] = some s := rfl

theorem run_cons {s s' : S} {e : E} {es : List E} :
    run step s (e :: es) = some s' ↔ ∃ m, step s e = some m ∧ run step m es = some s' :=
  Option.bind_eq_some_iff

theorem run_append {s s' : S} {es es' : List E} :
    run step s (es ++ es') = some s' ↔ ∃ m, run step s es = some m ∧ run step m es' = some s' := by
  induction es generalizing s with
  | nil =>
      refine ⟨fun h => ⟨s, rfl, h⟩, ?_⟩
      rintro ⟨m, hm, h⟩
      obtain rfl := Option.some.inj hm
      exact h
  | cons e es ih =>
      rw [List.cons_append, run_cons]
      constructor
      · rintro ⟨m, hm, h⟩
        obtain ⟨m', hm', h'⟩ := ih.mp h
        exact ⟨m', run_cons.mpr ⟨m, hm, hm'⟩, h'⟩
      · rintro ⟨m', hm', h'⟩
        obtain ⟨m, hm, h⟩ := run_cons.mp hm'
        exact ⟨m, hm, ih.mpr ⟨m', h, h'⟩⟩

theorem Throughout.head {s : S} {es : List E} (h : Throughout step P s es) : P s := by
  cases es with
  | nil => exact h
  | cons e es => exact h.1

/-- Whether every step of a run meets a condition can be computed along the run. -/
instance decidableEvery [∀ s e, Decidable (ok s e)] :
    ∀ (s : S) (es : List E), Decidable (Every step ok s es)
  | _, [] => .isTrue trivial
  | s, e :: es =>
      match h : step s e with
      | none => .isTrue fun _ h' => nomatch h.symm.trans h'
      | some m =>
          have := decidableEvery m es
          decidable_of_iff (ok s e ∧ Every step ok m es)
            ⟨fun hm _ h' => Option.some.inj (h.symm.trans h') ▸ hm, fun hm => hm m h⟩

/-- So can whether a property holds throughout it. -/
instance decidableThroughout [DecidablePred P] :
    ∀ (s : S) (es : List E), Decidable (Throughout step P s es)
  | s, [] => inferInstanceAs (Decidable (P s))
  | s, e :: es =>
      match h : step s e with
      | none =>
          decidable_of_iff (P s) ⟨fun hp => ⟨hp, fun _ h' => nomatch h.symm.trans h'⟩, And.left⟩
      | some m =>
          have := decidableThroughout m es
          decidable_of_iff (P s ∧ Throughout step P m es)
            ⟨fun hp => ⟨hp.1, fun _ h' => Option.some.inj (h.symm.trans h') ▸ hp.2⟩,
              fun hp => ⟨hp.1, hp.2 m h⟩⟩

/-- A property holds throughout a run iff it holds in every state that an initial
part of the run leads to. -/
theorem throughout_iff_run {s : S} {es : List E} :
    Throughout step P s es ↔ ∀ pre s', pre <+: es → run step s pre = some s' → P s' := by
  induction es generalizing s with
  | nil =>
      constructor
      · intro h pre s' hpre hrun
        rw [List.prefix_nil.mp hpre] at hrun
        exact Option.some.inj hrun ▸ h
      · intro h
        exact h [] s (List.prefix_refl _) rfl
  | cons e es ih =>
      constructor
      · rintro ⟨hP, hnext⟩ pre s' hpre hrun
        cases pre with
        | nil => exact Option.some.inj hrun ▸ hP
        | cons e' pre =>
            obtain ⟨rfl, hpre'⟩ := List.cons_prefix_cons.mp hpre
            obtain ⟨m, hm, hrun'⟩ := run_cons.mp hrun
            exact ih.mp (hnext m hm) pre s' hpre' hrun'
      · intro h
        refine ⟨h [] s (List.nil_prefix) rfl, ?_⟩
        intro m hm
        refine ih.mpr ?_
        intro pre s' hpre hrun
        exact h (e :: pre) s' (List.cons_prefix_cons.mpr ⟨rfl, hpre⟩) (run_cons.mpr ⟨m, hm, hrun⟩)

/-- **The invariant rule.**  An invariant that holds at the start and survives every
step that meets the condition holds throughout a run whose steps all do. -/
theorem throughout_of_every {s : S} {es : List E} (hs : I s)
    (hstep : ∀ s e s', I s → step s e = some s' → ok s e → I s') (hP : ∀ s, I s → P s)
    (h : Every step ok s es) : Throughout step P s es := by
  induction es generalizing s with
  | nil => exact hP s hs
  | cons e es ih =>
      refine ⟨hP s hs, ?_⟩
      intro s' hs'
      obtain ⟨hok, hrest⟩ := h s' hs'
      exact ih (hstep s e s' hs hs' hok) hrest

/-- An invariant that every step keeps holds after a run. -/
theorem invariant_of_run {s s' : S} {es : List E}
    (hstep : ∀ s e s', I s → step s e = some s' → I s') (hs : I s)
    (hrun : run step s es = some s') : I s' := by
  induction es generalizing s with
  | nil => exact Option.some.inj hrun ▸ hs
  | cons e es ih =>
      obtain ⟨m, hm, hrest⟩ := run_cons.mp hrun
      exact ih (hstep s e m hs hm) hrest

/-- An invariant that makes every step meet the condition, kept by the events of a kind. -/
theorem every_of_invariant {c : E → Prop} {s : S} {es : List E} (hs : I s)
    (hstep : ∀ s e s', I s → c e → step s e = some s' → ok s e ∧ I s') (h : ∀ e ∈ es, c e) :
    Every step ok s es := by
  induction es generalizing s with
  | nil => trivial
  | cons e es ih =>
      intro s' hs'
      obtain ⟨hok, hinv⟩ := hstep s e s' hs (h e (List.mem_cons_self ..)) hs'
      exact ⟨hok, ih hinv fun e he => h e (List.mem_cons_of_mem _ he)⟩

/-- **The invariant rule, both ways.**  When a step that does not meet the condition
ends in a state without the property, the runs with the property throughout are those
whose steps all meet the condition. -/
theorem throughout_iff_every {s : S} {es : List E} (hs : I s)
    (hstep : ∀ s e s', I s → step s e = some s' → ok s e → I s')
    (hbreak : ∀ s e s', I s → step s e = some s' → P s' → ok s e) (hP : ∀ s, I s → P s) :
    Throughout step P s es ↔ Every step ok s es := by
  refine ⟨?_, throughout_of_every hs hstep hP⟩
  induction es generalizing s with
  | nil => intro _; trivial
  | cons e es ih =>
      rintro ⟨-, hnext⟩ s' hs'
      have hok : ok s e := hbreak s e s' hs hs' (hnext s' hs').head
      exact ⟨hok, ih (hstep s e s' hs hs' hok) (hnext s' hs')⟩

/-! ### Simulation -/

variable (step) (ok) in
/-- A run leads from one state to another, and its steps all meet `ok`. -/
inductive Leads : S → List E → S → Prop
  | nil (s : S) : Leads s [] s
  | cons {s m s' : S} {e : E} {es : List E} (hstep : step s e = some m) (hok : ok s e)
      (hrest : Leads m es s') : Leads s (e :: es) s'

theorem Leads.append {s m s' : S} {es es' : List E} (h : Leads step ok s es m)
    (h' : Leads step ok m es' s') : Leads step ok s (es ++ es') s' := by
  induction h with
  | nil s => exact h'
  | cons hstep hok _ ih => exact .cons hstep hok (ih h')

theorem Leads.run {s s' : S} {es : List E} (h : Leads step ok s es s') :
    run step s es = some s' := by
  induction h with
  | nil s => rfl
  | cons hstep _ _ ih => exact run_cons.mpr ⟨_, hstep, ih⟩

theorem Leads.every {s s' : S} {es : List E} (h : Leads step ok s es s') : Every step ok s es := by
  induction h with
  | nil s => trivial
  | cons hstep hok _ ih =>
      intro m hm
      obtain rfl := Option.some.inj (hstep.symm.trans hm)
      exact ⟨hok, ih⟩

/-- A property that holds throughout a run holds in the state that it leads to. -/
theorem Throughout.last {s s' : S} {es : List E} (h : Throughout step P s es)
    (hrun : run step s es = some s') : P s' :=
  throughout_iff_run.mp h es s' (List.prefix_refl _) hrun

/-- A property that holds throughout a run holds after each of its steps. -/
theorem every_of_throughout {c : E → Prop} {s : S} {es : List E} (hc : ∀ e ∈ es, c e)
    (h : Throughout step P s es) :
    Every step (fun s e => c e ∧ ∀ s', step s e = some s' → P s') s es := by
  induction es generalizing s with
  | nil => trivial
  | cons e es ih =>
      intro m hm
      refine ⟨⟨hc e (List.mem_cons_self ..), fun s' hs' => (h.2 s' hs').head⟩, ?_⟩
      exact ih (fun e he => hc e (List.mem_cons_of_mem _ he)) (h.2 m hm)

/-- **The simulation rule.**  When every step of a system that meets a condition is
matched by a run of another system, whose steps meet a condition of their own, so is
every run. -/
theorem leads_of_simulation {T F : Type*} {step' : T → F → Option T} {ok' : T → F → Prop}
    {R : S → T → Prop}
    (hsim : ∀ s t e s', R s t → ok s e → step s e = some s' →
      ∃ fs t', Leads step' ok' t fs t' ∧ R s' t')
    {s s' : S} {t : T} {es : List E} (hR : R s t) (hok : Every step ok s es)
    (hrun : run step s es = some s') : ∃ fs t', Leads step' ok' t fs t' ∧ R s' t' := by
  induction es generalizing s t with
  | nil => exact ⟨[], t, .nil t, Option.some.inj hrun ▸ hR⟩
  | cons e es ih =>
      obtain ⟨m, hm, hrest⟩ := run_cons.mp hrun
      obtain ⟨fs, t', hleads, hR'⟩ := hsim s t e m hR (hok m hm).1 hm
      obtain ⟨fs', t'', hleads', hR''⟩ := ih hR' (hok m hm).2 hrest
      exact ⟨fs ++ fs', t'', hleads.append hleads', hR''⟩

end Runs
end EvidenceLab
