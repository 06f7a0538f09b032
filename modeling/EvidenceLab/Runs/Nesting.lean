/-
# Well-nested openings and closings

A sequence of openings and closings in which every closing closes the innermost
opening that is still open.  `calls` reads off such a sequence what a recorder of it
should know: each opening, the openings around it, and how it was closed.  This is
defined for any sequence, by looking ahead for the closing; for a well-nested one it
follows the nesting (`calls_call`).

What is around a call is a chain of calls: the innermost opening around it is a call
of its own, and what is around that one is the rest (`exists_call_of_around`).
-/

import Mathlib.Data.List.Nodup

namespace EvidenceLab
namespace Runs

variable {O C κ : Type*}

/-- An opening or a closing. -/
inductive Boundary (O C : Type*)
  | opening (o : O)
  | closing (c : C)

/-- Every closing closes the innermost opening, and nothing is left open. -/
inductive WellNested : List (Boundary O C) → Prop
  | nil : WellNested []
  | call (o : O) {body : List (Boundary O C)} (c : C) {rest : List (Boundary O C)}
      (hbody : WellNested body) (hrest : WellNested rest) :
      WellNested (.opening o :: (body ++ .closing c :: rest))

theorem WellNested.append {es es' : List (Boundary O C)} (h : WellNested es)
    (h' : WellNested es') : WellNested (es ++ es') := by
  induction h with
  | nil => exact h'
  | call o c hbody _ _ ih =>
      rw [List.cons_append, List.append_assoc, List.cons_append]
      exact .call o c hbody ih

/-- The openings of a sequence. -/
def openings : List (Boundary O C) → List O
  | [] => []
  | .opening o :: es => o :: openings es
  | .closing _ :: es => openings es

/-- The first closing that `n` other ones come before. -/
def closingOf : ℕ → List (Boundary O C) → Option C
  | _, [] => none
  | n, .opening _ :: es => closingOf (n + 1) es
  | 0, .closing c :: _ => some c
  | n + 1, .closing _ :: es => closingOf n es

/-- An opening, those that were open when it was made (the innermost first), and its
closing. -/
structure Call (O C : Type*) where
  opening : O
  around : List O
  closing : Option C

/-- The calls of a sequence, in the order of their openings; `outer` is open before it. -/
def calls (outer : List O) : List (Boundary O C) → List (Call O C)
  | [] => []
  | .opening o :: es => ⟨o, outer, closingOf 0 es⟩ :: calls (o :: outer) es
  | .closing _ :: es => calls outer.tail es

/-- The calls are those of the openings. -/
theorem map_opening_calls (outer : List O) (es : List (Boundary O C)) :
    (calls outer es).map Call.opening = openings es := by
  induction es generalizing outer with
  | nil => rfl
  | cons e es ih => cases e <;> simp [calls, openings, ih]

/-! ### Following the nesting -/

/-- A well-nested sequence closes nothing that was open before it. -/
theorem closingOf_append {es : List (Boundary O C)} (h : WellNested es) (n : ℕ)
    (rest : List (Boundary O C)) : closingOf n (es ++ rest) = closingOf n rest := by
  induction h generalizing n rest with
  | nil => rfl
  | call o c _ _ ihbody ihrest =>
      rw [List.cons_append, closingOf, List.append_assoc, ihbody, List.cons_append, closingOf,
        ihrest]

/-- The closing of a call is the one that follows its body. -/
theorem closingOf_call {body : List (Boundary O C)} (h : WellNested body) (c : C)
    (rest : List (Boundary O C)) : closingOf 0 (body ++ .closing c :: rest) = some c := by
  rw [closingOf_append h, closingOf]

/-- What follows a well-nested sequence has the same openings around it. -/
theorem calls_append {es : List (Boundary O C)} (h : WellNested es) (outer : List O)
    (rest : List (Boundary O C)) :
    calls outer (es ++ rest) = calls outer es ++ calls outer rest := by
  induction h generalizing outer rest with
  | nil => rfl
  | call o c hbody _ ihbody ihrest =>
      simp only [List.cons_append, List.append_assoc, calls, closingOf_call hbody, ihbody,
        List.tail_cons, ihrest]

/-- **The calls of a well-nested sequence**: the first one, those of its body, which
have it around them, and those of what follows. -/
theorem calls_call (outer : List O) (o : O) {body : List (Boundary O C)} (c : C)
    (rest : List (Boundary O C)) (hbody : WellNested body) :
    calls outer (.opening o :: (body ++ .closing c :: rest)) =
      ⟨o, outer, some c⟩ :: (calls (o :: outer) body ++ calls outer rest) := by
  rw [calls, closingOf_call hbody, calls_append hbody, calls, List.tail_cons]

/-- Every call of a well-nested sequence is closed, by one of its closings. -/
theorem closing_of_mem_calls {es : List (Boundary O C)} (h : WellNested es) {outer : List O}
    {call : Call O C} (hcall : call ∈ calls outer es) :
    ∃ c, call.closing = some c ∧ Boundary.closing c ∈ es := by
  induction h generalizing outer with
  | nil => exact absurd hcall List.not_mem_nil
  | call o c hbody _ ihbody ihrest =>
      rw [calls_call _ _ _ _ hbody] at hcall
      rcases List.mem_cons.mp hcall with rfl | hcall
      · exact ⟨c, rfl, by simp⟩
      · rcases List.mem_append.mp hcall with hcall | hcall
        · obtain ⟨c', hc', hmem⟩ := ihbody hcall
          exact ⟨c', hc', by simp [hmem]⟩
        · obtain ⟨c', hc', hmem⟩ := ihrest hcall
          exact ⟨c', hc', by simp [hmem]⟩

/-! ### The chain around a call -/

/-- The innermost opening around a call is a call of the sequence, with the rest around
it, or was open before. -/
theorem call_of_around {outer : List O} {es : List (Boundary O C)} {call : Call O C}
    (hcall : call ∈ calls outer es) :
    (∃ k, call.around = outer.drop k) ∨
      ∃ call' ∈ calls outer es, call.around = call'.opening :: call'.around := by
  induction es generalizing outer with
  | nil => exact absurd hcall List.not_mem_nil
  | cons e es ih =>
      cases e with
      | closing c =>
          rcases ih hcall with ⟨k, hk⟩ | h
          · exact Or.inl ⟨k + 1, by rw [hk, List.drop_tail]⟩
          · exact Or.inr h
      | opening o =>
          rcases List.mem_cons.mp hcall with rfl | hcall
          · exact Or.inl ⟨0, rfl⟩
          · rcases ih hcall with ⟨k, hk⟩ | ⟨call', hcall', h⟩
            · cases k with
              | zero => exact Or.inr ⟨_, List.mem_cons_self .., hk⟩
              | succ k => exact Or.inl ⟨k, by rw [hk, List.drop_succ_cons]⟩
            · exact Or.inr ⟨call', List.mem_cons_of_mem _ hcall', h⟩

/-- **What is around a call is a chain of calls.** -/
theorem exists_call_of_around {es : List (Boundary O C)} {call : Call O C} {p : O} {rest : List O}
    (hcall : call ∈ calls [] es) (haround : call.around = p :: rest) :
    ∃ call' ∈ calls [] es, call'.opening = p ∧ call'.around = rest := by
  rcases call_of_around hcall with ⟨k, hk⟩ | ⟨call', hcall', h⟩
  · rw [List.drop_nil, haround] at hk
    exact absurd hk (List.cons_ne_nil _ _)
  · obtain ⟨rfl, rfl⟩ := List.cons.inj (haround.symm.trans h)
    exact ⟨call', hcall', rfl, rfl⟩

/-- When the openings have distinct keys, so have a call and what is around it. -/
theorem nodup_call {key : O → κ} {outer : List O} {es : List (Boundary O C)} {call : Call O C}
    (hkeys : ((openings es).map key).Nodup) (houter : (outer.map key).Nodup)
    (hfresh : ∀ o ∈ openings es, key o ∉ outer.map key) (hcall : call ∈ calls outer es) :
    ((call.opening :: call.around).map key).Nodup := by
  induction es generalizing outer with
  | nil => exact absurd hcall List.not_mem_nil
  | cons e es ih =>
      cases e with
      | closing c =>
          have htail : (outer.tail.map key).Sublist (outer.map key) :=
            (List.tail_sublist outer).map key
          exact ih hkeys (houter.sublist htail)
            (fun o ho h => hfresh o ho (htail.subset h)) hcall
      | opening o =>
          have hhead : ((o :: outer).map key).Nodup :=
            List.nodup_cons.mpr ⟨hfresh o (List.mem_cons_self ..), houter⟩
          obtain ⟨hnew, hkeys'⟩ := List.nodup_cons.mp hkeys
          rcases List.mem_cons.mp hcall with rfl | hcall
          · exact hhead
          · refine ih hkeys' hhead ?_ hcall
            intro o' ho' hmem
            rcases List.mem_cons.mp hmem with h | h
            · exact hnew (h ▸ List.mem_map_of_mem ho')
            · exact hfresh o' (List.mem_cons_of_mem _ ho') h

end Runs
end EvidenceLab
