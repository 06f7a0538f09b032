/-
# Queries

A table is a list of rows, each with a key of its own, in no order that matters.  A query
selects rows and may ask for an order; rows that are tied in it come in an order of the
engine's choice.  What is assumed of an engine is that it is exact: its choice depends on
the rows that are selected alone.  So two tables that have these rows in common answer a
query alike (`Engine.select_congr`), however they are stored and whatever else they hold.
-/

import EvidenceLab.Data.Sorting

namespace EvidenceLab
namespace Data

/-- A database engine: the order in which it gives rows back that are asked for in none. -/
structure Engine (κ : Type) where
  arrange : {α : Type} → (α → κ) → List α → List α
  perm : ∀ {α : Type} (key : α → κ) (rows : List α), (arrange key rows).Perm rows
  congr : ∀ {α : Type} {key : α → κ} {rows rows' : List α}, (rows.map key).Nodup →
    rows.Perm rows' → arrange key rows = arrange key rows'

/-- An engine that gives rows back in the order of their keys. -/
def Engine.byKey (κ : Type) [LinearOrder κ] : Engine κ where
  arrange key rows := rows.insertionSort fun a b => key a ≤ key b
  perm key rows := List.perm_insertionSort _ _
  congr := by
    intro α key rows rows' hnodup hperm
    have : IsTrans α fun a b => key a ≤ key b := ⟨fun _ _ _ => le_trans⟩
    have : Std.Total fun a b : α => key a ≤ key b := ⟨fun _ _ => le_total _ _⟩
    have hsorted := List.pairwise_insertionSort fun a b : α => key a ≤ key b
    have hsorts := List.perm_insertionSort fun a b : α => key a ≤ key b
    have hnodup' := (((hsorts rows').trans hperm.symm).map key).nodup_iff.mpr hnodup
    refine eq_of_perm ((hsorts rows).trans (hperm.trans (hsorts rows').symm)) (hsorted rows) ?_
    refine ((hsorted rows').and (List.pairwise_map.mp hnodup')).imp ?_
    rintro a b ⟨hle, hne⟩
    exact lt_of_le_of_ne hle hne

/-! ### Rows in common -/

section Scope

variable {α β : Type} {rows rows' : List α} {scope p : α → Bool}

/-- Tables that agree within a scope agree on what is selected inside it. -/
theorem filter_perm_of_scope (h : (rows.filter scope).Perm (rows'.filter scope))
    (hrows : ∀ r ∈ rows, p r → scope r) (hrows' : ∀ r ∈ rows', p r → scope r) :
    (rows.filter p).Perm (rows'.filter p) := by
  have hinside : ∀ {table : List α}, (∀ r ∈ table, p r → scope r) →
      (table.filter scope).filter p = table.filter p := by
    intro table htable
    rw [List.filter_filter]
    refine List.filter_congr fun r hr => ?_
    cases hp : p r with
    | false => rfl
    | true => exact htable r hr hp
  rw [← hinside hrows, ← hinside hrows']
  exact h.filter p

theorem filterMap_perm_of_scope {f : α → Option β}
    (h : (rows.filter scope).Perm (rows'.filter scope))
    (hrows : ∀ r ∈ rows, (f r).isSome → scope r) (hrows' : ∀ r ∈ rows', (f r).isSome → scope r) :
    (rows.filterMap f).Perm (rows'.filterMap f) := by
  have hselected : ∀ table : List α,
      (table.filter fun r => (f r).isSome).filterMap f = table.filterMap f := by
    intro table
    rw [List.filterMap_filter]
    refine List.filterMap_congr fun r _ => ?_
    cases f r <;> rfl
  rw [← hselected rows, ← hselected rows']
  exact (filter_perm_of_scope h hrows hrows').filterMap f

end Scope

namespace Engine

variable {κ α : Type} (engine : Engine κ) (key : α → κ) (p : α → Bool) (le : α → α → Bool)

/-- `ORDER BY`. -/
def orderBy (rows : List α) : List α := (engine.arrange key rows).mergeSort le

/-- `SELECT … WHERE … ORDER BY …`. -/
def select (rows : List α) : List α := engine.orderBy key le (rows.filter p)

/-- The first row of `SELECT … WHERE …`, if there is one. -/
def scalar (rows : List α) : Option α := (engine.arrange key (rows.filter p)).head?

variable {engine key p le} {rows rows' : List α} {r : α}

theorem perm_orderBy : (engine.orderBy key le rows).Perm rows :=
  (List.mergeSort_perm _ _).trans (engine.perm key rows)

theorem of_scalar (h : engine.scalar key p rows = some r) : r ∈ rows ∧ p r = true :=
  List.mem_filter.mp ((engine.perm key _).mem_iff.mp (List.mem_of_mem_head? h))

theorem scalar_eq_none : engine.scalar key p rows = none ↔ ∀ r ∈ rows, p r = false := by
  rw [scalar, List.head?_eq_none_iff, ← List.length_eq_zero_iff, (engine.perm key _).length_eq,
    List.length_eq_zero_iff, List.filter_eq_nil_iff]
  simp only [Bool.not_eq_true]

theorem orderBy_congr (hkey : (rows.map key).Nodup) (h : rows.Perm rows') :
    engine.orderBy key le rows = engine.orderBy key le rows' := by
  rw [orderBy, orderBy, engine.congr hkey h]

/-- The keys of selected rows are distinct. -/
theorem nodup_filter (hkey : (rows.map key).Nodup) : ((rows.filter p).map key).Nodup :=
  hkey.sublist (List.filter_sublist.map key)

/-- **The same rows selected give the same answer.** -/
theorem select_congr (hkey : (rows.map key).Nodup) (h : (rows.filter p).Perm (rows'.filter p)) :
    engine.select key p le rows = engine.select key p le rows' :=
  orderBy_congr (nodup_filter hkey) h

theorem scalar_congr (hkey : (rows.map key).Nodup) (h : (rows.filter p).Perm (rows'.filter p)) :
    engine.scalar key p rows = engine.scalar key p rows' := by
  rw [scalar, scalar, engine.congr (nodup_filter hkey) h]

end Engine

end Data
end EvidenceLab
