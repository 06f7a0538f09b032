/-
# Insertion-ordered dictionaries

A `dict` remembers the order in which its keys were first set.  `Dict κ V` is
the list of its entries, no key occurring twice, and the one way to change it
that matters for building a dictionary in a loop is `alter`: it replaces the
value at a key by a function of what is there, in place, or appends the key
(`d[k] = v`, `d.setdefault(k, v)`, and `d[k] += v`, `d[k].append(v)` of a
`defaultdict` are all instances).

A loop that alters a dictionary at one key a turn can be read off key by key
(`get?_foldl_alter`): what ends up at a key is the fold of the turns made at
that key, in their order.
-/

import Mathlib.Algebra.BigOperators.Group.List.Basic
import Mathlib.Data.List.Nodup
import Mathlib.Tactic.Common

namespace EvidenceLab
namespace Data

variable {κ V : Type*}

/-- Where keys are distinct, an element is found by its key. -/
theorem find?_key {α : Type*} [DecidableEq κ] (key : α → κ) {xs : List α} (h : (xs.map key).Nodup)
    {x : α} (hx : x ∈ xs) : xs.find? (fun y => key y = key x) = some x := by
  have hsome : (xs.find? fun y => key y = key x).isSome := by
    rw [List.find?_isSome]
    exact ⟨x, hx, decide_eq_true rfl⟩
  obtain ⟨y, hy⟩ := Option.isSome_iff_exists.mp hsome
  have hkey : key y = key x := by simpa using List.find?_some hy
  rw [hy]
  exact congrArg some (List.inj_on_of_nodup_map h (List.mem_of_find?_eq_some hy) hx hkey)

/-- An insertion-ordered dictionary. -/
structure Dict (κ V : Type*) where
  entries : List (κ × V) := []
  nodup : (entries.map Prod.fst).Nodup := by exact List.nodup_nil

namespace Dict

/-- `d.keys()`, in insertion order. -/
def keys (d : Dict κ V) : List κ := d.entries.map Prod.fst

/-- `d.values()`, in insertion order. -/
def values (d : Dict κ V) : List V := d.entries.map Prod.snd

/-- `{}`. -/
def empty : Dict κ V := {}

@[simp] theorem keys_empty : (empty : Dict κ V).keys = [] := rfl

theorem nodup_keys (d : Dict κ V) : d.keys.Nodup := d.nodup

theorem entries_injective : Function.Injective (entries : Dict κ V → List (κ × V)) := by
  rintro ⟨es, _⟩ ⟨_, _⟩ rfl
  rfl

variable [DecidableEq κ]

/-- `d.get(k)`. -/
def get? (d : Dict κ V) (k : κ) : Option V := d.entries.lookup k

@[simp] theorem get?_empty (k : κ) : (empty : Dict κ V).get? k = none := rfl

/-! ### Altering one entry -/

/-- Replaces the value at `k`, or appends `k`. -/
def alterEntries (k : κ) (f : Option V → V) : List (κ × V) → List (κ × V)
  | [] => [(k, f none)]
  | (k', v) :: es => if k' = k then (k', f (some v)) :: es else (k', v) :: alterEntries k f es

theorem map_fst_alterEntries (k : κ) (f : Option V → V) (es : List (κ × V)) :
    (alterEntries k f es).map Prod.fst =
      if k ∈ es.map Prod.fst then es.map Prod.fst else es.map Prod.fst ++ [k] := by
  induction es with
  | nil => rfl
  | cons e es ih =>
      obtain ⟨k', v⟩ := e
      rw [alterEntries]
      by_cases hk : k' = k
      · simp [hk]
      · simp only [if_neg hk, List.map_cons, ih, List.mem_cons, Ne.symm hk, false_or]
        split_ifs <;> rfl

theorem lookup_cons (k k₀ : κ) (v : V) (es : List (κ × V)) :
    ((k, v) :: es).lookup k₀ = if k₀ = k then some v else es.lookup k₀ := by
  rw [List.lookup_cons]
  by_cases h : k₀ = k
  · rw [if_pos h, beq_iff_eq.mpr h]
  · rw [if_neg h, beq_eq_false_iff_ne.mpr h]

theorem lookup_alterEntries (k k₀ : κ) (f : Option V → V) (es : List (κ × V)) :
    (alterEntries k f es).lookup k₀ =
      if k₀ = k then some (f (es.lookup k)) else es.lookup k₀ := by
  induction es with
  | nil => exact lookup_cons ..
  | cons e es ih =>
      obtain ⟨k', v⟩ := e
      rw [alterEntries]
      by_cases hk : k' = k
      · subst hk
        simp only [if_true, lookup_cons]
        split_ifs <;> rfl
      · simp only [if_neg hk, lookup_cons, ih, if_neg (Ne.symm hk)]
        by_cases h : k₀ = k'
        · simp only [h, if_true, if_neg hk]
        · simp only [if_neg h]

/-- `d[k] = f(d.get(k))`. -/
def alter (d : Dict κ V) (k : κ) (f : Option V → V) : Dict κ V where
  entries := alterEntries k f d.entries
  nodup := by
    rw [map_fst_alterEntries]
    split_ifs with h
    · exact d.nodup
    · exact d.nodup.append (List.nodup_singleton k) (by simpa using h)

/-- `d[k] = v`. -/
def set (d : Dict κ V) (k : κ) (v : V) : Dict κ V := d.alter k fun _ => v

/-- `d.setdefault(k, v)`. -/
def setDefault (d : Dict κ V) (k : κ) (v : V) : Dict κ V := d.alter k fun o => o.getD v

theorem get?_alter (d : Dict κ V) (k k₀ : κ) (f : Option V → V) :
    (d.alter k f).get? k₀ = if k₀ = k then some (f (d.get? k)) else d.get? k₀ :=
  lookup_alterEntries k k₀ f d.entries

@[simp] theorem get?_set (d : Dict κ V) (k k₀ : κ) (v : V) :
    (d.set k v).get? k₀ = if k₀ = k then some v else d.get? k₀ := get?_alter ..

theorem keys_alter (d : Dict κ V) (k : κ) (f : Option V → V) :
    (d.alter k f).keys = if k ∈ d.keys then d.keys else d.keys ++ [k] :=
  map_fst_alterEntries k f d.entries

theorem keys_alter_of_not_mem {d : Dict κ V} {k : κ} {f : Option V → V} (h : k ∉ d.keys) :
    (d.alter k f).keys = d.keys ++ [k] :=
  (keys_alter d k f).trans (if_neg h)

theorem mem_keys_alter {d : Dict κ V} {k k₀ : κ} {f : Option V → V} :
    k₀ ∈ (d.alter k f).keys ↔ k₀ ∈ d.keys ∨ k₀ = k := by
  rw [keys_alter]
  split_ifs with h
  · exact ⟨Or.inl, fun hk => hk.elim id fun hk => hk ▸ h⟩
  · simp

/-! ### Loops that alter -/

section Fold

variable {α : Type*} (key : α → κ) (f : Option V → α → V)

/-- The turns of a loop that are made at the key `k`. -/
def turns (xs : List α) (k : κ) : List α := xs.filter fun x => key x = k

/-- **A loop, read off at one key.** -/
theorem get?_foldl_alter (xs : List α) (d : Dict κ V) (k : κ) :
    (xs.foldl (fun d x => d.alter (key x) fun o => f o x) d).get? k =
      (turns key xs k).foldl (fun o x => some (f o x)) (d.get? k) := by
  induction xs generalizing d with
  | nil => rfl
  | cons x xs ih =>
      rw [List.foldl_cons, ih, get?_alter, turns, turns, List.filter_cons]
      by_cases h : key x = k
      · rw [if_pos h.symm, if_pos (by simpa using h), List.foldl_cons, h]
      · rw [if_neg (Ne.symm h), if_neg (by simpa using h)]

/-- The keys of a loop are the keys of its turns. -/
theorem mem_keys_foldl_alter {xs : List α} {d : Dict κ V} {k : κ} :
    k ∈ (xs.foldl (fun d x => d.alter (key x) fun o => f o x) d).keys ↔
      k ∈ d.keys ∨ k ∈ xs.map key := by
  induction xs generalizing d with
  | nil => simp
  | cons x xs ih =>
      rw [List.foldl_cons, ih, mem_keys_alter, List.map_cons, List.mem_cons, or_assoc]

/-- Keys that are all new are set in their order. -/
theorem keys_foldl_alter {xs : List α} {d : Dict κ V} (h : (d.keys ++ xs.map key).Nodup) :
    (xs.foldl (fun d x => d.alter (key x) fun o => f o x) d).keys = d.keys ++ xs.map key := by
  induction xs generalizing d with
  | nil => simp
  | cons x xs ih =>
      have hnew : key x ∉ d.keys := fun hmem =>
        (List.nodup_append.mp h).2.2 _ hmem _ (List.mem_cons_self ..) rfl
      have hkeys := keys_alter_of_not_mem (f := fun o => f o x) hnew
      rw [List.foldl_cons, ih, hkeys, List.append_assoc]
      · rfl
      · rw [hkeys, List.append_assoc]
        exact h

/-- **A loop of assignments** leaves at a key the one value that is assigned there. -/
theorem get?_foldl_set {es : List (κ × V)} {k : κ} {v : V} (hmem : (k, v) ∈ es)
    (huniq : ∀ w, (k, w) ∈ es → w = v) :
    (es.foldl (fun d e => d.set e.1 e.2) empty).get? k = some v := by
  have hget := get?_foldl_alter (fun e : κ × V => e.1) (fun _ e => e.2) es empty k
  have hturn : (k, v) ∈ turns (fun e : κ × V => e.1) es k :=
    List.mem_filter.mpr ⟨hmem, decide_eq_true rfl⟩
  obtain ⟨front, last, hcut⟩ :=
    (List.eq_nil_or_concat _).resolve_left (List.ne_nil_of_mem hturn)
  have hlast : last ∈ turns (fun e : κ × V => e.1) es k := by simp [hcut]
  obtain ⟨hl, hk⟩ := List.mem_filter.mp hlast
  refine hget.trans ?_
  rw [hcut, List.concat_eq_append, List.foldl_append, List.foldl_cons, List.foldl_nil]
  exact congrArg some (huniq last.2 (of_decide_eq_true hk ▸ hl))

end Fold

/-- A loop that accumulates in a default dictionary folds its turns. -/
theorem getD_foldl {β : Type*} (f : V → β → V) (v : V) (ys : List β) (o : Option V) :
    (ys.foldl (fun o y => some (f (o.getD v) y)) o).getD v = ys.foldl f (o.getD v) := by
  induction ys generalizing o with
  | nil => rfl
  | cons y ys ih => exact ih _

/-- A loop that appends to a default dictionary collects its turns. -/
theorem foldl_append (ys : List V) (o : Option (List V)) (h : ys ≠ []) :
    ys.foldl (fun o y => some (o.getD [] ++ [y])) o = some (o.getD [] ++ ys) := by
  induction ys generalizing o with
  | nil => exact absurd rfl h
  | cons y ys ih =>
      rw [List.foldl_cons]
      rcases eq_or_ne ys [] with rfl | hys
      · simp
      · rw [ih _ hys, Option.getD_some, List.append_assoc, List.singleton_append]

/-- A loop that only sets a default keeps its first turn. -/
theorem foldl_setDefault (ys : List V) (o : Option V) :
    ys.foldl (fun o y => some (o.getD y)) o = o.or ys.head? := by
  induction ys generalizing o with
  | nil => simp
  | cons y ys ih =>
      rw [List.foldl_cons, ih]
      cases o <;> rfl

/-! ### Reading keys -/

/-- Nothing is at a key that was never set. -/
theorem get?_of_not_mem_keys {d : Dict κ V} {k : κ} (h : k ∉ d.keys) : d.get? k = none := by
  refine List.lookup_eq_none_iff.mpr ?_
  intro e he
  rw [bne_iff_ne]
  rintro rfl
  exact h (List.mem_map_of_mem he)

theorem lookup_eq_find? (es : List (κ × V)) (k : κ) :
    es.lookup k = (es.find? fun e => e.1 = k).map Prod.snd := by
  induction es with
  | nil => rfl
  | cons e es ih =>
      rw [lookup_cons, List.find?_cons]
      by_cases h : e.1 = k
      · rw [if_pos h.symm, decide_eq_true h]
        rfl
      · rw [if_neg (Ne.symm h), decide_eq_false h]
        exact ih

/-- What is at a key is its entry. -/
theorem get?_eq_some_iff {d : Dict κ V} {k : κ} {v : V} :
    d.get? k = some v ↔ (k, v) ∈ d.entries := by
  rw [get?, lookup_eq_find?]
  constructor
  · intro h
    obtain ⟨e, he, rfl⟩ := Option.map_eq_some_iff.mp h
    have hkey : e.1 = k := by simpa using List.find?_some he
    exact hkey ▸ List.mem_of_find?_eq_some he
  · intro h
    exact congrArg (Option.map Prod.snd) (find?_key Prod.fst d.nodup h)

/-- A key that is there has a value. -/
theorem isSome_get? {d : Dict κ V} {k : κ} : (d.get? k).isSome = true ↔ k ∈ d.keys := by
  constructor
  · intro h
    by_contra hk
    rw [get?_of_not_mem_keys hk] at h
    cases h
  · intro h
    obtain ⟨e, he, rfl⟩ := List.mem_map.mp h
    rw [get?_eq_some_iff.mpr he]
    rfl

/-- A loop over keys that assigns at each what depends on the key alone. -/
theorem get?_foldl_set_keys (f : κ → V) (ks : List κ) (d : Dict κ V) (k : κ) :
    (ks.foldl (fun d k => d.set k (f k)) d).get? k =
      if k ∈ ks then some (f k) else d.get? k := by
  induction ks generalizing d with
  | nil => rfl
  | cons k' ks ih =>
      rw [List.foldl_cons, ih, get?_set]
      by_cases hmem : k ∈ ks
      · rw [if_pos hmem, if_pos (List.mem_cons_of_mem _ hmem)]
      · by_cases hk : k = k'
        · rw [if_neg hmem, if_pos hk, if_pos (hk ▸ List.mem_cons_self ..), hk]
        · rw [if_neg hmem, if_neg hk, if_neg (by simp [hk, hmem])]

/-- An assignment at a key that is there changes its value in place. -/
theorem entries_set_of_mem {d : Dict κ V} {k : κ} (v : V) (h : k ∈ d.keys) :
    (d.set k v).entries = d.entries.map fun e => (e.1, if e.1 = k then v else e.2) := by
  have haway : ∀ es : List (κ × V), k ∉ es.map Prod.fst →
      es.map (fun e => (e.1, if e.1 = k then v else e.2)) = es := by
    intro es hk
    refine (List.map_congr_left fun e he => ?_).trans (List.map_id es)
    have hne : e.1 ≠ k := by
      rintro rfl
      exact hk (List.mem_map_of_mem he)
    rw [if_neg hne]
    rfl
  have halter : ∀ es : List (κ × V), (es.map Prod.fst).Nodup → k ∈ es.map Prod.fst →
      alterEntries k (fun _ => v) es = es.map fun e => (e.1, if e.1 = k then v else e.2) := by
    intro es
    induction es with
    | nil => exact fun _ hk => absurd hk List.not_mem_nil
    | cons e es ih =>
        intro hnodup hk
        obtain ⟨hfirst, hrest⟩ := List.nodup_cons.mp hnodup
        obtain ⟨k', v'⟩ := e
        rw [alterEntries, List.map_cons]
        by_cases hkey : k' = k
        · rw [if_pos hkey, if_pos hkey, haway es (hkey ▸ hfirst)]
        · have hin := (List.mem_cons.mp hk).resolve_left (Ne.symm hkey)
          rw [if_neg hkey, if_neg hkey, ih hrest hin]
  exact halter d.entries d.nodup h

/-- **A loop of assignments at keys that are there** changes values in place. -/
theorem entries_foldl_set {ks : List κ} {d : Dict κ V} (v : V) (h : ∀ k ∈ ks, k ∈ d.keys) :
    (ks.foldl (fun d k => d.set k v) d).entries =
      d.entries.map fun e => (e.1, if e.1 ∈ ks then v else e.2) := by
  induction ks generalizing d with
  | nil => simp
  | cons k ks ih =>
      obtain ⟨hk, hks⟩ := List.forall_mem_cons.mp h
      have hkeys : (d.set k v).keys = d.keys := (keys_alter d k _).trans (if_pos hk)
      rw [List.foldl_cons, ih fun k' hk' => hkeys ▸ hks k' hk', entries_set_of_mem v hk,
        List.map_map]
      refine List.map_congr_left fun e _ => Prod.ext rfl ?_
      by_cases hmem : e.1 ∈ ks
      · rw [Function.comp, if_pos hmem, if_pos (List.mem_cons_of_mem _ hmem)]
      · rw [Function.comp, if_neg hmem]
        exact if_congr (by rw [List.mem_cons, or_iff_left hmem]) rfl rfl

/-- The keys that loops over lists of keys collect. -/
theorem mem_keys_collect (kss : List (List κ)) (k : κ) :
    k ∈ (kss.foldl (fun d ks => ks.foldl (fun d k => d.setDefault k ()) d)
      (empty : Dict κ Unit)).keys ↔ ∃ ks ∈ kss, k ∈ ks := by
  have hloop : ∀ (kss : List (List κ)) (d : Dict κ Unit),
      k ∈ (kss.foldl (fun d ks => ks.foldl (fun d k => d.setDefault k ()) d) d).keys ↔
        k ∈ d.keys ∨ ∃ ks ∈ kss, k ∈ ks := by
    intro kss
    induction kss with
    | nil => simp
    | cons ks kss ih =>
        intro d
        have hkeys : k ∈ (ks.foldl (fun d k => d.setDefault k ()) d).keys ↔ _ :=
          mem_keys_foldl_alter (fun k : κ => k) (fun o _ => o.getD ())
        rw [List.map_id'] at hkeys
        rw [List.foldl_cons, ih]
        simp only [List.mem_cons, exists_eq_or_imp, ← or_assoc]
        exact or_congr_left hkeys
  refine (hloop kss empty).trans ?_
  rw [keys_empty]
  exact or_iff_right List.not_mem_nil

/-- The dictionary with its keys renamed. -/
def mapKeys {κ' : Type*} (f : κ → κ') (hf : Function.Injective f) (d : Dict κ V) : Dict κ' V where
  entries := d.entries.map fun e => (f e.1, e.2)
  nodup := by
    have h := d.nodup.map hf
    rw [List.map_map] at h ⊢
    exact h

omit [DecidableEq κ] in
theorem keys_mapKeys {κ' : Type*} (f : κ → κ') (hf : Function.Injective f) (d : Dict κ V) :
    (d.mapKeys f hf).keys = d.keys.map f := by
  rw [keys, keys, mapKeys, List.map_map, List.map_map]
  rfl

theorem get?_mapKeys {κ' : Type*} [DecidableEq κ'] (f : κ → κ') (hf : Function.Injective f)
    (d : Dict κ V) (k : κ) : (d.mapKeys f hf).get? (f k) = d.get? k := by
  have hlookup : ∀ es : List (κ × V),
      (es.map fun e => (f e.1, e.2)).lookup (f k) = es.lookup k := by
    intro es
    induction es with
    | nil => rfl
    | cons e es ih =>
        rw [List.map_cons, lookup_cons, lookup_cons, ih]
        simp only [hf.eq_iff]
  exact hlookup d.entries

/-! ### Groups -/

section Groups

variable {α M : Type*} [AddCommMonoid M]

/-- The groups of a list of pairs with a common key, as `setdefault(key, []).append` makes
them. -/
def groups (es : List (κ × α)) : Dict κ (List α) :=
  es.foldl (fun d e => d.alter e.1 fun o => o.getD [] ++ [e.2]) empty

/-- The values that are paired with a key. -/
def group (es : List (κ × α)) (k : κ) : List α := (es.filter fun e => e.1 = k).map Prod.snd

/-- **A group** holds what is paired with its key. -/
theorem get?_groups (es : List (κ × α)) (k : κ) :
    (groups es).get? k = if k ∈ es.map Prod.fst then some (group es k) else none := by
  have hloop := get?_foldl_alter (fun e : κ × α => e.1) (fun o e => o.getD [] ++ [e.2]) es empty k
  have hmap : (turns (fun e : κ × α => e.1) es k).foldl
      (fun o e => some (o.getD [] ++ [e.2])) none = ((turns (fun e => e.1) es k).map
        Prod.snd).foldl (fun o y => some (o.getD [] ++ [y])) none := by
    rw [List.foldl_map]
  refine hloop.trans (hmap.trans ?_)
  by_cases hmem : k ∈ es.map Prod.fst
  · obtain ⟨e, he, rfl⟩ := List.mem_map.mp hmem
    have hturn : e ∈ turns (fun e : κ × α => e.1) es e.1 :=
      List.mem_filter.mpr ⟨he, decide_eq_true rfl⟩
    rw [if_pos hmem, foldl_append _ _ (List.ne_nil_of_mem (List.mem_map_of_mem hturn))]
    rfl
  · have hnone : turns (fun e : κ × α => e.1) es k = [] := by
      refine List.filter_eq_nil_iff.mpr ?_
      intro e he hkey
      exact hmem (of_decide_eq_true hkey ▸ List.mem_map_of_mem he)
    rw [if_neg hmem, hnone]
    rfl

/-- To append to a group and to map the groups is to map them and append. -/
theorem alterEntries_map {β : Type*} (f : α → β) (k : κ) (a : α) (es : List (κ × List α)) :
    alterEntries k (fun o => o.getD [] ++ [f a]) (es.map (Prod.map id (List.map f))) =
      (alterEntries k (fun o => o.getD [] ++ [a]) es).map (Prod.map id (List.map f)) := by
  induction es with
  | nil => rfl
  | cons e es ih =>
      rw [List.map_cons, alterEntries, alterEntries]
      by_cases h : e.1 = k
      · rw [if_pos (show (Prod.map id (List.map f) e).1 = k from h), if_pos h, List.map_cons]
        simp
      · rw [if_neg (show ¬ (Prod.map id (List.map f) e).1 = k from h), if_neg h, List.map_cons, ih]

/-- The groups of what is mapped. -/
theorem entries_groups_map {β : Type*} (f : α → β) (es : List (κ × α)) :
    (groups (es.map (Prod.map id f))).entries =
      (groups es).entries.map (Prod.map id (List.map f)) := by
  have hloop : ∀ (es : List (κ × α)) (d : Dict κ (List α)) (d' : Dict κ (List β)),
      d'.entries = d.entries.map (Prod.map id (List.map f)) →
      ((es.map (Prod.map id f)).foldl (fun d e => d.alter e.1 fun o => o.getD [] ++ [e.2])
        d').entries = (es.foldl (fun d e => d.alter e.1 fun o => o.getD [] ++ [e.2])
          d).entries.map (Prod.map id (List.map f)) := by
    intro es
    induction es with
    | nil => exact fun _ _ h => h
    | cons e es ih =>
        intro d d' h
        refine ih _ _ ?_
        show alterEntries e.1 _ d'.entries = _
        rw [h]
        exact alterEntries_map f e.1 e.2 d.entries
  exact hloop es empty empty rfl

theorem group_map {β : Type*} (f : α → β) (es : List (κ × α)) (k : κ) :
    group (es.map (Prod.map id f)) k = (group es k).map f := by
  rw [group, group, List.filter_map, List.map_map, List.map_map]
  rfl

/-- A measure of lists that adds up over concatenation. -/
structure Additive (F : List α → M) : Prop where
  nil : F [] = 0
  append : ∀ xs ys, F (xs ++ ys) = F xs + F ys

/-- Appending to one group adds to the sum over the groups. -/
theorem Additive.sum_alterEntries {F : List α → M} (hF : Additive F) (k : κ) (x : α)
    (es : List (κ × List α)) :
    ((alterEntries k (fun o => o.getD [] ++ [x]) es).map fun e => F e.2).sum =
      (es.map fun e => F e.2).sum + F [x] := by
  induction es with
  | nil => simp [alterEntries]
  | cons e es ih =>
      obtain ⟨k', xs⟩ := e
      rw [alterEntries]
      by_cases hk : k' = k
      · rw [if_pos hk]
        simp only [Option.getD_some, List.map_cons, List.sum_cons, hF.append]
        exact add_right_comm ..
      · rw [if_neg hk, List.map_cons, List.sum_cons, ih, List.map_cons, List.sum_cons, add_assoc]

/-- **The measures of the groups add up to the measure of all.** -/
theorem Additive.sum_groups {F : List α → M} (hF : Additive F) (es : List (κ × α)) :
    ((groups es).entries.map fun e => F e.2).sum = F (es.map Prod.snd) := by
  have hloop : ∀ (es : List (κ × α)) (d : Dict κ (List α)),
      ((es.foldl (fun d e => d.alter e.1 fun o => o.getD [] ++ [e.2]) d).entries.map
        fun e => F e.2).sum = (d.entries.map fun e => F e.2).sum + F (es.map Prod.snd) := by
    intro es
    induction es with
    | nil =>
        intro d
        rw [List.map_nil, hF.nil, add_zero]
        rfl
    | cons e es ih =>
        intro d
        have hcons : F (e.2 :: es.map Prod.snd) = F [e.2] + F (es.map Prod.snd) :=
          hF.append [e.2] _
        rw [List.foldl_cons, ih, alter, hF.sum_alterEntries, List.map_cons, hcons, add_assoc]
  refine (hloop es empty).trans ?_
  exact zero_add _

end Groups

end Dict
end Data
end EvidenceLab
