/-
# What a strategy adds

`build_comparison` fills a table of ranks and one of scores, hit by hit, a strategy that has
not returned a chunk standing there with nothing.  Where the names are distinct and no strategy
returns a chunk twice, each table says of a chunk and a strategy what the results say
(`get?_table`); and what is unique to a strategy is what is lost without it
(`comparison_agrees`).
-/

import EvidenceLab.Visualization.Comparison
import Mathlib.Data.List.Dedup
import Mathlib.Data.Prod.Lex
import Mathlib.Order.Bounds.Basic

namespace EvidenceLab
namespace Visualization

open Text Data

/-! ### Results -/

namespace StrategyResult

variable (result : StrategyResult)

/-- The ids of the hits, in rank order. -/
def ids : List Str := result.hits.map (·.1)

/-- The hit of a chunk, with its rank. -/
def hitOf? (chunkId : Str) : Option ((Str × Str × ℚ) × ℕ) :=
  result.hits.zipIdx.find? (·.1.1 = chunkId)

/-- The rank of a chunk, if it was returned. -/
def rankOf? (chunkId : Str) : Option ℕ := (result.hitOf? chunkId).map (·.2)

/-- The score of a chunk, if it was returned. -/
def scoreOf? (chunkId : Str) : Option ℚ := (result.hitOf? chunkId).map (·.1.2.2)

theorem isSome_hitOf? {chunkId : Str} : (result.hitOf? chunkId).isSome ↔ chunkId ∈ result.ids := by
  rw [hitOf?, List.find?_isSome, ids, List.mem_map]
  constructor
  · rintro ⟨entry, hentry, hid⟩
    exact ⟨entry.1, List.fst_mem_of_mem_zipIdx hentry, of_decide_eq_true hid⟩
  · rintro ⟨hit, hhit, hid⟩
    obtain ⟨i, hi⟩ := List.mem_iff_getElem?.mp hhit
    exact ⟨(hit, i), List.mem_zipIdx_iff_getElem?.mpr hi, decide_eq_true hid⟩

variable {result}

/-- A chunk that is returned once has one hit. -/
theorem hitOf?_eq (h : result.ids.Nodup) {entry : (Str × Str × ℚ) × ℕ}
    (hentry : entry ∈ result.hits.zipIdx) : result.hitOf? entry.1.1 = some entry := by
  have hkeys : (result.hits.zipIdx.map fun entry => entry.1.1) = result.ids := by
    have hhits := congrArg (List.map fun hit : Str × Str × ℚ => hit.1)
      (List.zipIdx_map_fst 0 result.hits)
    rw [List.map_map] at hhits
    exact hhits
  exact find?_key (fun entry : (Str × Str × ℚ) × ℕ => entry.1.1) (hkeys ▸ h) hentry

end StrategyResult

/-- The names are distinct, and no result has a chunk twice. -/
structure Distinct (results : List StrategyResult) : Prop where
  names : (results.map (·.strategy)).Nodup
  hits : ∀ result ∈ results, result.ids.Nodup

/-- The turns of the loops: a strategy, and a hit with its rank. -/
def events (results : List StrategyResult) : List (Str × (Str × Str × ℚ) × ℕ) :=
  results.flatMap fun result => result.hits.zipIdx.map fun entry => (result.strategy, entry)

theorem mem_events {results : List StrategyResult} {event : Str × (Str × Str × ℚ) × ℕ} :
    event ∈ events results ↔
      ∃ result ∈ results, result.strategy = event.1 ∧ event.2 ∈ result.hits.zipIdx := by
  rw [events, List.mem_flatMap]
  refine exists_congr fun result => and_congr_right fun _ => ?_
  rw [List.mem_map]
  constructor
  · rintro ⟨entry, hentry, rfl⟩
    exact ⟨rfl, hentry⟩
  · rintro ⟨hname, hentry⟩
    exact ⟨event.2, hentry, Prod.ext hname rfl⟩

/-! ### Tables -/

section Tables

variable {V : Type} (names : List Str) (value : (Str × Str × ℚ) × ℕ → V)

/-- A table, by chunk and strategy. -/
def table (es : List (Str × (Str × Str × ℚ) × ℕ)) : Dict Str (Dict Str (Option V)) :=
  es.foldl (fun d event => d.alter event.2.1.1 fun o =>
    (o.getD (fromKeys names none)).set event.1 (some (value event.2))) Dict.empty

/-- A loop that starts from a default. -/
theorem foldl_getD {α β : Type} (f : β → α → β) (base : β) (ys : List α) (h : ys ≠ []) :
    ys.foldl (fun o y => some (f (o.getD base) y)) none = some (ys.foldl f base) := by
  have hloop : ∀ (ys : List α) (b : β),
      ys.foldl (fun o y => some (f (o.getD base) y)) (some b) = some (ys.foldl f b) := by
    intro ys
    induction ys with
    | nil => exact fun b => rfl
    | cons y ys ih => exact fun b => ih (f b y)
  cases ys with
  | nil => exact absurd rfl h
  | cons y ys => exact hloop ys (f base y)

theorem keys_foldl_set {α : Type} {d : Dict Str V} {key : α → Str} {f : α → V} {ys : List α}
    (h : ∀ y ∈ ys, key y ∈ d.keys) :
    (ys.foldl (fun d y => d.set (key y) (f y)) d).keys = d.keys := by
  induction ys generalizing d with
  | nil => rfl
  | cons y ys ih =>
      have hset : (d.set (key y) (f y)).keys = d.keys := by
        rw [Dict.set, Dict.keys_alter, if_pos (h y (List.mem_cons_self ..))]
      rw [List.foldl_cons, ih, hset]
      intro y' hy'
      rw [hset]
      exact h y' (List.mem_cons_of_mem _ hy')

theorem keys_fromKeys {names : List Str} (h : names.Nodup) (v : V) :
    (fromKeys names v).keys = names := by
  have hloop : ∀ (names : List Str) (d : Dict Str V), (d.keys ++ names).Nodup →
      (names.foldl (fun d key => d.set key v) d).keys = d.keys ++ names := by
    intro names
    induction names with
    | nil => exact fun d _ => (List.append_nil _).symm
    | cons name names ih =>
        intro d hnodup
        have hnew : name ∉ d.keys := fun hmem =>
          List.disjoint_of_nodup_append hnodup hmem (List.mem_cons_self ..)
        have hset : (d.set name v).keys = d.keys ++ [name] := by
          rw [Dict.set, Dict.keys_alter, if_neg hnew]
        rw [List.foldl_cons, ih, hset, List.append_assoc, List.singleton_append]
        rw [hset, List.append_assoc, List.singleton_append]
        exact hnodup
  exact hloop names Dict.empty h

theorem get?_fromKeys {names : List Str} {name : Str} (h : name ∈ names) (v : V) :
    (fromKeys names v).get? name = some v := by
  rw [fromKeys, Dict.get?_foldl_set_keys (fun _ => v), if_pos h]

/-- A loop of assignments of one value. -/
theorem foldl_some {α β : Type} {g : α → β} {w : β} {ys : List α} (h : ∀ y ∈ ys, g y = w)
    (hne : ys ≠ []) (o : Option β) : ys.foldl (fun _ y => some (g y)) o = some w := by
  induction ys generalizing o with
  | nil => exact absurd rfl hne
  | cons y ys ih =>
      rw [List.foldl_cons, h y (List.mem_cons_self ..)]
      rcases eq_or_ne ys [] with rfl | hys
      · rfl
      · exact ih (fun y' hy' => h y' (List.mem_cons_of_mem _ hy')) hys _

variable {results : List StrategyResult} {chunkId : Str}

/-- The hits of a chunk by a strategy are the one that its result has. -/
theorem mem_turns_iff (h : Distinct results) {result : StrategyResult} (hresult : result ∈ results)
    {event : Str × (Str × Str × ℚ) × ℕ} :
    event ∈ events results ∧ event.2.1.1 = chunkId ∧ event.1 = result.strategy ↔
      event.1 = result.strategy ∧ result.hitOf? chunkId = some event.2 := by
  rw [mem_events]
  constructor
  · rintro ⟨⟨other, hother, hname, hentry⟩, rfl, hstrategy⟩
    obtain rfl : other = result :=
      List.inj_on_of_nodup_map h.names hother hresult (hname.trans hstrategy)
    exact ⟨hstrategy, StrategyResult.hitOf?_eq (h.hits _ hother) hentry⟩
  · rintro ⟨hstrategy, hhit⟩
    have hid : event.2.1.1 = chunkId := by simpa using List.find?_some hhit
    exact ⟨⟨result, hresult, hstrategy.symm, List.mem_of_find?_eq_some hhit⟩, hid, hstrategy⟩

/-- A loop over hits of a chunk, all of them the one that a result has. -/
theorem foldl_hits (name : Str) {hit : Option ((Str × Str × ℚ) × ℕ)}
    {ts : List (Str × (Str × Str × ℚ) × ℕ)}
    (h : ∀ event, event ∈ ts ↔ event.1 = name ∧ hit = some event.2) :
    ts.foldl (fun _ event => some (some (value event.2))) (some none) = some (hit.map value) := by
  cases hhit : hit with
  | none =>
      have hnone : ts = [] := by
        refine List.eq_nil_iff_forall_not_mem.mpr ?_
        intro event hevent
        rw [h, hhit] at hevent
        cases hevent.2
      rw [hnone]
      rfl
  | some entry =>
      refine foldl_some ?_ (List.ne_nil_of_mem ((h (name, entry)).mpr ⟨rfl, hhit⟩)) _
      intro event hevent
      have hsame := ((h event).mp hevent).2
      rw [hhit] at hsame
      rw [Option.some.inj hsame]
      rfl

/-- **A table says what the results say.** -/
theorem get?_table (h : Distinct results) (hfound : ∃ result ∈ results, chunkId ∈ result.ids) :
    ∃ d, (table (results.map (·.strategy)) value (events results)).get? chunkId = some d ∧
      d.keys = results.map (·.strategy) ∧
      ∀ result ∈ results, d.get? result.strategy =
        some ((result.hitOf? chunkId).map value) := by
  have hget := Dict.get?_foldl_alter (fun event : Str × (Str × Str × ℚ) × ℕ => event.2.1.1)
    (fun o event => (o.getD (fromKeys (results.map (·.strategy)) none)).set event.1
      (some (value event.2))) (events results) Dict.empty chunkId
  have hturns : Dict.turns (fun event : Str × (Str × Str × ℚ) × ℕ => event.2.1.1)
      (events results) chunkId ≠ [] := by
    obtain ⟨result, hresult, hmem⟩ := hfound
    obtain ⟨entry, hentry⟩ := Option.isSome_iff_exists.mp (result.isSome_hitOf?.mpr hmem)
    have hevent : (result.strategy, entry) ∈ events results ∧ entry.1.1 = chunkId ∧ _ :=
      (mem_turns_iff h hresult).mpr ⟨rfl, hentry⟩
    exact List.ne_nil_of_mem (List.mem_filter.mpr ⟨hevent.1, decide_eq_true hevent.2.1⟩)
  refine ⟨_, hget.trans (foldl_getD (fun (d : Dict Str (Option V))
    (event : Str × (Str × Str × ℚ) × ℕ) => d.set event.1 (some (value event.2))) _ _ hturns),
    ?_, ?_⟩
  · rw [keys_foldl_set, keys_fromKeys h.names]
    intro event hevent
    obtain ⟨result, hresult, hname, -⟩ := mem_events.mp (List.mem_filter.mp hevent).1
    rw [keys_fromKeys h.names, ← hname]
    exact List.mem_map_of_mem hresult
  · intro result hresult
    refine (Dict.get?_foldl_alter (fun event : Str × (Str × Str × ℚ) × ℕ => event.1)
      (fun _ event => some (value event.2)) _ _ _).trans ?_
    rw [get?_fromKeys (List.mem_map_of_mem hresult)]
    refine foldl_hits value result.strategy fun event => ?_
    rw [← mem_turns_iff h hresult, Dict.turns, Dict.turns, List.mem_filter, List.mem_filter,
      decide_eq_true_eq, decide_eq_true_eq, and_assoc]

end Tables

/-! ### Rows -/

variable {results : List StrategyResult} {chunkId : Str}

/-- The pass makes the two tables, and keeps the texts. -/
theorem comparisonState_eq (results : List StrategyResult) : comparisonState results =
    { texts := (events results).foldl
        (fun d event => d.setDefault event.2.1.1 event.2.1.2.1) Dict.empty
      ranks := table (results.map (·.strategy)) (·.2) (events results)
      scores := table (results.map (·.strategy)) (·.1.2.2) (events results) } := by
  have hloop : ∀ (es : List (Str × (Str × Str × ℚ) × ℕ)) (st : ComparisonState),
      es.foldl (fun st event => st.addHit (results.map (·.strategy)) event.1 event.2.1 event.2.2)
        st = ⟨es.foldl (fun d event => d.setDefault event.2.1.1 event.2.1.2.1) st.texts,
          es.foldl (fun d event => d.alter event.2.1.1 fun o =>
            (o.getD (fromKeys (results.map (·.strategy)) none)).set event.1 (some event.2.2))
            st.ranks,
          es.foldl (fun d event => d.alter event.2.1.1 fun o =>
            (o.getD (fromKeys (results.map (·.strategy)) none)).set event.1 (some event.2.1.2.2))
            st.scores⟩ := by
    intro es
    induction es with
    | nil => exact fun st => rfl
    | cons event es ih => exact fun st => ih _
  have hevents : comparisonState results = (events results).foldl (fun st event =>
      st.addHit (results.map (·.strategy)) event.1 event.2.1 event.2.2) {} := by
    rw [comparisonState, events, List.foldl_flatMap]
    simp only [List.foldl_map]
  exact hevents.trans (hloop _ _)

theorem mem_keys_texts :
    chunkId ∈ (comparisonState results).texts.keys ↔ ∃ result ∈ results, chunkId ∈ result.ids := by
  rw [comparisonState_eq]
  refine (Dict.mem_keys_foldl_alter (fun event : Str × (Str × Str × ℚ) × ℕ => event.2.1.1)
    fun o event => o.getD event.2.1.2.1).trans ?_
  rw [Dict.keys_empty, List.mem_map]
  refine (or_iff_right List.not_mem_nil).trans ?_
  constructor
  · rintro ⟨event, hevent, rfl⟩
    obtain ⟨result, hresult, -, hentry⟩ := mem_events.mp hevent
    exact ⟨result, hresult, List.mem_map_of_mem (List.fst_mem_of_mem_zipIdx hentry)⟩
  · rintro ⟨result, hresult, hmem⟩
    obtain ⟨entry, hentry⟩ := Option.isSome_iff_exists.mp (result.isSome_hitOf?.mpr hmem)
    have hid : entry.1.1 = chunkId := by simpa using List.find?_some hentry
    exact ⟨(result.strategy, entry), mem_events.mpr ⟨result, hresult, rfl,
      List.mem_of_find?_eq_some hentry⟩, hid⟩

/-- What a row says of a chunk that was found. -/
structure Agrees (results : List StrategyResult) (row : ComparisonRow) : Prop where
  found : ∃ result ∈ results, row.chunkId ∈ result.ids
  ranks_keys : row.ranks.keys = results.map (·.strategy)
  ranks : ∀ result ∈ results,
    row.ranks.get? result.strategy = some (result.rankOf? row.chunkId)
  scores_keys : row.scores.keys = results.map (·.strategy)
  scores : ∀ result ∈ results,
    row.scores.get? result.strategy = some (result.scoreOf? row.chunkId)
  foundBy : row.foundBy =
    (results.filter fun result => row.chunkId ∈ result.ids).map (·.strategy)

theorem agrees_comparisonRow (h : Distinct results) {entry : Str × Str}
    (hentry : entry ∈ (comparisonState results).texts.entries) :
    Agrees results
      (comparisonRow (results.map (·.strategy)) (comparisonState results) entry) := by
  have hfound : ∃ result ∈ results, entry.1 ∈ result.ids :=
    mem_keys_texts.mp (List.mem_map_of_mem hentry)
  obtain ⟨ranks, hranks, hrankKeys, hrank⟩ :=
    get?_table (fun entry : (Str × Str × ℚ) × ℕ => entry.2) h hfound
  obtain ⟨scores, hscores, hscoreKeys, hscore⟩ :=
    get?_table (fun entry : (Str × Str × ℚ) × ℕ => entry.1.2.2) h hfound
  rw [comparisonRow, comparisonState_eq]
  simp only [hranks, hscores, Option.getD_some]
  refine ⟨hfound, hrankKeys, hrank, hscoreKeys, hscore, ?_⟩
  rw [List.filter_map]
  refine congrArg (List.map _) (List.filter_congr ?_)
  intro result hresult
  rw [Function.comp_apply, hrank result hresult, Option.join_some, Option.isSome_map,
    Bool.eq_iff_iff, result.isSome_hitOf?, decide_eq_true_eq]

theorem agrees_of_mem_rows (h : Distinct results) {row : ComparisonRow}
    (hrow : row ∈ (buildComparison results).rows) : Agrees results row := by
  obtain ⟨entry, hentry, rfl⟩ := List.mem_map.mp ((List.mergeSort_perm _ _).mem_iff.mp hrow)
  exact agrees_comparisonRow h hentry

/-- **There is one row of each chunk that was found.** -/
theorem ids_rows (results : List StrategyResult) :
    ((buildComparison results).rows.map (·.chunkId)).Nodup ∧
      ∀ chunkId, chunkId ∈ (buildComparison results).rows.map (·.chunkId) ↔
        ∃ result ∈ results, chunkId ∈ result.ids := by
  have hperm : ((buildComparison results).rows.map (·.chunkId)).Perm
      (comparisonState results).texts.keys := by
    refine ((List.mergeSort_perm _ _).map _).trans (List.Perm.of_eq ?_)
    rw [List.map_map]
    rfl
  exact ⟨hperm.nodup_iff.mpr (Dict.nodup_keys _), fun chunkId =>
    hperm.mem_iff.trans mem_keys_texts⟩

/-! ### The order of the rows -/

/-- The values of a dictionary are what is at its keys. -/
theorem map_some_values {V : Type} (d : Dict Str V) :
    d.values.map some = d.keys.map d.get? := by
  rw [Dict.values, Dict.keys, List.map_map, List.map_map]
  refine List.map_congr_left ?_
  intro e he
  exact (Dict.get?_eq_some_iff.mpr he).symm

/-- **The best rank** is the least one that a result gives. -/
theorem isLeast_bestRank {row : ComparisonRow} (h : Agrees results row) :
    IsLeast {rank | ∃ result ∈ results, result.rankOf? row.chunkId = some rank} row.bestRank := by
  have hvalues : row.ranks.values = results.map fun result => result.rankOf? row.chunkId := by
    refine List.map_injective_iff.mpr (Option.some_injective _) ?_
    rw [map_some_values, h.ranks_keys, List.map_map, List.map_map]
    exact List.map_congr_left h.ranks
  have hmem : ∀ rank, rank ∈ row.ranks.values.filterMap id ↔
      ∃ result ∈ results, result.rankOf? row.chunkId = some rank := by
    intro rank
    rw [hvalues, List.filterMap_map, List.mem_filterMap]
    rfl
  obtain ⟨result, hresult, hfound⟩ := h.found
  obtain ⟨entry, hentry⟩ := Option.isSome_iff_exists.mp (result.isSome_hitOf?.mpr hfound)
  have hrank : entry.2 ∈ row.ranks.values.filterMap id :=
    (hmem _).mpr ⟨result, hresult, congrArg (Option.map _) hentry⟩
  obtain ⟨best, hbest⟩ : ∃ best, (row.ranks.values.filterMap id).min? = some best :=
    Option.isSome_iff_exists.mp (List.isSome_min?_iff.mpr (List.ne_nil_of_mem hrank))
  rw [ComparisonRow.bestRank, hbest]
  obtain ⟨hleast, hle⟩ := List.min?_eq_some_iff.mp hbest
  exact ⟨(hmem _).mp hleast, fun rank h => hle rank ((hmem rank).mpr h)⟩

/-- **The rows are sorted** by the best rank and the id. -/
theorem pairwise_rows (results : List StrategyResult) :
    (buildComparison results).rows.Pairwise fun a b =>
      a.bestRank < b.bestRank ∨ a.bestRank = b.bestRank ∧ a.chunkId < b.chunkId := by
  have hle : ∀ a b : ComparisonRow, (a.bestRank < b.bestRank ||
      (a.bestRank = b.bestRank && a.chunkId ≤ b.chunkId)) = true ↔
        toLex (a.bestRank, a.chunkId) ≤ toLex (b.bestRank, b.chunkId) := by
    intro a b
    simp only [Prod.Lex.toLex_le_toLex, Bool.or_eq_true, Bool.and_eq_true, decide_eq_true_eq]
  have hsorted : (buildComparison results).rows.Pairwise fun a b =>
      (a.bestRank < b.bestRank || (a.bestRank = b.bestRank && a.chunkId ≤ b.chunkId)) = true := by
    refine List.pairwise_mergeSort ?_ ?_ _
    · intro a b c hab hbc
      rw [hle] at *
      exact le_trans hab hbc
    · intro a b
      rw [Bool.or_eq_true, hle, hle]
      exact le_total _ _
  refine (hsorted.and (List.pairwise_map.mp (ids_rows results).1)).imp ?_
  intro a b h
  simp only [Bool.or_eq_true, Bool.and_eq_true, decide_eq_true_eq] at h
  exact h.1.imp_right fun h' => ⟨h'.1, lt_of_le_of_ne h'.2 h.2⟩

/-! ### Overlap -/

/-- The chunks that were found, each once. -/
def foundIds (results : List StrategyResult) : List Str := (results.flatMap (·.ids)).dedup

/-- The results without a strategy. -/
def without (strategy : Str) (results : List StrategyResult) : List StrategyResult :=
  results.filter fun result => result.strategy ≠ strategy

theorem perm_foundIds (results : List StrategyResult) :
    ((buildComparison results).rows.map (·.chunkId)).Perm (foundIds results) := by
  refine (List.perm_ext_iff_of_nodup (ids_rows results).1 (List.nodup_dedup _)).mpr ?_
  intro chunkId
  rw [(ids_rows results).2, List.mem_dedup, List.mem_flatMap]

/-- **Found by all** is the size of the intersection. -/
theorem foundByAll_eq (h : Distinct results) : (buildComparison results).overlap.foundByAll =
    ((foundIds results).filter fun chunkId =>
      ∀ result ∈ results, chunkId ∈ result.ids).length := by
  rw [← List.countP_eq_length_filter, ← (perm_foundIds results).countP_eq, List.countP_map]
  refine List.countP_congr ?_
  intro row hrow
  rw [decide_eq_true_eq, (agrees_of_mem_rows h hrow).foundBy, List.length_map, List.length_map,
    List.length_filter_eq_length_iff]
  simp

theorem totalChunks_eq (results : List StrategyResult) :
    (buildComparison results).overlap.totalChunks = (foundIds results).length := by
  rw [← (perm_foundIds results).length_eq, List.length_map]
  rfl

/-- A loop that counts under one name. -/
theorem get?_foldl_count {name : Str} {step : Dict Str ℕ → ComparisonRow → Dict Str ℕ}
    (hstep : ∀ d row, (step d row).get? name =
      if row.foundBy = [name] then some ((d.get? name).getD 0 + 1) else d.get? name)
    (rows : List ComparisonRow) {d : Dict Str ℕ} {n : ℕ} (hd : d.get? name = some n) :
    (rows.foldl step d).get? name = some (n + rows.countP fun row => row.foundBy = [name]) := by
  induction rows generalizing d n with
  | nil => exact hd
  | cons row rows ih =>
      rw [List.foldl_cons, List.countP_cons]
      by_cases hrow : row.foundBy = [name]
      · have hnext := (hstep d row).trans (if_pos hrow)
        rw [hd, Option.getD_some] at hnext
        rw [ih hnext, if_pos (decide_eq_true hrow)]
        exact congrArg some (by omega)
      · rw [ih ((hstep d row).trans ((if_neg hrow).trans hd)),
          if_neg (by simpa using hrow), Nat.add_zero]

/-- **Unique to a strategy** is the number of the rows that it alone has found. -/
theorem get?_uniqueTo {names : List Str} {name : Str} (hname : name ∈ names)
    (rows : List ComparisonRow) : (overlap rows names).uniqueTo.get? name =
      some (rows.countP fun row => row.foundBy = [name]) := by
  rw [overlap]
  refine (get?_foldl_count ?_ rows (get?_fromKeys hname 0)).trans (congrArg some (Nat.zero_add _))
  intro d row
  rcases hfound : row.foundBy with _ | ⟨strategy, _ | ⟨other, rest⟩⟩
  · rfl
  · simp only [Dict.get?_alter, List.cons.injEq, and_true]
    split_ifs with h h' h'
    · rw [h]
    · exact absurd h.symm h'
    · exact absurd h'.symm h
    · rfl
  · exact (if_neg (by simp)).symm

theorem Distinct.without (h : Distinct results) (name : Str) :
    Distinct (without name results) where
  names := (List.filter_sublist.map _).nodup h.names
  hits := fun result hresult => h.hits result (List.mem_filter.mp hresult).1

/-- A row is unique to a strategy iff no other has found its chunk. -/
theorem foundBy_eq_singleton_iff (h : Distinct results) {row : ComparisonRow}
    (hrow : Agrees results row) {name : Str} :
    row.foundBy = [name] ↔
      ¬ ∃ result ∈ Visualization.without name results, row.chunkId ∈ result.ids := by
  have hmem : ∀ strategy, strategy ∈ row.foundBy ↔
      ∃ result ∈ results, row.chunkId ∈ result.ids ∧ result.strategy = strategy := by
    intro strategy
    rw [hrow.foundBy, List.mem_map]
    simp only [List.mem_filter, decide_eq_true_eq, and_assoc]
  have hnodup : row.foundBy.Nodup := by
    rw [hrow.foundBy]
    exact (List.filter_sublist.map _).nodup h.names
  constructor
  · rintro hname ⟨result, hresult, hfound⟩
    obtain ⟨hresult, hother⟩ := List.mem_filter.mp hresult
    have hstrategy := (hmem result.strategy).mpr ⟨result, hresult, hfound, rfl⟩
    rw [hname, List.mem_singleton] at hstrategy
    exact of_decide_eq_true hother hstrategy
  · intro hnone
    have hall : ∀ strategy ∈ row.foundBy, strategy = name := by
      intro strategy hstrategy
      obtain ⟨result, hresult, hfound, rfl⟩ := (hmem strategy).mp hstrategy
      by_contra hother
      exact hnone ⟨result, List.mem_filter.mpr ⟨hresult, decide_eq_true hother⟩, hfound⟩
    obtain ⟨result, hresult, hfound⟩ := hrow.found
    have hne := List.ne_nil_of_mem ((hmem _).mpr ⟨result, hresult, hfound, rfl⟩)
    have hlength := (List.nodup_replicate.mp (List.eq_replicate_of_mem hall ▸ hnodup))
    have hpos := List.length_pos_iff.mpr hne
    rw [List.eq_replicate_of_mem hall, Nat.le_antisymm hlength hpos]
    rfl

/-- **Removing a strategy costs what is unique to it.** -/
theorem totalChunks_without (h : Distinct results) (name : Str) :
    (buildComparison results).overlap.totalChunks =
      (buildComparison (Visualization.without name results)).overlap.totalChunks +
        (buildComparison results).rows.countP fun row => row.foundBy = [name] := by
  have hkept : ((buildComparison results).rows.countP fun row => !decide (row.foundBy = [name])) =
      (foundIds (Visualization.without name results)).length := by
    have hperm : ((foundIds results).filter fun chunkId =>
        ∃ result ∈ Visualization.without name results, chunkId ∈ result.ids).Perm
          (foundIds (Visualization.without name results)) := by
      refine (List.perm_ext_iff_of_nodup ((List.nodup_dedup _).filter _)
        (List.nodup_dedup _)).mpr ?_
      intro chunkId
      simp only [List.mem_filter, decide_eq_true_eq, List.mem_dedup, List.mem_flatMap]
      refine and_iff_right_of_imp ?_
      rintro ⟨result, hresult, hfound⟩
      exact ⟨result, (List.mem_filter.mp hresult).1, hfound⟩
    rw [← hperm.length_eq, ← List.countP_eq_length_filter, ← (perm_foundIds results).countP_eq,
      List.countP_map]
    refine List.countP_congr ?_
    intro row hrow
    rw [Bool.not_eq_true', decide_eq_false_iff_not, Function.comp_apply, decide_eq_true_eq,
      foundBy_eq_singleton_iff h (agrees_of_mem_rows h hrow), not_not]
  rw [totalChunks_eq (Visualization.without name results), ← hkept, Nat.add_comm]
  refine (List.length_eq_countP_add_countP _).trans (congrArg (_ + ·) (List.countP_congr ?_))
  intro row _
  simp

/-- **A comparison says what its results say**: one row of each chunk, in the order of the best
ranks; what all have found is the intersection, and what is unique to a strategy is lost
without it, so one that has nothing of its own can be left out. -/
theorem comparison_agrees (results : List StrategyResult) (h : Distinct results) :
    ((buildComparison results).rows.map (·.chunkId)).Nodup ∧
      (∀ chunkId, chunkId ∈ (buildComparison results).rows.map (·.chunkId) ↔
        ∃ result ∈ results, chunkId ∈ result.ids) ∧
      (∀ row ∈ (buildComparison results).rows, Agrees results row ∧
        IsLeast {rank | ∃ result ∈ results, result.rankOf? row.chunkId = some rank}
          row.bestRank) ∧
      ((buildComparison results).rows.Pairwise fun a b =>
        a.bestRank < b.bestRank ∨ a.bestRank = b.bestRank ∧ a.chunkId < b.chunkId) ∧
      (buildComparison results).overlap.totalChunks = (buildComparison results).rows.length ∧
      (buildComparison results).overlap.foundByAll = ((foundIds results).filter fun chunkId =>
        ∀ result ∈ results, chunkId ∈ result.ids).length ∧
      ∀ name ∈ results.map (·.strategy),
        ∃ n, (buildComparison results).overlap.uniqueTo.get? name = some n ∧
          (buildComparison results).overlap.totalChunks -
            (buildComparison (without name results)).overlap.totalChunks = n ∧
          (buildComparison (without name results)).overlap.totalChunks ≤
            (buildComparison results).overlap.totalChunks ∧
          (n = 0 → ∀ chunkId, chunkId ∈ (buildComparison results).rows.map (·.chunkId) →
            chunkId ∈ (buildComparison (without name results)).rows.map (·.chunkId)) := by
  refine ⟨(ids_rows results).1, (ids_rows results).2, ?_, pairwise_rows results, rfl,
    foundByAll_eq h, ?_⟩
  · intro row hrow
    have hagrees := agrees_of_mem_rows h hrow
    exact ⟨hagrees, isLeast_bestRank hagrees⟩
  · intro name hname
    have htotal := totalChunks_without h name
    refine ⟨_, get?_uniqueTo hname (buildComparison results).rows, by omega, by omega, ?_⟩
    intro hzero chunkId hfound
    obtain ⟨row, hrow, rfl⟩ := List.mem_map.mp hfound
    rw [(ids_rows _).2]
    by_contra hlost
    have hunique := (foundBy_eq_singleton_iff h (agrees_of_mem_rows h hrow)).mpr hlost
    exact List.countP_eq_zero.mp hzero row hrow (decide_eq_true hunique)

/-- Two strategies that share a chunk. -/
def sampleResults : List StrategyResult :=
  [⟨[107], 1, [([97], [], 2), ([98], [], 1)]⟩, ⟨[118], 2, [([98], [], 3)]⟩]

theorem distinct_sampleResults : Distinct sampleResults where
  names := by decide
  hits := by
    have hall : sampleResults.all (fun result => result.ids.Nodup) = true := by decide
    exact fun result hresult => of_decide_eq_true (List.all_eq_true.mp hall result hresult)

theorem comparison_agrees_sample :
    ((buildComparison sampleResults).rows.map (·.chunkId)).Nodup ∧
      (buildComparison sampleResults).overlap.foundByAll = 1 := by
  have h := comparison_agrees sampleResults distinct_sampleResults
  exact ⟨h.1, h.2.2.2.2.2.1.trans (by decide)⟩

end Visualization
end EvidenceLab
