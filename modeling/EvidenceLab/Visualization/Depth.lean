/-
# Depths on corrupt data

The parent links of stored spans need not form a tree: a parent may be missing, and links may
lead into a cycle.  The walk of `depth_of` ends all the same, since each of its turns meets
another span of the list (`depthFrom_le`), and only the spans that it meets count
(`depthFrom_congr`).  So where the links of a span never come back, its depth is one more than
that of its parent.
-/

import EvidenceLab.Visualization.Timeline
import Mathlib.Logic.Relation

namespace EvidenceLab
namespace Visualization

open Text Data EvidenceLab.Core Tracing

variable {A : Type} {spans : List (SpanInput A)} {span parent : SpanInput A}

/-! ### The walk ends -/

/-- The loop turns at most once for each span that is not seen yet. -/
theorem depthFrom_le (byId : Dict Str (SpanInput A)) (seen : List Str) (parent : Option Str) :
    depthFrom byId seen parent ≤ (unseen byId seen).length := by
  induction seen, parent using depthFrom.induct byId with
  | case1 seen =>
      rw [depthFrom]
      exact Nat.zero_le _
  | case2 seen p h ih =>
      rw [depthFrom, dif_pos h]
      exact ih.trans_lt (length_unseen_cons h.1 h.2)
  | case3 seen p h =>
      rw [depthFrom, dif_neg h]
      exact Nat.zero_le _

theorem length_keys_byId (spans : List (SpanInput A)) :
    (byId spans).keys.length ≤ spans.length := by
  have hsub : (byId spans).keys ⊆ spans.map (·.spanId) :=
    fun id hid => List.mem_map.mpr (mem_keys_byId.mp hid)
  have hle := (List.subperm_of_subset (byId spans).nodup_keys hsub).length_le
  rwa [List.length_map] at hle

/-- **A depth is smaller than the number of spans**, whatever the links. -/
theorem depthOf_lt (hspan : span ∈ spans) : depthOf spans span < spans.length := by
  have hown : (unseen (byId spans) [span.spanId]).length < (unseen (byId spans) []).length :=
    length_unseen_cons (mem_keys_byId.mpr ⟨span, hspan, rfl⟩) List.not_mem_nil
  calc depthOf spans span ≤ (unseen (byId spans) [span.spanId]).length := depthFrom_le _ _ _
    _ < (unseen (byId spans) []).length := hown
    _ ≤ (byId spans).keys.length := List.length_filter_le _ _
    _ ≤ spans.length := length_keys_byId spans

/-! ### What the walk meets -/

/-- The parent link of the span with this id. -/
def linkOf (byId : Dict Str (SpanInput A)) (id : Str) : Option Str :=
  (byId.get? id).bind (·.parentSpanId)

/-- The walk from `parent` on meets the id. -/
def Meets (byId : Dict Str (SpanInput A)) (parent : Option Str) (id : Str) : Prop :=
  ∃ p, parent = some p ∧ Relation.ReflTransGen (fun p q => linkOf byId p = some q) p id

theorem meets_linkOf {byId : Dict Str (SpanInput A)} {p id : Str}
    (h : Meets byId (linkOf byId p) id) : Meets byId (some p) id := by
  obtain ⟨q, hq, hwalk⟩ := h
  exact ⟨p, rfl, Relation.ReflTransGen.head hq hwalk⟩

/-- **Only what the walk meets counts** of the ids that are seen. -/
theorem depthFrom_congr {byId : Dict Str (SpanInput A)} {seen seen' : List Str}
    {parent : Option Str} (h : ∀ id, Meets byId parent id → (id ∈ seen ↔ id ∈ seen')) :
    depthFrom byId seen parent = depthFrom byId seen' parent := by
  induction seen, parent using depthFrom.induct byId generalizing seen' with
  | case1 seen => rw [depthFrom, depthFrom]
  | case2 seen p hturn ih =>
      have hp : p ∈ seen ↔ p ∈ seen' := h p ⟨p, rfl, Relation.ReflTransGen.refl⟩
      rw [depthFrom, dif_pos hturn, depthFrom, dif_pos ⟨hturn.1, hp.not.mp hturn.2⟩]
      refine congrArg (· + 1) (ih fun id hid => ?_)
      rw [List.mem_cons, List.mem_cons, h id (meets_linkOf hid)]
  | case3 seen p hstop =>
      have hp : p ∈ seen ↔ p ∈ seen' := h p ⟨p, rfl, Relation.ReflTransGen.refl⟩
      rw [depthFrom, dif_neg hstop, depthFrom, dif_neg]
      exact fun hturn => hstop ⟨hturn.1, hp.not.mpr hturn.2⟩

/-- The walk asks for spans by their ids alone. -/
theorem depthFrom_of_get? {byId byId' : Dict Str (SpanInput A)}
    (h : ∀ id, byId.get? id = byId'.get? id) (seen : List Str) (parent : Option Str) :
    depthFrom byId seen parent = depthFrom byId' seen parent := by
  have hkeys : ∀ id, id ∈ byId.keys ↔ id ∈ byId'.keys := fun id => by
    rw [← Dict.isSome_get?, ← Dict.isSome_get?, h]
  induction seen, parent using depthFrom.induct byId with
  | case1 seen => rw [depthFrom, depthFrom]
  | case2 seen p hturn ih =>
      rw [depthFrom, dif_pos hturn, depthFrom, dif_pos ⟨(hkeys p).mp hturn.1, hturn.2⟩, ih, h p]
  | case3 seen p hstop =>
      rw [depthFrom, dif_neg hstop, depthFrom, dif_neg]
      exact fun hturn => hstop ⟨(hkeys p).mpr hturn.1, hturn.2⟩

/-- **A depth does not depend on the order of the spans.** -/
theorem depthOf_perm {spans' : List (SpanInput A)} (hids : (spans.map (·.spanId)).Nodup)
    (h : spans.Perm spans') (span : SpanInput A) : depthOf spans span = depthOf spans' span := by
  have hids' : (spans'.map (·.spanId)).Nodup := (h.map _).nodup_iff.mp hids
  refine depthFrom_of_get? (fun id => ?_) _ _
  by_cases hid : ∃ other ∈ spans, other.spanId = id
  · obtain ⟨other, hother, rfl⟩ := hid
    rw [get?_byId hids hother, get?_byId hids' (h.mem_iff.mp hother)]
  · have hid' : ¬ ∃ other ∈ spans', other.spanId = id := by
      simpa only [h.mem_iff] using hid
    rw [Dict.get?_of_not_mem_keys (mem_keys_byId.not.mpr hid),
      Dict.get?_of_not_mem_keys (mem_keys_byId.not.mpr hid')]

/-! ### Links that never come back -/

/-- A span of the list with the first id has the second one as its parent link. -/
def Links (spans : List (SpanInput A)) (id p : Str) : Prop :=
  ∃ span ∈ spans, span.spanId = id ∧ span.parentSpanId = some p

/-- Following the parent links from the id never leads to a span for a second time. -/
def NeverRevisits (spans : List (SpanInput A)) (id : Str) : Prop :=
  ∀ q, Relation.ReflTransGen (Links spans) id q → ¬ Relation.TransGen (Links spans) q q

theorem links_of_linkOf (hids : (spans.map (·.spanId)).Nodup) {id p : Str}
    (h : linkOf (byId spans) id = some p) : Links spans id p := by
  obtain ⟨span, hget, hparent⟩ := Option.bind_eq_some_iff.mp h
  by_cases hkey : id ∈ (byId spans).keys
  · obtain ⟨other, hother, rfl⟩ := mem_keys_byId.mp hkey
    rw [get?_byId hids hother] at hget
    exact ⟨other, hother, rfl, Option.some.inj hget ▸ hparent⟩
  · rw [Dict.get?_of_not_mem_keys hkey] at hget
    cases hget

/-- A walk that goes on from the parent of a span that is never revisited does not meet it. -/
theorem not_meets (hids : (spans.map (·.spanId)).Nodup) (hspan : span ∈ spans)
    (hnever : NeverRevisits spans span.spanId) {p : Str} (hparent : span.parentSpanId = some p) :
    ¬ Meets (byId spans) (some p) span.spanId := by
  rintro ⟨q, hq, hwalk⟩
  obtain rfl := Option.some.inj hq
  have hback : Relation.ReflTransGen (Links spans) p span.spanId :=
    Relation.ReflTransGen.mono (fun _ _ => links_of_linkOf hids) _ _ hwalk
  have hlink : Links spans span.spanId p := ⟨span, hspan, rfl, hparent⟩
  exact hnever _ Relation.ReflTransGen.refl (Relation.TransGen.head' hlink hback)

/-- A span without a parent in the list is at the left. -/
theorem depthOf_eq_zero
    (h : ∀ parent ∈ spans, span.parentSpanId ≠ some parent.spanId) : depthOf spans span = 0 := by
  rw [depthOf]
  cases hparent : span.parentSpanId with
  | none => rw [depthFrom]
  | some p =>
      rw [depthFrom, dif_neg]
      rintro ⟨hkey, -⟩
      obtain ⟨parent, hmem, rfl⟩ := mem_keys_byId.mp hkey
      exact h parent hmem hparent

/-- A span that is never revisited is one deeper than its parent. -/
theorem depthOf_eq_succ (hids : (spans.map (·.spanId)).Nodup) (hspan : span ∈ spans)
    (hnever : NeverRevisits spans span.spanId) (hmem : parent ∈ spans)
    (hparent : span.parentSpanId = some parent.spanId) :
    depthOf spans span = depthOf spans parent + 1 := by
  have hnot := not_meets hids hspan hnever hparent
  have hother : parent.spanId ∉ [span.spanId] := by
    intro hsame
    rw [List.mem_singleton] at hsame
    exact hnot ⟨_, rfl, hsame ▸ Relation.ReflTransGen.refl⟩
  rw [depthOf, hparent, depthFrom, dif_pos ⟨mem_keys_byId.mpr ⟨parent, hmem, rfl⟩, hother⟩,
    get?_byId hids hmem, Option.bind_some, depthOf]
  refine congrArg (· + 1) (depthFrom_congr fun id hid => ?_)
  have hne : id ≠ span.spanId := by
    rintro rfl
    refine hnot (meets_linkOf ?_)
    rwa [linkOf, get?_byId hids hmem, Option.bind_some]
  rw [List.mem_cons, List.mem_singleton, List.mem_singleton, or_iff_left hne]

/-- **The depth is total and exact where the links never come back**: it is smaller than the
number of spans, and of a span that is not revisited it is 0, if the list holds no parent of it,
and one more than the parent's else. -/
theorem depth_total_and_exact (hids : (spans.map (·.spanId)).Nodup) (hspan : span ∈ spans) :
    depthOf spans span < spans.length ∧
      (NeverRevisits spans span.spanId →
        ((∀ parent ∈ spans, span.parentSpanId ≠ some parent.spanId) → depthOf spans span = 0) ∧
        ∀ parent ∈ spans, span.parentSpanId = some parent.spanId →
          depthOf spans span = depthOf spans parent + 1) :=
  ⟨depthOf_lt hspan, fun hnever =>
    ⟨depthOf_eq_zero, fun _ hmem hparent => depthOf_eq_succ hids hspan hnever hmem hparent⟩⟩

/-- Links along which a rank falls never come back. -/
theorem neverRevisits_of_rank (P : Str → Prop) (rank : Str → ℕ) {id : Str} (hid : P id)
    (hfalls : ∀ p q, P p → Links spans p q → P q ∧ rank q < rank p) : NeverRevisits spans id := by
  intro q hwalk
  have hq : P q := by
    induction hwalk with
    | refl => exact hid
    | tail _ hlink ih => exact (hfalls _ _ ih hlink).1
  intro hback
  have hrank : ∀ r, Relation.TransGen (Links spans) q r → P r ∧ rank r < rank q := by
    intro r hr
    induction hr with
    | single hlink => exact hfalls _ _ hq hlink
    | tail _ hlink ih =>
        obtain ⟨hP, hlt⟩ := hfalls _ _ ih.1 hlink
        exact ⟨hP, hlt.trans ih.2⟩
  exact lt_irrefl _ (hrank q hback).2

/-- A stage as stored, with its parent link. -/
def sampleSpan (id parent : Char) : SpanInput Empty where
  spanId := lit [id]
  parentSpanId := some (lit [parent])
  stage := .retrieval
  status := .ok
  offsetMs := 0
  durationMs := 1

/-- A truncated trace with a cycle: a stage `c` in a stage `b` whose parent is missing, and two
stages that are each other's parents. -/
def corruptSample : List (SpanInput Empty) :=
  [sampleSpan 'c' 'b', sampleSpan 'b' 'a', sampleSpan 'x' 'y', sampleSpan 'y' 'x']

theorem neverRevisits_corruptSample : NeverRevisits corruptSample (lit ['c']) := by
  let rank : Str → ℕ := fun p => (p.headD 0).val
  have hfalls : ∀ span ∈ corruptSample, rank span.spanId < 100 → ∀ q ∈ span.parentSpanId,
      rank q < 100 ∧ rank q < rank span.spanId := by decide +kernel
  refine neverRevisits_of_rank (rank · < 100) rank (by decide) ?_
  rintro p q hp ⟨span, hspan, rfl, hq⟩
  exact hfalls span hspan hp q hq

theorem depth_of_corruptSample :
    (depthOf corruptSample (sampleSpan 'x' 'y') < 4) ∧
      depthOf corruptSample (sampleSpan 'c' 'b') =
        depthOf corruptSample (sampleSpan 'b' 'a') + 1 := by
  have hids : (corruptSample.map (·.spanId)).Nodup := by decide +kernel
  have hx : sampleSpan 'x' 'y' ∈ corruptSample := by simp [corruptSample]
  have hb : sampleSpan 'b' 'a' ∈ corruptSample := by simp [corruptSample]
  have hc : sampleSpan 'c' 'b' ∈ corruptSample := by simp [corruptSample]
  exact ⟨(depth_total_and_exact hids hx).1,
    ((depth_total_and_exact hids hc).2 neverRevisits_corruptSample).2 _ hb rfl⟩

end Visualization
end EvidenceLab
