/-
# When agreement beats a single arm

A chunk that both arms return gets a share from each of them by its position there, and a chunk
that one arm returns gets one.  Two shares are more than one as long as the positions are not
too far apart: with `k = 60` and a weight of ordinary size up to the sixty-first hit of each
ranking, but further down the first hit of one arm alone is ahead of a chunk that both return.
The shares are doubles, and so is their sum, so near the border, or with a weight that is
infinite or hardly more than zero, it is the rounding that decides.

A fused score is made of the positions alone (`totalScore_eq`), and what precedes what in a
fusion is read off the scores (`Fuses.precedes_iff`).  Agreement beats a single arm exactly
where the shares say so, at all pairs of positions (`agreement_iff`), and so it does in
rankings of up to 61 hits (`outranks_of_short`).
-/

import EvidenceLab.Data.Rankings
import EvidenceLab.Retrieval.FusionSpec

namespace EvidenceLab
namespace Retrieval

open Text Data EvidenceLab.Core

variable {S : Type} [Score S]

/-! ### Scores and positions -/

/-- What a ranking of ids gives a chunk, if it holds it. -/
def shareIn (k : ℤ) (weight : S) (ids : List Uuid) (id : Uuid) : Option S :=
  if id ∈ ids then some (Score.share k weight (ids.idxOf id)) else none

omit [Score S] in
/-- The position at which a chunk is found. -/
theorem found_position (id : Uuid) (ranking : List (RetrievedChunk S)) :
    (found id ranking).map Prod.snd =
      if id ∈ idsOf ranking then some ((idsOf ranking).idxOf id) else none := by
  have hshift : ∀ m, ((ranking.zipIdx m).find? fun e => e.1.chunkId = id).map Prod.snd =
      if id ∈ idsOf ranking then some (m + (idsOf ranking).idxOf id) else none := by
    induction ranking with
    | nil => exact fun m => rfl
    | cons hit ranking ih =>
        intro m
        rw [List.zipIdx_cons, List.find?_cons, idsOf, List.map_cons]
        by_cases hid : hit.chunkId = id
        · simp [hid]
        · have hrest := ih (m + 1)
          rw [idsOf] at hrest
          simp only [hid, decide_false, List.mem_cons, Ne.symm hid, false_or, hrest,
            List.idxOf_cons_ne _ hid]
          split_ifs
          · congr 1
            omega
          · rfl
  have h := hshift 0
  rwa [Nat.zero_add] at h

/-- **A fused score is made of positions.** -/
theorem totalScore_eq (k : ℤ) (arms : List (List (RetrievedChunk S) × S)) (id : Uuid) :
    totalScore k arms id =
      Score.total (arms.filterMap fun arm => shareIn k arm.2 (idsOf arm.1) id) := by
  rw [totalScore]
  congr 2
  funext arm
  have hposition := found_position id arm.1
  have hmap : ((found id arm.1).map fun entry => Score.share k arm.2 entry.2) =
      ((found id arm.1).map Prod.snd).map (Score.share k arm.2) := by
    rw [Option.map_map]
    rfl
  rw [hmap, hposition, shareIn]
  split_ifs <;> rfl

/-- The scores of two arms. -/
theorem totalScore_two {k : ℤ} {dense keyword : List (RetrievedChunk S)} {w w' : S} (id : Uuid) :
    totalScore k ([dense, keyword].zip [w, w']) id =
      Score.total ((shareIn k w (idsOf dense) id).toList ++
        (shareIn k w' (idsOf keyword) id).toList) := by
  rw [totalScore_eq]
  cases hdense : shareIn k w (idsOf dense) id <;>
    cases hkeyword : shareIn k w' (idsOf keyword) id <;>
    simp [hdense, hkeyword]

/-- **What precedes what in a fusion** whose scores are numbers. -/
theorem Fuses.precedes_iff {k : ℤ} {rankings : List (List (RetrievedChunk S))} {weights : List S}
    {fused : List (RetrievedChunk S)} (h : Fuses k rankings weights fused)
    (hnumbers : ∀ id, (Score.value (totalScore k (rankings.zip weights) id)).isSome)
    {x y : Uuid} :
    Precedes (idsOf fused) y x ↔ y ∈ idsOf fused ∧ (x ∈ idsOf fused →
      Before (y, Score.num (totalScore k (rankings.zip weights) y))
        (x, Score.num (totalScore k (rankings.zip weights) x))) := by
  refine Data.precedes_iff (R := fun a b =>
    Before (a, Score.num (totalScore k (rankings.zip weights) a))
      (b, Score.num (totalScore k (rankings.zip weights) b))) ?_ ?_
  · intro a b hab hba
    have heq := congrArg Prod.fst (Before.asymm hab hba)
    subst heq
    exact Before.irrefl _ hab
  · have hsorted := h.sorted fun hit hhit => by
      rw [(h.score hit hhit).1]
      exact hnumbers _
    refine List.pairwise_map.mpr (hsorted.imp_of_mem ?_)
    intro a b ha hb hab
    rwa [(h.score a ha).1, (h.score b hb).1] at hab

/-- Weights that are not negative give scores that are not. -/
theorem nonneg_totalScore {k : ℤ} {arms : List (List (RetrievedChunk Float64) × Float64)}
    (hk : 0 < k) (hw : ∀ arm ∈ arms, arm.2.Nonneg) (id : Uuid) :
    (totalScore k arms id).Nonneg := by
  rw [totalScore_eq]
  refine Score.nonneg_total ?_
  intro score hscore
  obtain ⟨arm, harm, hshare⟩ := List.mem_filterMap.mp hscore
  rw [shareIn] at hshare
  split at hshare
  · obtain rfl := Option.some.inj hshare
    exact Score.nonneg_share hk (hw arm harm) _
  · cases hshare

/-! ### Two shares and one -/

/-- The shares at `p` of the one and at `q` of the other ranking, added up, are ahead of the share
at `s` alone, a tie going by the text of the ids. -/
def Outranks (w : Float64) (x y : Uuid) (p q s : ℕ) : Prop :=
  Before (x, Score.num (Score.total [Score.share rrfK w p, Score.share rrfK w q]))
    (y, Score.num (Score.total [Score.share rrfK w s]))

instance decidableOutranks (w : Float64) (x y : Uuid) (p q s : ℕ) :
    Decidable (Outranks w x y p q s) := decidableBefore _ _

/-- Two of the shares at 60 are more than the one at 0, and by more than the rounding errs. -/
theorem roundedValue_lt_twice {w : Float64} {r : ℚ} (hw : w.toRat? = some r)
    (hr : 2 ^ (-1000 : ℤ) ≤ r) :
    Float64.roundedValue (r / 61) <
      Float64.roundedValue (nearest (r / 121) + nearest (r / 121)) := by
  have hr0 : 0 < r := (zpow_pos (by norm_num) _).trans_le hr
  have hsmall : (2 : ℚ) ^ (-1022 : ℤ) ≤ r / 121 := by
    rw [le_div_iff₀ (by norm_num)]
    refine le_trans ?_ hr
    calc (2 : ℚ) ^ (-1022 : ℤ) * 121 ≤ 2 ^ (-1022 : ℤ) * 2 ^ (22 : ℤ) :=
          mul_le_mul_of_nonneg_left (by norm_num) (zpow_nonneg (by norm_num) _)
      _ = 2 ^ (-1000 : ℤ) := by
        rw [← zpow_add₀ (by norm_num)]
        rfl
  have herror := (abs_le.mp (abs_nearest_sub_le_of_normal hsmall)).1
  refine Float64.roundedValue_lt (nearest_lt_nearest ?_ ?_)
    (Float64.nearest_lt_of_le hw (by positivity) (div_le_self hr0.le (by norm_num)))
  · refine hsmall.trans ?_
    gcongr
    norm_num
  · linarith

/-- What the share at 60 is, added to itself. -/
theorem num_total_twice {w : Float64} {r : ℚ} (hw : w.toRat? = some r) (hr : 0 ≤ r) :
    Score.num (Score.total [Score.share rrfK w 60, Score.share rrfK w 60]) =
      Float64.roundedValue (nearest (r / 121) + nearest (r / 121)) := by
  have h121 : nearest ((rrfK + (60 : ℕ) + 1 : ℤ) : ℚ) = 121 := by decide +kernel
  have hbound : nearest (r / 121) < 2 ^ 1024 :=
    Float64.nearest_lt_of_le hw (by positivity) (div_le_self hr (by norm_num))
  have hshare := Score.num_share (by decide : 0 < rrfK) hw hr 60
  rw [h121, Float64.roundedValue, if_pos hbound] at hshare
  have hzero : (Float64.add (Float64.ofRat 0) (Score.share rrfK w 60)).num =
      Score.num (Score.share rrfK w 60) := Score.num_total_singleton _
  exact Float64.num_add (Float64.toRat_of_num (hzero.trans hshare)) (Float64.toRat_of_num hshare)
    (nearest_nonneg (by positivity)) (nearest_nonneg (by positivity))

/-- Two shares outrank one in the first 61 positions, if the weight is of ordinary size. -/
theorem outranks_of_short {w : Float64} {r : ℚ} (hw : w.toRat? = some r)
    (hr : 2 ^ (-1000 : ℤ) ≤ r) {x y : Uuid} {p q : ℕ} (hp : p < 61) (hq : q < 61) (s : ℕ) :
    Outranks w x y p q s := by
  have hr0 : 0 < r := (zpow_pos (by norm_num) _).trans_le hr
  have hnonneg : w.Nonneg := .of_toRat hw hr0.le
  have hleast : (Score.share rrfK w 60).Nonneg := Score.nonneg_share (by decide) hnonneg 60
  have hshares : ∀ {i : ℕ}, i < 61 →
      Score.num (Score.share rrfK w 60) ≤ Score.num (Score.share rrfK w i) :=
    fun hi => Score.num_share_anti (by decide) hnonneg (by omega)
  have hlow : Score.num (Score.total [Score.share rrfK w 60, Score.share rrfK w 60]) ≤
      Score.num (Score.total [Score.share rrfK w p, Score.share rrfK w q]) :=
    Float64.num_add_mono (Score.nonneg_zero.add hleast) hleast
      (Float64.num_add_mono Score.nonneg_zero hleast le_rfl (hshares hp)) (hshares hq)
  have h61 : nearest ((rrfK + (0 : ℕ) + 1 : ℤ) : ℚ) = 61 := by decide +kernel
  have hfirst := Score.num_share (by decide : 0 < rrfK) hw hr0.le 0
  rw [h61] at hfirst
  have hhigh : Score.num (Score.total [Score.share rrfK w s]) ≤ Float64.roundedValue (r / 61) := by
    rw [Score.num_total_singleton, ← hfirst]
    exact Score.num_share_anti (by decide) hnonneg (Nat.zero_le s)
  refine Or.inl ?_
  calc Score.num (Score.total [Score.share rrfK w s])
      ≤ Float64.roundedValue (r / 61) := hhigh
    _ < Float64.roundedValue (nearest (r / 121) + nearest (r / 121)) := roundedValue_lt_twice hw hr
    _ = Score.num (Score.total [Score.share rrfK w 60, Score.share rrfK w 60]) :=
        (num_total_twice hw hr0.le).symm
    _ ≤ Score.num (Score.total [Score.share rrfK w p, Score.share rrfK w q]) := hlow

/-! ### Agreement -/

/-- In the fused ids every chunk of both lists precedes every chunk of the first one only. -/
def BeatsSingles (fused ids ids' : List Uuid) : Prop :=
  ∀ x ∈ ids, x ∈ ids' → ∀ y ∈ ids, y ∉ ids' → Precedes fused x y

/-- Every chunk that both arms return is placed ahead of every chunk that one returns. -/
def Agreement (dense keyword fused : List (RetrievedChunk S)) : Prop :=
  BeatsSingles (idsOf fused) (idsOf dense) (idsOf keyword) ∧
    BeatsSingles (idsOf fused) (idsOf keyword) (idsOf dense)

/-- Every chunk of both lists outranks, by the positions, every chunk of one alone. -/
def OutranksSingles (w : Float64) (dense keyword : List Uuid) : Prop :=
  ∀ x ∈ dense, x ∈ keyword →
    (∀ y ∈ dense, y ∉ keyword →
      Outranks w x y (dense.idxOf x) (keyword.idxOf x) (dense.idxOf y)) ∧
    ∀ y ∈ keyword, y ∉ dense →
      Outranks w x y (dense.idxOf x) (keyword.idxOf x) (keyword.idxOf y)

/-- Rankings of up to 61 hits place agreement first. -/
theorem outranksSingles_of_short {w : Float64} {r : ℚ} (hw : w.toRat? = some r)
    (hr : 2 ^ (-1000 : ℤ) ≤ r) {dense keyword : List Uuid} (h : dense.length ≤ 61)
    (h' : keyword.length ≤ 61) : OutranksSingles w dense keyword := by
  intro x hx hx'
  have hp := List.idxOf_lt_length_of_mem hx
  have hq := List.idxOf_lt_length_of_mem hx'
  exact ⟨fun y _ _ => outranks_of_short hw hr (by omega) (by omega) _,
    fun y _ _ => outranks_of_short hw hr (by omega) (by omega) _⟩

omit [Score S] in
theorem nodup_two {dense keyword : List (RetrievedChunk S)} (hdense : (idsOf dense).Nodup)
    (hkeyword : (idsOf keyword).Nodup) : ∀ r ∈ [dense, keyword], (idsOf r).Nodup := by
  intro r hr
  rcases List.mem_pair.mp hr with rfl | rfl
  · exact hdense
  · exact hkeyword

theorem fitting_two {k : ℤ} {dense keyword : List (RetrievedChunk S)} :
    fitting k [dense, keyword] = true ↔
      ∀ position < max dense.length keyword.length, Score.fits S (k + position + 1) = true := by
  rw [fitting_iff]
  constructor
  · intro h position hlt
    rcases lt_max_iff.mp hlt with hlt | hlt
    · exact h dense (by simp) position hlt
    · exact h keyword (by simp) position hlt
  · intro h r hr position hlt
    rcases List.mem_pair.mp hr with rfl | rfl
    · exact h position (lt_max_of_lt_left hlt)
    · exact h position (lt_max_of_lt_right hlt)

section Two

variable {dense keyword fused : List (RetrievedChunk Float64)} {w : Float64}

/-- **A fusion of two arms** places agreement first iff the positions do. -/
theorem agreement_of_fusion (hw : 0 < w.num) (h : Fuses rrfK [dense, keyword] [w, w] fused) :
    Agreement dense keyword fused ↔ OutranksSingles w (idsOf dense) (idsOf keyword) := by
  have hmem : ∀ id, id ∈ idsOf fused ↔ id ∈ idsOf dense ∨ id ∈ idsOf keyword := by
    intro id
    simpa using h.mem_iff id
  have hnumbers : ∀ id,
      (Score.value (totalScore rrfK ([dense, keyword].zip [w, w]) id)).isSome := by
    intro id
    refine (nonneg_totalScore (by decide) ?_ id).isSome
    intro arm harm
    rw [List.eq_of_mem_replicate (n := 2) (List.of_mem_zip harm).2]
    exact hw.le
  have hprecedes : ∀ {x y}, x ∈ idsOf fused → y ∈ idsOf fused → (Precedes (idsOf fused) x y ↔
      Before (x, Score.num (totalScore rrfK ([dense, keyword].zip [w, w]) x))
        (y, Score.num (totalScore rrfK ([dense, keyword].zip [w, w]) y))) := by
    intro x y hx hy
    rw [h.precedes_iff hnumbers]
    simp only [hx, hy, true_and, forall_const]
  have hboth : ∀ {x y}, x ∈ idsOf dense → x ∈ idsOf keyword → y ∈ idsOf dense →
      y ∉ idsOf keyword → (Precedes (idsOf fused) x y ↔ Outranks w x y ((idsOf dense).idxOf x)
        ((idsOf keyword).idxOf x) ((idsOf dense).idxOf y)) := by
    intro x y hx hx' hy hy'
    rw [hprecedes ((hmem x).mpr (Or.inl hx)) ((hmem y).mpr (Or.inl hy)), totalScore_two,
      totalScore_two, shareIn, shareIn, shareIn, shareIn, if_pos hx, if_pos hx', if_pos hy,
      if_neg hy']
    rfl
  have hboth' : ∀ {x y}, x ∈ idsOf dense → x ∈ idsOf keyword → y ∈ idsOf keyword →
      y ∉ idsOf dense → (Precedes (idsOf fused) x y ↔ Outranks w x y ((idsOf dense).idxOf x)
        ((idsOf keyword).idxOf x) ((idsOf keyword).idxOf y)) := by
    intro x y hx hx' hy hy'
    rw [hprecedes ((hmem x).mpr (Or.inl hx)) ((hmem y).mpr (Or.inr hy)), totalScore_two,
      totalScore_two, shareIn, shareIn, shareIn, shareIn, if_pos hx, if_pos hx', if_pos hy,
      if_neg hy']
    rfl
  constructor
  · rintro ⟨hdense, hkeyword⟩ x hx hx'
    exact ⟨fun y hy hy' => (hboth hx hx' hy hy').mp (hdense x hx hx' y hy hy'),
      fun y hy hy' => (hboth' hx hx' hy hy').mp (hkeyword x hx' hx y hy hy')⟩
  · intro houtranks
    exact ⟨fun x hx hx' y hy hy' => (hboth hx hx' hy hy').mpr ((houtranks x hx hx').1 y hy hy'),
      fun x hx' hx y hy hy' => (hboth' hx hx' hy hy').mpr ((houtranks x hx hx').2 y hy hy')⟩

/-- **Agreement beats a single arm exactly where its positions outrank it**, and all of them can
be divided by. -/
theorem agreement_iff (hdense : (idsOf dense).Nodup) (hkeyword : (idsOf keyword).Nodup)
    (hw : 0 < w.num) :
    (∃ fused, reciprocalRankFusion [dense, keyword] rrfK (some [w, w]) = .ok fused ∧
      Agreement dense keyword fused) ↔
      (∀ position < max dense.length keyword.length,
        Score.fits Float64 (rrfK + position + 1) = true) ∧
        OutranksSingles w (idsOf dense) (idsOf keyword) := by
  have hlength : [w, w].length = [dense, keyword].length := rfl
  have hk : 0 < rrfK := by decide
  rw [← fitting_two]
  by_cases hfits : fitting rrfK [dense, keyword] = true
  · obtain ⟨fused, hok, hfusion⟩ :=
      fuses_reciprocalRankFusion (nodup_two hdense hkeyword) hk hlength hfits
    rw [← agreement_of_fusion hw hfusion, and_iff_right hfits]
    constructor
    · rintro ⟨fused', hok', h⟩
      obtain rfl := Except.ok.inj (hok.symm.trans hok')
      exact h
    · intro h
      exact ⟨fused, hok, h⟩
  · refine iff_of_false ?_ fun h => hfits h.1
    rintro ⟨fused, hok, -⟩
    rw [reciprocalRankFusion_eq_overflow hk hlength hfits] at hok
    cases hok

end Two

/-- A hit of chunk `n`, whose score is a double. -/
def floatHit (n : Uuid) (retriever : RetrieverKind) : RetrievedChunk Float64 :=
  { text := [], score := .ofRat (1 / 2), retriever, provenance := { documentId := 0, chunkId := n },
    rank := 7 }

theorem agreement_iff_sample :
    ∃ fused, reciprocalRankFusion
        [[floatHit 1 .semantic, floatHit 2 .semantic], [floatHit 2 .keyword]] rrfK
        (some [.ofRat 1, .ofRat 1]) = .ok fused ∧
      Agreement [floatHit 1 .semantic, floatHit 2 .semantic] [floatHit 2 .keyword] fused := by
  have hone : (Float64.ofRat 1).toRat? = some 1 := by decide +kernel
  refine (agreement_iff (by decide) (by decide) (by decide +kernel)).mpr
    ⟨by decide +kernel, outranksSingles_of_short hone ?_ (by decide) (by decide)⟩
  exact zpow_le_one_of_nonpos₀ (by norm_num) (by norm_num)

/-- A ranking of 63 hits, the last of which is chunk 0. -/
def deepRanking (start : ℕ) (retriever : RetrieverKind) : List (RetrievedChunk Float64) :=
  (List.range' start 62 ++ [0]).map fun n => floatHit (Fin.ofNat _ n) retriever

/-- At the sixty-third position of both arms a chunk is behind the first hit of one. -/
theorem agreement_fails :
    ¬ ∃ fused, reciprocalRankFusion [deepRanking 1 .semantic, deepRanking 101 .keyword] rrfK
        (some [.ofRat 1, .ofRat 1]) = .ok fused ∧
      Agreement (deepRanking 1 .semantic) (deepRanking 101 .keyword) fused := by
  rintro ⟨fused, hok, h⟩
  have hlength : [Float64.ofRat 1, .ofRat 1].length =
    [deepRanking 1 .semantic, deepRanking 101 .keyword].length := rfl
  obtain ⟨fused', hok', hfusion⟩ := fuses_reciprocalRankFusion (k := rrfK)
    (nodup_two (by decide +kernel) (by decide +kernel)) (by decide) hlength
    (fitting_two.mpr (by decide +kernel))
  obtain rfl := Except.ok.inj (hok.symm.trans hok')
  have hbehind := ((agreement_of_fusion (by decide +kernel) hfusion).mp h 0 (by decide +kernel)
    (by decide +kernel)).1 1 (by decide +kernel) (by decide +kernel)
  exact absurd hbehind (by decide +kernel)

end Retrieval
end EvidenceLab
