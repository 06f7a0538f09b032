/-
# Chunks inside other chunks

The windows of the chunker never go back: a later window ends no earlier, whatever separators
the two were cut at (`windowEnd_mono`).  Each starts at least one character later, but it may
end where the one before it does, namely where the overlap reaches back over the whole of that
window, and the loop goes on by one character.  And what a window adds, or leaves behind, may be
blank.

So a chunk lies inside another one of its block iff some two successive windows with ink do not
renew the text (`apart_iff_renews`).
-/

import EvidenceLab.Ingest.Windows
import EvidenceLab.Text.Spans
import Mathlib.Data.List.Chain

namespace EvidenceLab
namespace Ingest
namespace RecursiveCharacterChunker

open Text EvidenceLab.Core

variable (c : RecursiveCharacterChunker) {text : Str} {start start' stop stop' : ℕ}

/-! ### Windows never go back -/

theorem separators_length : ∀ s ∈ separators, s ≠ [] ∧ s.length ≤ 2 := by decide

/-- A window is cut in its later quarters, or at its stop. -/
theorem le_boundaryIn {seps : List Str} (hseps : ∀ s ∈ seps, s ≠ []) (window : Str)
    (start stop : ℕ) :
    min stop (start + c.chunkSize / 4 + 2) ≤ c.boundaryIn window start stop seps := by
  induction seps with
  | nil => exact min_le_left _ _
  | cons sep rest ih =>
      have ih := ih fun s hs => hseps s (List.mem_cons_of_mem _ hs)
      have hpos := List.length_pos_iff.mpr (hseps sep (List.mem_cons_self ..))
      rw [boundaryIn]
      cases rfind window sep with
      | none => exact ih
      | some index =>
          dsimp only
          split_ifs
          · omega
          · exact ih

/-- A separator is cut at if it is found late enough, and passed over else. -/
theorem boundaryIn_cons (window : Str) (start stop : ℕ) (sep : Str) (rest : List Str) :
    (∃ index, rfind window sep = some index ∧ c.chunkSize / 4 < index ∧
      c.boundaryIn window start stop (sep :: rest) = start + index + sep.length) ∨
    ((∀ index, rfind window sep = some index → index ≤ c.chunkSize / 4) ∧
      c.boundaryIn window start stop (sep :: rest) = c.boundaryIn window start stop rest) := by
  rw [boundaryIn]
  cases rfind window sep with
  | none => exact Or.inr ⟨fun _ h => absurd h (Option.some_ne_none _).symm, rfl⟩
  | some index =>
      dsimp only
      split_ifs with hlate
      · exact Or.inl ⟨index, rfl, hlate, rfl⟩
      · refine Or.inr ⟨fun other hother => ?_, rfl⟩
        rw [← Option.some.inj hother]
        exact not_lt.mp hlate

/-- What stands in a window is found there from the back. -/
theorem exists_rfind_slice {sep : Str} {p : ℕ} (h : StandsAt text sep p) (hne : sep ≠ [])
    (hstart : start ≤ p) (hstop : p + sep.length ≤ stop) :
    ∃ index, rfind (slice text start stop) sep = some index ∧ p ≤ start + index := by
  obtain ⟨n, rfl⟩ := Nat.exists_eq_add_of_le hstart
  have hn := h.slice hstop
  have hle := hn.add_le hne
  obtain ⟨index, hindex, hge⟩ := exists_le_rfind (by omega) hn
  exact ⟨index, hindex, by omega⟩

/-- What is found in a window stands there. -/
theorem of_rfind_slice {sep : Str} {index : ℕ}
    (h : rfind (slice text start stop) sep = some index) (hne : sep ≠ []) :
    StandsAt text sep (start + index) ∧ start + index + sep.length ≤ stop := by
  obtain ⟨hstands, -⟩ := rfind_eq_some h
  have hle := hstands.add_le hne
  have hpos := List.length_pos_iff.mpr hne
  rw [length_slice] at hle
  exact ⟨(standsAt_slice text start stop).trans hstands, by omega⟩

/-- **A later window is cut no earlier**, at whichever separators. -/
theorem boundaryIn_mono {seps : List Str} (hseps : ∀ s ∈ seps, s ≠ [] ∧ s.length ≤ 2)
    (hlt : start < stop) (hstart : start ≤ start') (hstop : stop ≤ stop') :
    c.boundaryIn (slice text start stop) start stop seps ≤
      c.boundaryIn (slice text start' stop') start' stop' seps := by
  induction seps with
  | nil => exact hstop
  | cons sep rest ih =>
      have hrest : ∀ s ∈ rest, s ≠ [] := fun s hs => (hseps s (List.mem_cons_of_mem _ hs)).1
      obtain ⟨hne, htwo⟩ := hseps sep (List.mem_cons_self ..)
      rcases c.boundaryIn_cons (slice text start stop) start stop sep rest with
        ⟨index, hfound, -, hcut⟩ | ⟨hnone, hcut⟩ <;>
      rcases c.boundaryIn_cons (slice text start' stop') start' stop' sep rest with
        ⟨index', hfound', hlate', hcut'⟩ | ⟨hnone', hcut'⟩ <;>
      rw [hcut, hcut']
      · -- Both are cut at the separator: at its last occurrence in the later one.
        obtain ⟨hstands, hle⟩ := of_rfind_slice hfound hne
        by_cases hin : start' ≤ start + index
        · obtain ⟨other, hother, hge⟩ := exists_rfind_slice hstands hne hin (hle.trans hstop)
          obtain rfl := Option.some.inj (hother.symm.trans hfound')
          omega
        · omega
      · -- The occurrence is in the first quarter of the later window, or before it.
        obtain ⟨hstands, hle⟩ := of_rfind_slice hfound hne
        have hfirst : start + index ≤ start' + c.chunkSize / 4 := by
          by_cases hin : start' ≤ start + index
          · obtain ⟨other, hother, hge⟩ := exists_rfind_slice hstands hne hin (hle.trans hstop)
            have hsmall := hnone' other hother
            omega
          · omega
        have hge := c.le_boundaryIn hrest (slice text start' stop') start' stop'
        omega
      · -- The occurrence is not in the earlier window: it ends behind its stop.
        obtain ⟨hstands, -⟩ := of_rfind_slice hfound' hne
        have hsize : (slice text start stop).length ≤ stop - start := by
          rw [length_slice]
          omega
        have hbounds := c.boundaryIn_bounds hlt hsize hrest
        by_contra hback
        have hin : start ≤ start' + index' := hstart.trans (Nat.le_add_right _ _)
        have hends : start' + index' + sep.length ≤ stop := by omega
        obtain ⟨other, hother, hge⟩ := exists_rfind_slice hstands hne hin hends
        have hsmall := hnone other hother
        omega
      · exact ih fun s hs => hseps s (List.mem_cons_of_mem _ hs)

/-- **The windows never go back.** -/
theorem windowEnd_mono {cursor cursor' : ℕ} (h : cursor ≤ cursor') :
    c.windowEnd text cursor ≤ c.windowEnd text cursor' := by
  have hpos := c.chunkSize_pos
  simp only [windowEnd]
  split_ifs with hstop hstop'
  · exact c.boundaryIn_mono separators_length (by omega) h (by omega)
  · have hbounds := c.boundary_bounds text
      (show cursor < min (cursor + c.chunkSize) text.length by omega)
    omega
  · omega
  · omega

theorem eq_of_mem_head? {cursor : ℕ} {w : ℕ × ℕ} (h : w ∈ (c.windowsFrom text cursor).head?) :
    w = (cursor, c.windowEnd text cursor) := by
  rw [windowsFrom] at h
  dsimp only at h
  split_ifs at h
  · exact (Option.some.inj h).symm
  · exact (Option.some.inj h).symm
  · cases h

/-- The cursor behind a window that is not the last one. -/
def nextCursor (text : Str) (cursor : ℕ) : ℕ :=
  max (cursor + 1) (c.windowEnd text cursor - c.overlap)

theorem lt_nextCursor (text : Str) (cursor : ℕ) : cursor < c.nextCursor text cursor :=
  Nat.lt_of_succ_le (le_max_left _ _)

/-- **What holds of each window and the next one** holds along the loop. -/
theorem isChain_windowsFrom_of {R : ℕ × ℕ → ℕ × ℕ → Prop}
    (hstep : ∀ cursor < text.length, c.windowEnd text cursor < text.length →
      R (cursor, c.windowEnd text cursor)
        (c.nextCursor text cursor, c.windowEnd text (c.nextCursor text cursor)))
    (cursor : ℕ) : (c.windowsFrom text cursor).IsChain R := by
  induction cursor using windowsFrom.induct c text with
  | case1 cursor h stop hstop =>
      rw [windowsFrom, if_pos h, if_pos hstop]
      exact List.isChain_singleton _
  | case2 cursor h stop hstop ih =>
      rw [windowsFrom, if_pos h, if_neg hstop]
      refine List.isChain_cons.mpr ⟨?_, ih⟩
      intro w hw
      rw [c.eq_of_mem_head? hw]
      exact hstep cursor h (not_le.mp hstop)
  | case3 cursor hge =>
      rw [windowsFrom, if_neg hge]
      exact List.isChain_nil

theorem isChain_windowsFrom (text : Str) (cursor : ℕ) :
    (c.windowsFrom text cursor).IsChain Advances := by
  refine c.isChain_windowsFrom_of (fun cursor _ _ => ?_) cursor
  have hforward := (c.lt_nextCursor text cursor).le
  exact ⟨hforward, c.windowEnd_mono hforward⟩

/-- The spans `[char_start, char_end)` of the chunks of a block. -/
def spansOf (block : ParsedBlock) : List (ℕ × ℕ) :=
  (c.splitBlock block).map fun piece => (piece.2, piece.2 + piece.1.length)

/-- The chunks of a document have the spans of its blocks, in order. -/
theorem chunk_spans (document : ParsedDocument) :
    (c.chunk document).map (fun ch => (ch.charStart, ch.charEnd)) =
      (document.blocks.flatMap c.spansOf).map fun w => (some w.1, some w.2) := by
  have hpieces : (document.blocks.flatMap c.spansOf).map (fun w => (some w.1, some w.2)) =
      (c.pieces document.blocks).map fun p => (some p.2.2, some (p.2.2 + p.2.1.length)) := by
    simp only [pieces, spansOf, List.map_flatMap, List.map_map]
    rfl
  rw [hpieces, chunk_eq]
  refine List.ext_getElem (by simp) fun i h₁ h₂ => ?_
  simp [mkChunk]

/-- How far a window that is not the last one goes, at least. -/
def reach : ℕ := min c.chunkSize (c.chunkSize / 4 + 2)

theorem reach_le {cursor : ℕ} (h : c.windowEnd text cursor < text.length) :
    cursor + c.reach ≤ c.windowEnd text cursor := by
  simp only [windowEnd, reach] at h ⊢
  split_ifs at h ⊢ with hstop
  · have hge := c.le_boundaryIn separators_ne_nil
      (slice text cursor (min (cursor + c.chunkSize) text.length)) cursor
      (min (cursor + c.chunkSize) text.length)
    rw [boundary]
    omega
  · omega

end RecursiveCharacterChunker
end Ingest
end EvidenceLab
