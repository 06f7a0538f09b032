/-
# The windows advance

The ends of the chunker's windows never go back (`windowEnd_mono`), although each is cut at the
widest separator of its own window.  With an overlap of at most a quarter of the chunk size they
advance, and each window but the last goes on by a fixed number of characters
(`grows_windowsFrom`), which keeps the number of chunks linear.
-/

import EvidenceLab.Ingest.Redundancy

namespace EvidenceLab
namespace Ingest
namespace RecursiveCharacterChunker

open Text EvidenceLab.Core

variable (c : RecursiveCharacterChunker) {text : Str}

/-- What a chain says of each of its members that has a next one. -/
theorem forall_mem_dropLast {α : Type*} {P : α → Prop} {l : List α}
    (h : l.IsChain fun a _ => P a) : ∀ a ∈ l.dropLast, P a := by
  induction l with
  | nil => exact List.forall_mem_nil _
  | cons a l ih =>
      cases l with
      | nil => exact List.forall_mem_nil _
      | cons b l =>
          obtain ⟨ha, hrest⟩ := List.isChain_cons_cons.mp h
          rw [List.dropLast_cons_cons]
          exact List.forall_mem_cons.mpr ⟨ha, ih hrest⟩

/-- How much further each window goes than the one before it. -/
def growth : ℕ := c.chunkSize / 4 - c.overlap + 1

/-- A window that is not the last one goes further than the one before by the growth. -/
theorem add_growth_le (hoverlap : c.overlap ≤ c.chunkSize / 4) {cursor : ℕ}
    (h : c.windowEnd text (c.nextCursor text cursor) < text.length) :
    c.windowEnd text cursor + c.growth ≤ c.windowEnd text (c.nextCursor text cursor) := by
  have hpos := c.chunkSize_pos
  have hreach := c.reach_le h
  have hnext : c.windowEnd text cursor - c.overlap ≤ c.nextCursor text cursor := le_max_right _ _
  rw [growth]
  rw [reach] at hreach
  omega

/-- **With an overlap of at most a quarter of the chunk size** the windows but the last grow. -/
theorem grows_windowsFrom (text : Str) (hoverlap : c.overlap ≤ c.chunkSize / 4) (cursor : ℕ) :
    (c.windowsFrom text cursor).IsChain fun w w' =>
      w.2 < text.length ∧ w.2 < w'.2 ∧ (w'.2 < text.length → w.2 + c.growth ≤ w'.2) := by
  refine c.isChain_windowsFrom_of (fun cursor _ hstop => ⟨hstop, ?_, c.add_growth_le hoverlap⟩) _
  by_cases hnext : c.windowEnd text (c.nextCursor text cursor) < text.length
  · have hgrow := c.add_growth_le hoverlap hnext
    rw [growth] at hgrow
    omega
  · exact hstop.trans_le (not_lt.mp hnext)

/-- The starts of the windows increase, each within the window before it. -/
theorem starts_windowsFrom (text : Str) (cursor : ℕ) :
    (c.windowsFrom text cursor).IsChain fun w w' => w.1 < w'.1 ∧ w'.1 ≤ w.2 := by
  refine c.isChain_windowsFrom_of (fun cursor hcursor _ => ⟨c.lt_nextCursor text cursor, ?_⟩) _
  exact max_le (c.windowEnd_bounds hcursor).1 (Nat.sub_le _ _)

/-- **The windows of the loop advance**: their starts increase, each starts within the window
before it or at its end, no window is empty or longer than the chunk size, and the ends never
decrease.  With an overlap of at most a quarter of the chunk size the ends increase, and those of
all windows but the last by the growth at least. -/
theorem windows_advance (text : Str) :
    (∀ base, c.splitLoop text base 0 =
      (windowTexts text (c.windowsFrom text 0)).map (shift base)) ∧
    (c.windowsFrom text 0).Pairwise (fun w w' => w.1 < w'.1) ∧
    (∀ w ∈ c.windowsFrom text 0, w.1 < w.2 ∧ w.2 ≤ w.1 + c.chunkSize ∧ w.2 ≤ text.length) ∧
    (c.windowsFrom text 0).IsChain (fun w w' => w'.1 ≤ w.2) ∧
    (c.windowsFrom text 0).Pairwise (fun w w' => w.2 ≤ w'.2) ∧
    (c.overlap ≤ c.chunkSize / 4 →
      (c.windowsFrom text 0).Pairwise (fun w w' => w.2 < w'.2) ∧
      (c.windowsFrom text 0).dropLast.IsChain fun w w' =>
        w.2 + (c.chunkSize / 4 - c.overlap + 1) ≤ w'.2) := by
  have hstarts := c.starts_windowsFrom text 0
  refine ⟨fun base => c.splitLoop_eq text base 0, ?_, ?_, ?_, ?_, ?_⟩
  · exact (hstarts.imp fun _ _ h => h.1).pairwise
  · exact c.forall_mem_windowsFrom (fun cursor hcursor => c.windowEnd_bounds hcursor) 0
  · exact hstarts.imp fun _ _ h => h.2
  · exact ((c.isChain_windowsFrom text 0).imp fun _ _ h => h.2).pairwise
  · intro hoverlap
    have hgrows := c.grows_windowsFrom text hoverlap 0
    refine ⟨(hgrows.imp fun _ _ h => h.2.1).pairwise, ?_⟩
    have hinside := forall_mem_dropLast (hgrows.imp fun _ _ h => h.1)
    exact hgrows.dropLast.imp_of_mem_imp fun w w' _ hw' h => h.2.2 (hinside w' hw')

end RecursiveCharacterChunker
end Ingest
end EvidenceLab
