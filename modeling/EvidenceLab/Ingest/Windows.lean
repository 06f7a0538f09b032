/-
# The windows of the chunker

`RecursiveCharacterChunker.splitBlock` returns stripped texts; the windows they
were cut from are gone.  They are put back here (`windows`): the texts of a block
are the texts of its windows, blank ones dropped (`splitBlock_eq`), and the
windows sweep the block (`sweep_windows`).  All that is needed of the choice of
a separator is that it cuts behind the start of the window and not behind its
stop (`boundary_bounds`); overlap and progress follow from the step of the loop.

The chunks of a document are the texts of its blocks in order, numbered
(`chunk_eq`).
-/

import EvidenceLab.Ingest.Chunking
import EvidenceLab.Text.Layout

namespace EvidenceLab
namespace Ingest
namespace RecursiveCharacterChunker

open Text EvidenceLab.Core

variable (c : RecursiveCharacterChunker)

/-! ### Where a window ends -/

theorem separators_ne_nil : ∀ s ∈ separators, s ≠ [] := by decide

theorem boundaryIn_bounds {window : Str} {start stop : ℕ} (hlt : start < stop)
    (hw : window.length ≤ stop - start) {seps : List Str} (hs : ∀ s ∈ seps, s ≠ []) :
    start < c.boundaryIn window start stop seps ∧ c.boundaryIn window start stop seps ≤ stop := by
  induction seps with
  | nil => exact ⟨hlt, le_rfl⟩
  | cons sep rest ih =>
      have ih := ih fun s hs' => hs s (List.mem_cons_of_mem _ hs')
      rw [boundaryIn]
      cases hf : rfind window sep with
      | none => exact ih
      | some index =>
          have hsep : sep ≠ [] := hs sep (List.mem_cons_self ..)
          have hend := (rfind_eq_some hf).1.add_le hsep
          have hpos := List.length_pos_iff.mpr hsep
          dsimp only
          split_ifs
          · exact ⟨by omega, by omega⟩
          · exact ih

/-- A boundary lies behind the start of the window, and not behind its stop. -/
theorem boundary_bounds (text : Str) {start stop : ℕ} (hlt : start < stop) :
    start < c.boundary text start stop ∧ c.boundary text start stop ≤ stop :=
  c.boundaryIn_bounds hlt (by rw [length_slice]; omega) separators_ne_nil

theorem windowEnd_bounds {text : Str} {cursor : ℕ} (h : cursor < text.length) :
    cursor < c.windowEnd text cursor ∧ c.windowEnd text cursor ≤ cursor + c.chunkSize ∧
      c.windowEnd text cursor ≤ text.length := by
  have hpos := c.chunkSize_pos
  simp only [windowEnd]
  split_ifs with hstop
  · have := c.boundary_bounds text
      (show cursor < min (cursor + c.chunkSize) text.length by omega)
    omega
  · omega

/-! ### The windows of a block -/

/-- The windows of `splitLoop`, from `cursor` on. -/
def windowsFrom (text : Str) (cursor : ℕ) : List (ℕ × ℕ) :=
  if cursor < text.length then
    let stop := c.windowEnd text cursor
    if text.length ≤ stop then [(cursor, stop)]
    else (cursor, stop) :: windowsFrom text (max (cursor + 1) (stop - c.overlap))
  else []
termination_by text.length - cursor
decreasing_by omega

/-- The windows of a block: a short block is one window. -/
def windows (text : Str) : List (ℕ × ℕ) :=
  if text.length ≤ c.chunkSize then [(0, text.length)] else c.windowsFrom text 0

/-- **The loop sweeps the text.** -/
theorem sweep_windowsFrom (text : Str) (cursor : ℕ) (h : cursor < text.length) :
    Sweep text.length cursor (c.windowsFrom text cursor) := by
  induction cursor using windowsFrom.induct c text with
  | case1 cursor _ stop hstop =>
      obtain ⟨-, -, hle⟩ := c.windowEnd_bounds h
      rw [windowsFrom, if_pos h, if_pos hstop, show c.windowEnd text cursor = text.length by omega]
      exact .last h
  | case2 cursor _ stop hstop ih =>
      obtain ⟨hlt, -, hle⟩ := c.windowEnd_bounds h
      rw [windowsFrom, if_pos h, if_neg hstop]
      refine .cons (by omega) ?_ (not_le.mp hstop) (ih ?_)
      · exact max_le hlt (Nat.sub_le ..)
      · exact max_lt (by omega) (by omega)
  | case3 cursor hge => exact absurd h hge

theorem windows_nil : c.windows [] = [(0, 0)] := if_pos (Nat.zero_le _)

theorem sweep_windows {text : Str} (h : text ≠ []) : Sweep text.length 0 (c.windows text) := by
  have hpos := List.length_pos_iff.mpr h
  rw [windows]
  split_ifs
  · exact .last hpos
  · exact c.sweep_windowsFrom text 0 hpos

/-- What holds of the window at each cursor holds of the windows of the loop. -/
theorem forall_mem_windowsFrom {text : Str} {P : ℕ × ℕ → Prop}
    (hP : ∀ cursor < text.length, P (cursor, c.windowEnd text cursor)) (cursor : ℕ) :
    ∀ w ∈ c.windowsFrom text cursor, P w := by
  induction cursor using windowsFrom.induct c text with
  | case1 cursor h stop hstop =>
      rw [windowsFrom, if_pos h, if_pos hstop]
      exact List.forall_mem_singleton.mpr (hP cursor h)
  | case2 cursor h stop hstop ih =>
      rw [windowsFrom, if_pos h, if_neg hstop]
      exact List.forall_mem_cons.mpr ⟨hP cursor h, ih⟩
  | case3 cursor hge =>
      rw [windowsFrom, if_neg hge]
      exact List.forall_mem_nil _

/-- No window is longer than the chunk size. -/
theorem windowsFrom_size (text : Str) (cursor : ℕ) :
    ∀ w ∈ c.windowsFrom text cursor, w.2 - w.1 ≤ c.chunkSize := by
  refine c.forall_mem_windowsFrom (fun cursor hcursor => ?_) cursor
  have hbounds := c.windowEnd_bounds hcursor
  exact Nat.sub_le_iff_le_add'.mpr hbounds.2.1

theorem windows_size (text : Str) : ∀ w ∈ c.windows text, w.2 - w.1 ≤ c.chunkSize := by
  rw [windows]
  split_ifs with h
  · intro w hw
    rw [List.mem_singleton.mp hw]
    exact h
  · exact c.windowsFrom_size text 0

/-! ### The texts of a block -/

/-- The texts of the windows that are not blank, with their offsets in the block. -/
def windowTexts (text : Str) (ws : List (ℕ × ℕ)) : List (Str × ℕ) :=
  (ws.map (windowText isSpace text)).filter (·.1 ≠ [])

theorem windowTexts_cons (text : Str) (w : ℕ × ℕ) (ws : List (ℕ × ℕ)) :
    windowTexts text (w :: ws) = windowTexts text [w] ++ windowTexts text ws := by
  rw [windowTexts, List.map_cons, ← List.singleton_append, List.filter_append]
  rfl

/-- Moves a text of a block to its offset in the document. -/
def shift (base : ℕ) (piece : Str × ℕ) : Str × ℕ := (piece.1, base + piece.2)

theorem emit_eq (text : Str) (base cursor stop : ℕ) :
    emit text base cursor stop = (windowTexts text [(cursor, stop)]).map (shift base) := by
  simp only [emit, windowTexts, windowText, List.map_cons, List.map_nil, List.filter_cons,
    List.filter_nil]
  split_ifs <;> simp_all [shift, Nat.add_assoc]

theorem splitLoop_eq (text : Str) (base cursor : ℕ) : c.splitLoop text base cursor =
    (windowTexts text (c.windowsFrom text cursor)).map (shift base) := by
  induction cursor using windowsFrom.induct c text with
  | case1 cursor h stop hstop =>
      rw [splitLoop, windowsFrom, if_pos h, if_pos hstop, if_pos h, if_pos hstop, emit_eq]
  | case2 cursor h stop hstop ih =>
      rw [splitLoop, windowsFrom, if_pos h, if_neg hstop, if_pos h, if_neg hstop, emit_eq, ih]
      conv_rhs => rw [windowTexts_cons, List.map_append]
  | case3 cursor hge =>
      rw [splitLoop, windowsFrom, if_neg hge, if_neg hge]
      rfl

/-- **The texts of a block are the texts of its windows.** -/
theorem splitBlock_eq (block : ParsedBlock) : c.splitBlock block =
    (windowTexts block.text (c.windows block.text)).map (shift (block.charStart.getD 0)) := by
  rw [splitBlock, windows]
  split_ifs with h
  · by_cases hs : strip isSpace block.text = []
    · simp [windowTexts, windowText, slice, hs]
    · simp [windowTexts, windowText, slice, hs, shift]
  · exact c.splitLoop_eq _ _ _

/-- What holds of every text of a block: it stands inside the block, is stripped,
not empty and no longer than the chunk size. -/
theorem splitBlock_standsAt {block : ParsedBlock} {piece : Str × ℕ}
    (h : piece ∈ c.splitBlock block) :
    ∃ o, piece.2 = block.charStart.getD 0 + o ∧ StandsAt block.text piece.1 o ∧
      o + piece.1.length ≤ block.text.length ∧ piece.1 ≠ [] ∧ Stripped isSpace piece.1 ∧
      piece.1.length ≤ c.chunkSize := by
  rw [splitBlock_eq] at h
  obtain ⟨q, hq, rfl⟩ := List.mem_map.mp h
  obtain ⟨hq, hne⟩ := List.mem_filter.mp hq
  obtain ⟨w, hw, rfl⟩ := List.mem_map.mp hq
  have hne : (windowText isSpace block.text w).1 ≠ [] := by simpa using hne
  have hst := standsAt_windowText isSpace block.text w
  exact ⟨_, rfl, hst, hst.add_le hne, hne, stripped_strip _ _,
    (length_windowText_le w).trans (c.windows_size _ w hw)⟩

/-- **Splitting a block loses only blanks.** -/
theorem splitBlock_covers {block : ParsedBlock} {n : ℕ} {x : CodePoint}
    (hx : block.text[n]? = some x) (hb : isSpace x = false) :
    ∃ piece ∈ c.splitBlock block, piece.2 ≤ block.charStart.getD 0 + n ∧
      block.charStart.getD 0 + n < piece.2 + piece.1.length := by
  have hn := (List.getElem?_eq_some_iff.mp hx).1
  have hne : block.text ≠ [] := by rintro h; simp [h] at hn
  obtain ⟨w, hw, h₁, h₂⟩ := (c.sweep_windows hne).covers (Nat.zero_le n) hn
  obtain ⟨hne, h₁, h₂⟩ := windowText_covers h₁ h₂ hx hb
  refine ⟨shift (block.charStart.getD 0) (windowText isSpace block.text w), ?_, ?_, ?_⟩
  · rw [splitBlock_eq]
    exact List.mem_map_of_mem (List.mem_filter.mpr ⟨List.mem_map_of_mem hw, by simpa using hne⟩)
  · exact Nat.add_le_add_left h₁ _
  · simp only [shift]
    omega

/-- The offsets of the texts of a block never decrease. -/
theorem splitBlock_pairwise (block : ParsedBlock) :
    (c.splitBlock block).Pairwise fun a b => a.2 ≤ b.2 := by
  rw [splitBlock_eq, windowTexts, List.pairwise_map, List.pairwise_filter, List.pairwise_map]
  rcases eq_or_ne block.text [] with h | h
  · rw [h, windows_nil]
    exact List.pairwise_singleton ..
  · refine (c.sweep_windows h).pairwise.imp fun hlt _ hne => ?_
    exact Nat.add_le_add_left (start_le_start hlt.le (by simpa using hne)) _

/-- A block has at most one text a character. -/
theorem length_splitBlock_le (block : ParsedBlock) :
    (c.splitBlock block).length ≤ block.text.length := by
  rw [splitBlock_eq, windowTexts, List.length_map]
  rcases eq_or_ne block.text [] with h | h
  · rw [h, windows_nil]
    rfl
  · have hf := List.length_filter_le (fun q : Str × ℕ => decide (q.1 ≠ []))
      ((c.windows block.text).map (windowText isSpace block.text))
    have hs := (c.sweep_windows h).length_le
    rw [List.length_map] at hf
    omega

/-! ### The chunks of a document -/

/-- The chunk of a text, given its page and its number. -/
def mkChunk (ordinal : ℕ) (piece : Option ℕ × Str × ℕ) : Chunk where
  text := piece.2.1
  ordinal := ordinal
  tokenCount := c.tokens piece.2.1
  page := piece.1
  charStart := some piece.2.2
  charEnd := some (piece.2.2 + piece.2.1.length)

/-- The texts of the blocks in order, with their pages. -/
def pieces (blocks : List ParsedBlock) : List (Option ℕ × Str × ℕ) :=
  blocks.flatMap fun b => (c.splitBlock b).map (b.page, ·)

theorem foldl_appendChunk (page : Option ℕ) (ps : List (Str × ℕ)) (chunks : List Chunk) :
    ps.foldl (c.appendChunk page) chunks =
      chunks ++ (ps.map (page, ·)).mapIdx fun i p => c.mkChunk (i + chunks.length) p := by
  induction ps generalizing chunks with
  | nil => simp
  | cons p ps ih =>
      rw [List.foldl_cons, ih, appendChunk, List.map_cons, List.mapIdx_cons, List.append_assoc]
      simp [mkChunk, Nat.add_comm, Nat.add_left_comm]

/-- **The chunks are the texts of the blocks, numbered in order.** -/
theorem chunk_eq (document : ParsedDocument) :
    c.chunk document = (c.pieces document.blocks).mapIdx c.mkChunk := by
  have hrun : ∀ (blocks : List ParsedBlock) (chunks : List Chunk),
      blocks.foldl (fun chunks b => (c.splitBlock b).foldl (c.appendChunk b.page) chunks) chunks =
        chunks ++ (c.pieces blocks).mapIdx fun i p => c.mkChunk (i + chunks.length) p := by
    intro blocks
    induction blocks with
    | nil => intro chunks; simp [pieces]
    | cons b blocks ih =>
        intro chunks
        rw [List.foldl_cons, ih, foldl_appendChunk, List.append_assoc]
        simp [pieces, List.mapIdx_append, Nat.add_comm, Nat.add_left_comm]
  rw [chunk, hrun, List.nil_append]
  rfl

/-- A chunk of a document is one of the texts of one of its blocks. -/
theorem mem_chunk {document : ParsedDocument} {ch : Chunk} (h : ch ∈ c.chunk document) :
    ∃ b ∈ document.blocks, ∃ piece ∈ c.splitBlock b, ch.text = piece.1 ∧ ch.page = b.page ∧
      ch.charStart = some piece.2 ∧ ch.charEnd = some (piece.2 + piece.1.length) := by
  rw [chunk_eq, List.mem_mapIdx] at h
  obtain ⟨i, hi, rfl⟩ := h
  obtain ⟨b, hb, hp⟩ := List.mem_flatMap.mp (List.getElem_mem hi)
  obtain ⟨piece, hpiece, heq⟩ := List.mem_map.mp hp
  exact ⟨b, hb, piece, hpiece, by simp [mkChunk, ← heq], by simp [mkChunk, ← heq],
    by simp [mkChunk, ← heq], by simp [mkChunk, ← heq]⟩

/-- A text of a block of the document is a chunk, with the page of the block. -/
theorem exists_mkChunk {document : ParsedDocument} {b : ParsedBlock} {piece : Str × ℕ}
    (hb : b ∈ document.blocks) (h : piece ∈ c.splitBlock b) :
    ∃ i, c.mkChunk i (b.page, piece) ∈ c.chunk document := by
  have hmem : (b.page, piece) ∈ c.pieces document.blocks :=
    List.mem_flatMap.mpr ⟨b, hb, List.mem_map_of_mem h⟩
  obtain ⟨i, hi, hget⟩ := List.getElem_of_mem hmem
  refine ⟨i, ?_⟩
  rw [chunk_eq, List.mem_mapIdx]
  exact ⟨i, hi, by rw [hget]⟩

theorem exists_chunk {document : ParsedDocument} {b : ParsedBlock} {piece : Str × ℕ}
    (hb : b ∈ document.blocks) (h : piece ∈ c.splitBlock b) :
    ∃ ch ∈ c.chunk document, ch.text = piece.1 ∧ ch.charStart = some piece.2 ∧
      ch.charEnd = some (piece.2 + piece.1.length) := by
  obtain ⟨i, hi⟩ := c.exists_mkChunk hb h
  exact ⟨_, hi, rfl, rfl, rfl⟩

/-- The ordinals count the chunks. -/
theorem chunk_ordinals (document : ParsedDocument) :
    (c.chunk document).map (·.ordinal) = List.range (c.chunk document).length := by
  rw [chunk_eq]
  refine List.ext_getElem (by simp) fun i h₁ h₂ => ?_
  simp [mkChunk]

theorem chunk_starts (document : ParsedDocument) :
    (c.chunk document).map (·.charStart) =
      (c.pieces document.blocks).map fun p => some p.2.2 := by
  rw [chunk_eq]
  refine List.ext_getElem (by simp) fun i h₁ h₂ => ?_
  simp [mkChunk]

/-- **The offsets of the chunks never decrease**, when no block starts before the
end of an earlier one: within a block by the order of its windows, across blocks
because a text ends inside its block. -/
theorem chunk_pairwise {document : ParsedDocument}
    (h : document.blocks.Pairwise fun a b =>
      a.charStart.getD 0 + a.text.length ≤ b.charStart.getD 0) :
    (c.chunk document).Pairwise fun a b =>
      ∃ s t, a.charStart = some s ∧ b.charStart = some t ∧ s ≤ t := by
  have hpieces : (c.pieces document.blocks).Pairwise fun p q => p.2.2 ≤ q.2.2 := by
    rw [pieces, List.pairwise_flatMap]
    refine ⟨fun b _ => List.pairwise_map.mpr (c.splitBlock_pairwise b), h.imp ?_⟩
    intro a b hab x hx y hy
    obtain ⟨p, hp, rfl⟩ := List.mem_map.mp hx
    obtain ⟨q, hq, rfl⟩ := List.mem_map.mp hy
    obtain ⟨i, hi, -, hle, -⟩ := c.splitBlock_standsAt hp
    obtain ⟨j, hj, -⟩ := c.splitBlock_standsAt hq
    show p.2 ≤ q.2
    omega
  refine (List.pairwise_map (f := fun ch : Chunk => ch.charStart)
    (R := fun a b => ∃ s t, a = some s ∧ b = some t ∧ s ≤ t)).mp ?_
  rw [chunk_starts, List.pairwise_map]
  exact hpieces.imp fun hle => ⟨_, _, rfl, rfl, hle⟩

end RecursiveCharacterChunker
end Ingest
end EvidenceLab
