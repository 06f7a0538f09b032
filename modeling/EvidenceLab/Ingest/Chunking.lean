/-
# Recursive character chunking

`core/chunking/base.py`, `recursive.py` and `tokens.py`.  A block longer than
the chunk size is cut by a window that moves forward: the window ends at the
widest natural separator in its last three quarters, what it holds is stripped
and emitted, and the next window starts `overlap` characters before that end,
but at least one character after the start of this one.  That last clause is
what makes the loop terminate; here it is the measure of `splitLoop`.

The constructor refuses a chunk size that is not positive and an overlap that is
negative or not smaller than it (`RecursiveCharacterChunker.init`), so a chunker
carries these bounds as fields.
-/

import EvidenceLab.Ingest.Parsing

namespace EvidenceLab
namespace Ingest

open Text EvidenceLab.Core

/-- `Chunk`. -/
structure Chunk where
  text : Str
  ordinal : ℕ
  tokenCount : ℕ
  page : Option ℕ := none
  charStart : Option ℕ := none
  charEnd : Option ℕ := none
  deriving DecidableEq, Repr

/-- `round(n / 4)`, a tie going to the even neighbour. -/
def roundQuarter (n : ℕ) : ℕ :=
  if n % 4 = 3 ∨ (n % 4 = 2 ∧ n / 4 % 2 = 1) then n / 4 + 1 else n / 4

/-- `HeuristicTokenCounter.count`: about four characters a token, and at least
one token in a text that is not empty. -/
def heuristicTokens (text : Str) : ℕ :=
  if text = [] then 0 else max 1 (roundQuarter text.length)

/-- `_SEPARATORS`, widest to narrowest. -/
def separators : List Str := [[lf, lf], [lf], [fullStop, blankChar], [blankChar]]

/-- `RecursiveCharacterChunker`, with the bounds its constructor checks. -/
structure RecursiveCharacterChunker where
  chunkSize : ℕ
  overlap : ℕ
  tokens : Str → ℕ := heuristicTokens
  chunkSize_pos : 0 < chunkSize
  overlap_lt : overlap < chunkSize

/-- `RecursiveCharacterChunker.__init__`. -/
def RecursiveCharacterChunker.init (chunkSize overlap : ℤ) (tokenCounter : Option (Str → ℕ)) :
    Except Exc RecursiveCharacterChunker :=
  if h : chunkSize ≤ 0 then .error .valueError
  else if h' : 0 ≤ overlap ∧ overlap < chunkSize then
    .ok { chunkSize := chunkSize.toNat
          overlap := overlap.toNat
          tokens := tokenCounter.getD heuristicTokens
          chunkSize_pos := by omega
          overlap_lt := by omega }
  else .error .valueError

namespace RecursiveCharacterChunker

variable (c : RecursiveCharacterChunker)

/-- The loop of `_boundary` over the separators still to try. -/
def boundaryIn (window : Str) (start stop : ℕ) : List Str → ℕ
  | [] => stop
  | separator :: rest =>
      match rfind window separator with
      | some index =>
          -- A separator so early that the chunk would be mostly empty is ignored.
          if c.chunkSize / 4 < index then start + index + separator.length
          else boundaryIn window start stop rest
      | none => boundaryIn window start stop rest

/-- `_boundary`: where the window from `start` to `stop` is cut. -/
def boundary (text : Str) (start stop : ℕ) : ℕ :=
  c.boundaryIn (slice text start stop) start stop separators

/-- The end of the window that starts at `cursor`. -/
def windowEnd (text : Str) (cursor : ℕ) : ℕ :=
  let stop := min (cursor + c.chunkSize) text.length
  if stop < text.length then c.boundary text cursor stop else stop

/-- The text of the window from `cursor` to `stop` with its offset, unless the
window is blank. -/
def emit (text : Str) (base cursor stop : ℕ) : List (Str × ℕ) :=
  let piece := slice text cursor stop
  let stripped := strip isSpace piece
  if stripped = [] then []
  else [(stripped, base + cursor + lead isSpace piece)]

/-- The `while` loop of `_split_block`, from `cursor` on. -/
def splitLoop (text : Str) (base cursor : ℕ) : List (Str × ℕ) :=
  if cursor < text.length then
    let stop := c.windowEnd text cursor
    let pieces := emit text base cursor stop
    if text.length ≤ stop then pieces
    else pieces ++ splitLoop text base (max (cursor + 1) (stop - c.overlap))
  else []
termination_by text.length - cursor
decreasing_by omega

/-- `_split_block`: the texts of one block with their offsets in the document. -/
def splitBlock (block : ParsedBlock) : List (Str × ℕ) :=
  let base := block.charStart.getD 0
  let text := block.text
  if text.length ≤ c.chunkSize then
    let stripped := strip isSpace text
    if stripped = [] then []
    else [(stripped, base + lead isSpace text)]
  else c.splitLoop text base 0

/-- The body of the loop of `chunk` over the texts of one block. -/
def appendChunk (page : Option ℕ) (chunks : List Chunk) (piece : Str × ℕ) : List Chunk :=
  chunks ++ [{ text := piece.1
               ordinal := chunks.length
               tokenCount := c.tokens piece.1
               page
               charStart := some piece.2
               charEnd := some (piece.2 + piece.1.length) }]

/-- `chunk`. -/
def chunk (document : ParsedDocument) : List Chunk :=
  document.blocks.foldl
    (fun chunks block => (c.splitBlock block).foldl (c.appendChunk block.page) chunks) []

end RecursiveCharacterChunker

end Ingest
end EvidenceLab
