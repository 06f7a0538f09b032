/-
# Parsing: from bytes to positioned blocks

`core/parsing/base.py`, `text.py`, `pdf.py` and `registry.py`.  A parser turns
the bytes of an upload into blocks of text, each with the offset at which it
stands in the document.  `TextParser` decodes, splits at blank lines and finds
every piece again with a cursor that only moves forward; `PdfParser` takes one
block per page and keeps a running offset.  What `pypdf` does with the bytes is
outside the repository: a PDF is given by what its reader returns (`PdfFile`).
-/

import EvidenceLab.Core.Errors
import EvidenceLab.Text.Split
import EvidenceLab.Text.Utf8

namespace EvidenceLab
namespace Ingest

open Text EvidenceLab.Core

/-- The `kind` of a block. -/
inductive BlockKind
  | paragraph | heading | page
  deriving DecidableEq, Repr

/-- `ParsedBlock`: a positioned unit of text. -/
structure ParsedBlock where
  text : Str
  page : Option ℕ := none
  charStart : Option ℕ := none
  charEnd : Option ℕ := none
  kind : BlockKind := .paragraph
  deriving DecidableEq, Repr

/-- `ParsedDocument`. -/
structure ParsedDocument where
  blocks : List ParsedBlock
  pageCount : Option ℕ := none
  metadata : List (String × Str) := []
  deriving DecidableEq, Repr

/-- `{"filename": filename} if filename else {}`. -/
def filenameMetadata : Option Str → List (String × Str)
  | some (c :: cs) => [("filename", c :: cs)]
  | _ => []

/-! ### Plain text and Markdown -/

/-- The length of a match of `\n[ \t]*\n` at the head of a string, `0` if there
is none.  The class `[ \t]` holds no line feed, so the greedy match is the only
one. -/
def blockSeparatorLen : Str → ℕ
  | [] => 0
  | c :: s =>
      let gap := (s.takeWhile fun x => x == blankChar || x == tab).length
      if c = lf ∧ s[gap]? = some lf then gap + 2 else 0

/-- `_BLOCK_SEPARATOR.split(text)`. -/
def splitBlocks (text : Str) : List Str := split blockSeparatorLen text

/-- `_MARKDOWN_HEADING.match(s)`: one to six number signs, blanks, and a
character that is not blank. -/
def isMarkdownHeading (s : Str) : Bool :=
  let signs := (s.takeWhile (· == numberSign)).length
  let rest := s.drop signs
  decide (1 ≤ signs ∧ signs ≤ 6) && decide (0 < lead isSpace rest) &&
    decide (lead isSpace rest < rest.length)

/-- The loop of `TextParser.parse` over the pieces of the split, the cursor
standing behind the piece found last. -/
def textBlocks (text : Str) : ℕ → List Str → List ParsedBlock
  | _, [] => []
  | cursor, raw :: rest =>
      let start := (find text raw cursor).getD cursor
      let cursor' := start + raw.length
      let stripped := strip isSpace raw
      if stripped = [] then textBlocks text cursor' rest
      else
        let offset := start + lead isSpace raw
        { text := stripped
          charStart := some offset
          charEnd := some (offset + stripped.length)
          kind := if isMarkdownHeading stripped then .heading else .paragraph } ::
          textBlocks text cursor' rest

/-- `TextParser.parse`. -/
def TextParser.parse (data : List UInt8) (filename : Option Str) : ParsedDocument :=
  let text := decodeUtf8 data
  { blocks := textBlocks text 0 (splitBlocks text)
    metadata := filenameMetadata filename }

/-! ### PDF -/

/-- What `pypdf` returns for the bytes of a PDF: whether it is encrypted, what
`reader.decrypt("")` raises, and for each page what `page.extract_text()`
returns or raises. -/
structure PdfFile where
  isEncrypted : Bool := false
  decryptRaises : Option Exc := none
  pages : List (Except Exc (Option Str))

/-- The exceptions `PdfParser.parse` expects of `PdfReader(...)`. -/
def Exc.isUnreadablePdf : Exc → Bool
  | .pdfReadError | .valueError | .osError => true
  | _ => false

/-- A detail that is `None` for an absent name. -/
def filenameDetail (filename : Option Str) : String × Detail :=
  ("filename", filename.elim .none .text)

/-- The loop of `PdfParser.parse` over the pages, from page `number` on, the
text so far being `offset` characters long. -/
def pdfBlocks (filename : Option Str) :
    ℕ → ℕ → List (Except Exc (Option Str)) → Except Exc (List ParsedBlock)
  | _, _, [] => .ok []
  | number, _, .error e :: _ =>
      if e.isException then
        .error (.domain (pipelineError s!"Page {number} could not be extracted." .parsingFailed
          "parsing" [filenameDetail filename, ("page", .number number)]))
      else .error e
  | number, offset, .ok extracted :: rest =>
      let text := strip isSpace (extracted.getD [])
      -- Scanned pages yield nothing and leave the offset where it is.
      if text = [] then pdfBlocks filename (number + 1) offset rest
      else do
        let blocks ← pdfBlocks filename (number + 1) (offset + (text.length + 1)) rest
        return { text
                 page := some number
                 charStart := some offset
                 charEnd := some (offset + text.length)
                 kind := .page } :: blocks

/-- `PdfParser.parse`, on what `PdfReader(...)` gives for the bytes. -/
def PdfParser.parse (reader : Except Exc PdfFile) (filename : Option Str) :
    Except Exc ParsedDocument :=
  match reader with
  | .error e =>
      if Exc.isUnreadablePdf e then
        .error (.domain (pipelineError "The file could not be read as a PDF." .parsingFailed
          "parsing" [filenameDetail filename]))
      else .error e
  | .ok file => do
      if file.isEncrypted then
        match file.decryptRaises with
        | some e =>
            if e.isException then
              throw (.domain (pipelineError "The PDF is password protected." .parsingFailed
                "parsing" [filenameDetail filename]))
            else throw e
        | none => pure ()
      let blocks ← pdfBlocks filename 1 0 file.pages
      return { blocks
               pageCount := some file.pages.length
               metadata := filenameMetadata filename }

/-! ### Selection by media type -/

/-- `PdfParser.mime_types` and `TextParser.mime_types`. -/
def PdfParser.mimeTypes : List String := ["application/pdf"]
def TextParser.mimeTypes : List String := ["text/plain", "text/markdown"]

/-- `sorted(supported_mime_types())`. -/
def supportedMimeTypes : List String := ["application/pdf", "text/markdown", "text/plain"]

/-- `get_parser(mime_type).parse(payload, filename=filename)`, `pypdf` being what
`PdfReader` makes of the bytes. -/
def parseAs (pypdf : List UInt8 → Except Exc PdfFile) (mimeType : String) (payload : List UInt8)
    (filename : Option Str) : Except Exc ParsedDocument :=
  if mimeType ∈ PdfParser.mimeTypes then PdfParser.parse (pypdf payload) filename
  else if mimeType ∈ TextParser.mimeTypes then .ok (TextParser.parse payload filename)
  else .error (.domain (pipelineError s!"No parser is registered for '{mimeType}'."
    .parsingFailed "parsing"
    [("mime_type", .name mimeType), ("supported", .names supportedMimeTypes)]))

end Ingest
end EvidenceLab
