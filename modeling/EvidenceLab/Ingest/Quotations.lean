/-
# Quotations

A chunk, a hit, a citation and an item of the evidence are passages that say where they
stand: offsets into a document, and for a PDF a page.  `Quotation.From` says when that is
true of a file.  Every chunk that ingestion makes of a file is quoted from it
(`quoted_of_output`), and what a job does to the row of a document never changes what the
upload said of its file (`origin_runIngestion`, `origin_embedDocument`): so a quotation stays
one, however often the document is ingested or embedded again.
-/

import EvidenceLab.Ingest.Rows
import EvidenceLab.Ingest.Uploads
import EvidenceLab.Ingest.Provenance
import EvidenceLab.Runs.Frames
import EvidenceLab.Text.Stretches

namespace EvidenceLab
namespace Ingest

open Text Data EvidenceLab.Core Runs Session

/-! ### Passages of a file -/

/-- A passage, and where it is said to stand. -/
structure Quotation where
  text : Str
  page : Option ℕ
  charStart : Option ℕ
  charEnd : Option ℕ

/-- The passage of a chunk. -/
def Chunk.quotation (ch : Chunk) : Quotation := ⟨ch.text, ch.page, ch.charStart, ch.charEnd⟩

namespace Quotation

variable (q : Quotation)

/-- The passage is not empty, and it is the text between its offsets. -/
def Resolves (text : Str) : Prop :=
  q.text ≠ [] ∧ ∃ start stop, q.charStart = some start ∧ q.charEnd = some stop ∧
    slice text start stop = q.text

/-- The passage stands on the page that it names, as the page was extracted. -/
def OnPage (texts : List Str) : Prop :=
  ∃ i raw, q.page = some (i + 1) ∧ texts[i]? = some raw ∧ q.text <:+: raw

/-- **The passage is quoted from a file** of the given type: from the text that the bytes
decode to, or from a page of a PDF. -/
inductive From (pypdf : List UInt8 → Except Exc PdfFile) (mimeType : String)
    (data : List UInt8) : Prop
  | text (hmime : mimeType ∈ TextParser.mimeTypes) (hpage : q.page = none)
      (hresolves : q.Resolves (decodeUtf8 data))
  | pdf {file : PdfFile} (hmime : mimeType ∈ PdfParser.mimeTypes) (hfile : pypdf data = .ok file)
      (hpage : q.OnPage file.texts) (hresolves : q.Resolves (pdfDocument file.texts))

end Quotation

/-! ### Chunks are quotations -/

section Chunks

variable {c : RecursiveCharacterChunker} {document : ParsedDocument} {ch : Chunk}

/-- Every chunk is a passage of a block, with the page of the block. -/
theorem exists_block (h : ch ∈ c.chunk document) :
    ∃ b ∈ document.blocks, ch.page = b.page ∧ ch.text <:+: b.text := by
  obtain ⟨b, hb, piece, hpiece, htext, hpage, -⟩ := c.mem_chunk h
  obtain ⟨o, -, hstands, -⟩ := c.splitBlock_standsAt hpiece
  rw [htext]
  exact ⟨b, hb, hpage, hstands.isInfix.trans (List.drop_suffix o _).isInfix⟩

theorem text_ne_nil (h : ch ∈ c.chunk document) : ch.text ≠ [] := by
  obtain ⟨b, -, piece, hpiece, htext, -⟩ := c.mem_chunk h
  obtain ⟨-, -, -, -, hne, -⟩ := c.splitBlock_standsAt hpiece
  rw [htext]
  exact hne

/-- The chunks of a document that is laid out in a text resolve to it. -/
theorem resolves_of_layout {text : Str}
    (hlayout : Layout isSpace text 0 (document.blocks.map ParsedBlock.span))
    (h : ch ∈ c.chunk document) : ch.quotation.Resolves text := by
  obtain ⟨-, -, -, start, stop, hresolves, -⟩ := chunk_resolves c (standsAt_of_layout hlayout) h
  exact ⟨text_ne_nil h, start, stop, hresolves⟩

/-- **Every chunk of a parsed file is quoted from the file.** -/
theorem quoted_of_parseAs {pypdf : List UInt8 → Except Exc PdfFile} {mimeType : String}
    {data : List UInt8} {filename : Option Str}
    (hparsed : parseAs pypdf mimeType data filename = .ok document) (h : ch ∈ c.chunk document) :
    ch.quotation.From pypdf mimeType data := by
  obtain ⟨b, hb, hpage, hinfix⟩ := exists_block h
  unfold parseAs at hparsed
  split at hparsed
  · rename_i hpdf
    cases hfile : pypdf data with
    | error e =>
        rw [hfile, PdfParser.parse] at hparsed
        split at hparsed <;> cases hparsed
    | ok file =>
        rw [hfile] at hparsed
        obtain ⟨-, i, raw, hraw, hnumber, htext, -⟩ :=
          pdfBlocks_page _ _ _ _ (PdfParser.blocks_of_parse hparsed) b hb
        refine .pdf hpdf hfile ⟨i, raw, ?_, hraw, ?_⟩
          (resolves_of_layout (PdfParser.layout hparsed) h)
        · exact hpage.trans (hnumber.trans (congrArg some (Nat.add_comm 1 i)))
        · exact (htext ▸ hinfix).trans (strip_isInfix isSpace raw)
  · split at hparsed
    · rename_i htext
      obtain rfl := Except.ok.inj hparsed
      exact .text htext (hpage.trans (textBlocks_positioned _ _ _ b hb).2)
        (resolves_of_layout (TextParser.layout data filename) h)
    · cases hparsed

/-- So is every chunk that an attempt at ingestion makes. -/
theorem quoted_of_output {a : IngestAttempt} {d : Document} {chunks : List Chunk}
    {pageCount : Option ℕ} (houtput : a.output d = .ok (chunks, pageCount)) (h : ch ∈ chunks) :
    ∃ data, a.payload = .ok data ∧ ch.quotation.From a.pypdf d.mimeType data := by
  obtain ⟨data, hdata, houtput⟩ := bind_eq_ok.mp houtput
  obtain ⟨parsed, hparsed, houtput⟩ := bind_eq_ok.mp houtput
  obtain ⟨chunker, -, houtput⟩ := bind_eq_ok.mp houtput
  cases houtput
  exact ⟨data, hdata, quoted_of_parseAs hparsed h⟩

end Chunks

/-! ### What an upload says of its file -/

/-- The columns that an upload sets once and for all. -/
structure Origin where
  id : Uuid
  contentHash : Str
  filename : Option Str
  mimeType : String
  sizeBytes : ℕ
  deriving DecidableEq

def Document.origin (d : Document) : Origin :=
  ⟨d.id, d.contentHash, d.filename, d.mimeType, d.sizeBytes⟩

section Origins

variable {V : Type}

/-- What an upload says of its file. -/
def UploadAttempt.Registers (a : UploadAttempt) (o : Origin) : Prop :=
  ∃ payload contentHash, readAndHash a = .ok (payload, contentHash) ∧
    o = ⟨a.documentId, contentHash, a.filename, a.mimeType, payload.length⟩

/-- A document that an upload leaves where there was none. -/
theorem registers_createFromUpload (a : UploadAttempt) {s : Store V} (hnone : s.document = none)
    {d : Document} (h : (perform (createFromUpload a) s).2.document = some d) :
    a.Registers d.origin := by
  set Registered : Store V → Prop :=
    fun s' => ∀ d, s'.document = some d → a.Registers d.origin with hRegistered
  have hsame : Registered s := fun d hd => by cases hnone.symm.trans hd
  refine committed_of_wp (P := Registered) ?_ d h
  unfold createFromUpload
  split
  · exact hsame
  · simp only [wp_bind, wp_ask, wp_getDocument, hnone, Option.filter_none]
    refine ⟨fun file hfile => ⟨fun _ => ?_, fun _ _ => hsame⟩, fun _ _ => hsame⟩
    set document : Document :=
      { id := a.documentId, contentHash := file.2, filename := a.filename, mimeType := a.mimeType,
        sizeBytes := file.1.length } with hdocument
    have hregistered : Registered { s with document := s.document <|> some document } := by
      intro d hd
      rw [hnone] at hd
      obtain rfl := Option.some.inj hd
      exact ⟨file.1, file.2, hfile, rfl⟩
    simp only [registerDocument, wp_bind, wp_await, wp_change, wp_commit, wp_pure]
    refine ⟨fun _ => ⟨fun _ _ => hregistered, fun e _ => ?_⟩, fun _ _ => hsame⟩
    split
    · exact hregistered
    · exact hsame

/-- The document is there as it was uploaded, or there is none. -/
def Store.Originates (o : Option Origin) (s : Store V) : Prop := s.document.map Document.origin = o

variable {o : Option Origin}

theorem Store.Originates.updateDocument {s : Store V} (h : s.Originates o)
    {f : Document → Document} (hf : ∀ d, (f d).origin = d.origin) :
    (s.updateDocument f).Originates o := by
  rw [Originates, ← h, document_updateDocument, Option.map_map]
  exact congrFun (congrArg Option.map (funext hf)) s.document

theorem preserves_getDocument (reply : Option Exc) :
    Preserves (Store.Originates (V := V) o) (getDocument reply) :=
  (preserves_await _).bind fun _ => preserves_current.bind fun _ => preserves_pure _

theorem preserves_setDocument {f : Document → Document} (hf : ∀ d, (f d).origin = d.origin) :
    Preserves (Store.Originates (V := V) o) (setDocument f) :=
  preserves_change fun _ h => h.updateDocument hf

theorem preserves_recordFailure (replies : AmendReplies Exc) (code : ErrorCode)
    (message : String) :
    Preserves (Store.Originates (V := V) o) (recordFailure replies code message) :=
  preserves_amend _ _ fun _ h => h.updateDocument fun _ => rfl

theorem preserves_ingest (a : IngestAttempt) (document : Document) :
    Preserves (Store.Originates (V := V) o) (ingest a document) := by
  refine Preserves.bind (preserves_setDocument fun _ => rfl) fun _ => ?_
  refine (preserves_commit _).bind fun _ => ?_
  refine (preserves_ask _).bind fun payload => (preserves_ask _).bind fun parsed => ?_
  refine Preserves.bind (preserves_setDocument fun _ => rfl) fun _ => ?_
  refine (preserves_commit _).bind fun _ => ?_
  refine (preserves_ask _).bind fun chunker => (preserves_await _).bind fun _ => ?_
  refine Preserves.bind (preserves_change fun _ h => h) fun _ => ?_
  refine Preserves.bind (preserves_change fun _ h => h) fun _ => ?_
  exact Preserves.bind (preserves_setDocument fun _ => rfl) fun _ => preserves_commit _

theorem preserves_runIngestion (a : IngestAttempt) :
    Preserves (Store.Originates (V := V) o) (runIngestion a) := by
  refine (preserves_getDocument _).bind fun document? => ?_
  cases document? with
  | none => exact preserves_raise _
  | some document =>
      refine ((preserves_ingest a document).handling fun e => ?_).bind fun _ => ?_
      · unfold ingestHandler
        split
        · exact preserves_recordFailure _ _ _
        · split
          · exact (preserves_recordFailure _ _ _).bind fun _ => preserves_raise _
          · exact preserves_raise _
      · refine (preserves_getDocument _).bind fun refreshed? => ?_
        cases refreshed? with
        | none => exact preserves_raise _
        | some refreshed => exact preserves_pure _

theorem preserves_embed (a : EmbedAttempt V) : Preserves (Store.Originates o) (embed a) := by
  refine (preserves_ask _).bind fun modelId => (preserves_await _).bind fun _ => ?_
  refine preserves_current.bind fun s => ?_
  dsimp only
  split
  · exact preserves_pure _
  · refine (preserves_ask _).bind fun vectors => ?_
    split
    · exact preserves_raise _
    · refine Preserves.bind (preserves_change fun _ h => h) fun _ => ?_
      refine Preserves.bind (preserves_setDocument fun _ => rfl) fun _ => ?_
      exact (preserves_commit _).bind fun _ => preserves_pure _

theorem preserves_embedDocument (a : EmbedAttempt V) :
    Preserves (Store.Originates o) (embedDocument a) := by
  refine (preserves_getDocument _).bind fun document? => ?_
  cases document? with
  | none => exact preserves_raise _
  | some document =>
      refine (preserves_embed a).handling fun e => ?_
      unfold embedHandler
      split
      · exact (preserves_recordFailure _ _ _).bind fun _ => preserves_raise _
      · exact preserves_raise _

/-- **No attempt at ingestion changes what the upload said.** -/
theorem origin_runIngestion (a : IngestAttempt) (s : Store V) :
    (perform (runIngestion a) s).2.document.map Document.origin =
      s.document.map Document.origin :=
  (preserves_runIngestion a).perform (I := Store.Originates _) rfl

/-- **Nor does any attempt at embedding.** -/
theorem origin_embedDocument (a : EmbedAttempt V) (s : Store V) :
    (perform (embedDocument a) s).2.document.map Document.origin =
      s.document.map Document.origin :=
  (preserves_embedDocument a).perform (I := Store.Originates _) rfl

end Origins

end Ingest
end EvidenceLab
