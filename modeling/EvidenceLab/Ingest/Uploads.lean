/-
# Uploads at the same time

Calls of `create_from_upload` into one project, in any interleaving of their steps: the
`SELECT` for a document of the same content, the write of the file, and the commit of
the new row.  The database keeps the content hash unique within the project; the files
are under no transaction.

A row and a file are stored with the call that they are from.  A call settles when it
leaves one row and the file that the row names, or raises a domain error and leaves
nothing (`Uploads.Settled`).  Every call settles as long as no commit fails and no row
with the content of a call comes between its `SELECT` and its commit: `settled_iff`.
-/

import EvidenceLab.Ingest.Lifecycle
import Mathlib.Data.List.Nodup

namespace EvidenceLab
namespace Ingest

open Text Data EvidenceLab.Core Runs

/-! ### Rows and files -/

/-- A row of `documents` as an upload inserts it, with the key of its file. -/
structure DocumentRow extends Document where
  storageKey : Str
  deriving DecidableEq

/-- `f"projects/{project_id}/documents/{document_id}"`. -/
def storageKeyOf (projectId documentId : Uuid) : Str :=
  lit ['p', 'r', 'o', 'j', 'e', 'c', 't', 's', '/'] ++ projectId.str ++
    lit ['/', 'd', 'o', 'c', 'u', 'm', 'e', 'n', 't', 's', '/'] ++ documentId.str

/-- The row of an upload. -/
def UploadAttempt.row (a : UploadAttempt) (projectId : Uuid) (payload : List UInt8)
    (contentHash : Str) : DocumentRow :=
  { id := a.documentId, contentHash, filename := a.filename, mimeType := a.mimeType,
    sizeBytes := payload.length, storageKey := storageKeyOf projectId a.documentId }

/-- `UnsupportedMediaTypeError` about a type that is not allowed. -/
def UploadAttempt.unsupported (a : UploadAttempt) : DomainError :=
  ⟨.unsupportedMediaType, a.mimeType ++ " cannot be ingested.", .unsupportedMediaType,
    [("mime_type", .name a.mimeType),
      ("supported", .names (a.allowedMimeTypes.mergeSort fun x y => x ≤ y))]⟩

/-- `ConflictError` about content that is there. -/
def alreadyIngested (existing : Document) (contentHash : Str) : DomainError :=
  ⟨.conflict, "This document has already been ingested into the project.", .conflict,
    [("document_id", .text existing.id.str), ("content_hash", .text contentHash)]⟩

/-- What a call does before its `SELECT`, `hexdigest` being SHA-256. -/
def UploadAttempt.check (hexdigest : List UInt8 → Str) (a : UploadAttempt) :
    Except Exc (List UInt8 × Str) :=
  if a.mimeType ∉ a.allowedMimeTypes then .error (.domain a.unsupported)
  else readAndHash { a with hexdigest }

/-- What a call comes to whose file passes the checks, and that finds `existing`. -/
def UploadAttempt.answer (a : UploadAttempt) (payload : List UInt8) (contentHash : Str)
    (existing : Option Document) : Except Exc Document := do
  reply a.lookup
  match existing with
  | some document => throw (.domain (alreadyIngested document contentHash))
  | none =>
      reply a.stored
      reply a.finalCommit.raised
      return {
        id := a.documentId, contentHash, filename := a.filename, mimeType := a.mimeType,
        sizeBytes := payload.length }

/-! ### Calls -/

/-- How far a call is. -/
inductive UploadCall
  | waiting
  | read (a : UploadAttempt) (payload : List UInt8) (contentHash : Str)
  /-- The `SELECT` has found nothing. -/
  | selected (a : UploadAttempt) (payload : List UInt8) (contentHash : Str)
  /-- The file is written. -/
  | stored (a : UploadAttempt) (payload : List UInt8) (contentHash : Str)
  | ended (a : UploadAttempt) (outcome : Except Exc DocumentRow)

/-- The step of a call.  A write of a file that raises may leave some of it. -/
inductive UploadEvent
  | start (a : UploadAttempt)
  | select
  | put (left : Option (List UInt8))
  | commit

/-- The rows of the project and the files, each with the call that it is from (`none`
if it was there before), and the calls. -/
structure Uploads where
  documents : List (Option ℕ × DocumentRow)
  objects : List (Option ℕ × Str × List UInt8)
  calls : ℕ → UploadCall := fun _ => .waiting

namespace Uploads

/-- Some documents and files, and no call. -/
def before (documents : List DocumentRow) (objects : List (Str × List UInt8)) : Uploads where
  documents := documents.map (none, ·)
  objects := objects.map (none, ·)

variable (s : Uploads) (c : ℕ)

/-- A call moves on, and may leave a row or a file. -/
def advance (call : UploadCall) (document : Option DocumentRow := none)
    (object : Option (Str × List UInt8) := none) : Uploads where
  documents := s.documents ++ document.toList.map (some c, ·)
  objects := s.objects ++ object.toList.map (some c, ·)
  calls := Function.update s.calls c call

/-- The content is in the project. -/
def Taken (contentHash : Str) : Prop := ∃ d ∈ s.documents, d.2.contentHash = contentHash

instance (contentHash : Str) : Decidable (s.Taken contentHash) :=
  inferInstanceAs (Decidable (∃ d ∈ s.documents, _))

/-- `uuid4` gives an id that no document has and no file is stored for. -/
def Fresh (projectId documentId : Uuid) : Prop :=
  (∀ d ∈ s.documents, d.2.id ≠ documentId) ∧
    ∀ o ∈ s.objects, o.2.1 ≠ storageKeyOf projectId documentId

instance (projectId documentId : Uuid) : Decidable (s.Fresh projectId documentId) :=
  inferInstanceAs (Decidable ((∀ d ∈ s.documents, _) ∧ ∀ o ∈ s.objects, _))

variable (projectId : Uuid) (hexdigest : List UInt8 → Str)

/-- `create_from_upload`, a step at a time. -/
def step : ℕ × UploadEvent → Option Uploads
  | (c, .start a) =>
      match s.calls c with
      | .waiting =>
          match a.check hexdigest with
          | .ok (payload, contentHash) => some (s.advance c (.read a payload contentHash))
          | .error e => some (s.advance c (.ended a (.error e)))
      | _ => none
  | (c, .select) =>
      match s.calls c with
      | .read a payload contentHash =>
          match a.lookup with
          | some e => some (s.advance c (.ended a (.error e)))
          | none =>
              match s.documents.find? (·.2.contentHash = contentHash) with
              | some existing => some (s.advance c (.ended a (.error
                  (.domain (alreadyIngested existing.2.toDocument contentHash)))))
              | none => some (s.advance c (.selected a payload contentHash))
      | _ => none
  | (c, .put left) =>
      match s.calls c with
      | .selected a payload contentHash =>
          let key := storageKeyOf projectId a.documentId
          if s.Fresh projectId a.documentId then
            match a.stored with
            | none => some (s.advance c (.stored a payload contentHash) none (some (key, payload)))
            | some e => some (s.advance c (.ended a (.error e)) none (left.map (key, ·)))
          else none
      | _ => none
  | (c, .commit) =>
      match s.calls c with
      | .stored a payload contentHash =>
          let row := a.row projectId payload contentHash
          match a.finalCommit with
          | .lost e => some (s.advance c (.ended a (.error e)))
          | .done =>
              -- The unique constraint: an `IntegrityError` of the driver.
              if s.Taken contentHash then some (s.advance c (.ended a (.error .crash)))
              else some (s.advance c (.ended a (.ok row)) (some row))
          | .landed e =>
              if s.Taken contentHash then some (s.advance c (.ended a (.error .crash)))
              else some (s.advance c (.ended a (.error e)) (some row))
      | _ => none

/-! ### What a call leaves -/

/-- The rows from a call. -/
def documentsOf : List DocumentRow := (s.documents.filter (·.1 = some c)).map (·.2)

/-- The files from a call. -/
def objectsOf : List (Str × List UInt8) := (s.objects.filter (·.1 = some c)).map (·.2)

/-- The error is that of a check, or of the `SELECT` or the write itself. -/
def Refused (a : UploadAttempt) (e : Exc) : Prop :=
  a.check hexdigest = .error e ∨ a.lookup = some e ∨ a.stored = some e

/-- What a call that has ended leaves: a row and the file that it names, or nothing but a
domain error, which is about a document of the same content if nothing else was wrong. -/
def Settles (a : UploadAttempt) : Except Exc DocumentRow → Prop
  | .ok row => s.documentsOf c = [row] ∧
      ∃ payload, a.stream = .ok payload ∧ row.contentHash = hexdigest payload ∧
        s.objectsOf c = [(row.storageKey, payload)]
  | .error e => e.domain? ≠ none ∧ s.documentsOf c = [] ∧ s.objectsOf c = [] ∧
      (Refused hexdigest a e ∨ ∃ d ∈ s.documents, ∃ payload, a.stream = .ok payload ∧
        d.2.contentHash = hexdigest payload ∧
        e = .domain (alreadyIngested d.2.toDocument d.2.contentHash))

/-- **What uploads promise.** -/
structure Settled : Prop where
  distinct : (s.documents.map (·.2.contentHash)).Nodup
  once : ∀ c c' a a' row row', s.calls c = .ended a (.ok row) → s.calls c' = .ended a' (.ok row') →
    a.stream = a'.stream → c = c'
  settles : ∀ c a outcome, s.calls c = .ended a outcome → s.Settles c hexdigest a outcome

/-- The step does not fail, and a row that is committed is the first of its content. -/
def Fine : ℕ × UploadEvent → Prop
  | (_, .start a) => a.mimeType ∈ a.allowedMimeTypes → ∀ e, a.stream = .error e → e.domain? ≠ none
  | (c, .select) => ∀ a payload contentHash e, s.calls c = .read a payload contentHash →
      a.lookup = some e → e.domain? ≠ none
  | (c, .put left) => ∀ a payload contentHash e, s.calls c = .selected a payload contentHash →
      a.stored = some e → e.domain? ≠ none ∧ left = none
  | (c, .commit) => ∀ a payload contentHash, s.calls c = .stored a payload contentHash →
      a.finalCommit.raised = none ∧ ¬ s.Taken contentHash

/-- What a call has left so far. -/
def Accounts : UploadCall → Prop
  | .waiting => s.documentsOf c = [] ∧ s.objectsOf c = []
  | .read a payload contentHash => a.check hexdigest = .ok (payload, contentHash) ∧
      s.documentsOf c = [] ∧ s.objectsOf c = []
  | .selected a payload contentHash => a.check hexdigest = .ok (payload, contentHash) ∧
      s.documentsOf c = [] ∧ s.objectsOf c = []
  | .stored a payload contentHash => a.check hexdigest = .ok (payload, contentHash) ∧
      s.documentsOf c = [] ∧ s.objectsOf c = [(storageKeyOf projectId a.documentId, payload)]
  | .ended a outcome => s.Settles c hexdigest a outcome

/-- The invariant of the runs whose steps are fine. -/
structure Inv : Prop where
  distinct : (s.documents.map (·.2.contentHash)).Nodup
  accounts : ∀ c, s.Accounts c projectId hexdigest (s.calls c)

end Uploads

/-! ### Checks -/

section Checks

variable {hexdigest : List UInt8 → Str} {a : UploadAttempt} {payload : List UInt8}
  {contentHash : Str} {e : Exc}

/-- A file that passes the checks is the one that was sent. -/
theorem UploadAttempt.of_check (h : a.check hexdigest = .ok (payload, contentHash)) :
    a.stream = .ok payload ∧ contentHash = hexdigest payload := by
  unfold check at h
  split at h
  · cases h
  · obtain ⟨file, hfile, h⟩ := bind_eq_ok.mp h
    split at h
    · cases h
    · split at h
      · cases h
      · cases h
        exact ⟨hfile, rfl⟩

/-- The checks raise domain errors, or what reading the file raises. -/
theorem UploadAttempt.domain_of_check (h : a.check hexdigest = .error e)
    (hstream : a.mimeType ∈ a.allowedMimeTypes → ∀ e, a.stream = .error e → e.domain? ≠ none) :
    e.domain? ≠ none := by
  unfold check at h
  split at h
  · cases h
    exact Option.some_ne_none _
  · next hmime =>
    rcases bind_eq_error.mp h with hfile | ⟨file, -, h⟩
    · exact hstream (not_not.mp hmime) e hfile
    · split at h
      · cases h
        exact Option.some_ne_none _
      · split at h
        · cases h
          exact Option.some_ne_none _
        · cases h

/-- What reading the file raises is raised. -/
theorem UploadAttempt.check_of_stream (hmime : a.mimeType ∈ a.allowedMimeTypes)
    (h : a.stream = .error e) : a.check hexdigest = .error e := by
  rw [check, if_neg (not_not.mpr hmime)]
  exact bind_eq_error.mpr (Or.inl h)

end Checks

section Programs

variable {V : Type} {a : UploadAttempt} {payload : List UInt8} {contentHash : Str} {e : Exc}

/-- `createFromUpload` is its checks, -/
theorem perform_of_check_error (h : a.check a.hexdigest = .error e) (store : Store V) :
    (Session.perform (createFromUpload a) store).1 = .error e := by
  unfold UploadAttempt.check at h
  unfold createFromUpload
  split at h
  · next hmime =>
    rw [if_pos hmime]
    cases h
    rfl
  · next hmime =>
    have hread : readAndHash a = .error e := h
    rw [if_neg hmime]
    simp only [Session.perform, bind, Session.ask, hread]

/-- and then what the calls answer. -/
theorem perform_of_check_ok (h : a.check a.hexdigest = .ok (payload, contentHash))
    (store : Store V) :
    (Session.perform (createFromUpload a) store).1 =
      a.answer payload contentHash (store.document.filter (·.contentHash = contentHash)) := by
  unfold UploadAttempt.check at h
  unfold createFromUpload
  split at h
  · cases h
  · next hmime =>
    have hread : readAndHash a = .ok (payload, contentHash) := h
    rw [if_neg hmime]
    simp only [Session.perform, bind, Session.ask, hread, getDocument, Session.await,
      Session.current, pure, registerDocument, Session.change, UploadAttempt.answer]
    cases a.lookup with
    | some e => rfl
    | none =>
        cases hfind : store.document.filter (·.contentHash = contentHash) with
        | some existing =>
            simp only [hfind]
            rfl
        | none =>
            simp only [hfind]
            cases a.stored with
            | some e => rfl
            | none => cases a.finalCommit <;> rfl

end Programs

/-! ### Steps -/

namespace Uploads

variable {s s' : Uploads} {c c' : ℕ} {call : UploadCall} {document : Option DocumentRow}
  {object : Option (Str × List UInt8)} {projectId : Uuid} {hexdigest : List UInt8 → Str}

@[simp] theorem calls_advance_self :
    (s.advance c call document object).calls c = call := Function.update_self ..

theorem calls_advance_of_ne (h : c' ≠ c) :
    (s.advance c call document object).calls c' = s.calls c' := Function.update_of_ne h ..

@[simp] theorem documents_advance_none :
    (s.advance c call none object).documents = s.documents := List.append_nil _

@[simp] theorem objects_advance_none :
    (s.advance c call document none).objects = s.objects := List.append_nil _

theorem documentsOf_advance_self :
    (s.advance c call document object).documentsOf c = s.documentsOf c ++ document.toList := by
  rw [documentsOf, documentsOf, advance, List.filter_append, List.map_append]
  cases document <;> simp

theorem objectsOf_advance_self :
    (s.advance c call document object).objectsOf c = s.objectsOf c ++ object.toList := by
  rw [objectsOf, objectsOf, advance, List.filter_append, List.map_append]
  cases object <;> simp

theorem documentsOf_advance_of_ne (h : c' ≠ c) :
    (s.advance c call document object).documentsOf c' = s.documentsOf c' := by
  rw [documentsOf, documentsOf, advance, List.filter_append, List.map_append]
  cases document <;> simp [h.symm]

theorem objectsOf_advance_of_ne (h : c' ≠ c) :
    (s.advance c call document object).objectsOf c' = s.objectsOf c' := by
  rw [objectsOf, objectsOf, advance, List.filter_append, List.map_append]
  cases object <;> simp [h.symm]

/-- What a call has settled stays settled when others go on. -/
theorem Settles.mono {a : UploadAttempt} {outcome : Except Exc DocumentRow}
    (h : s.Settles c hexdigest a outcome) (hdocs : s'.documentsOf c = s.documentsOf c)
    (hobjs : s'.objectsOf c = s.objectsOf c) (hsub : s.documents ⊆ s'.documents) :
    s'.Settles c hexdigest a outcome := by
  cases outcome with
  | ok row =>
      obtain ⟨hrow, payload, hstream, hhash, hobject⟩ := h
      exact ⟨hdocs.trans hrow, payload, hstream, hhash, hobjs.trans hobject⟩
  | error e =>
      obtain ⟨hdomain, hrows, hobjects, hcause⟩ := h
      refine ⟨hdomain, hdocs.trans hrows, hobjs.trans hobjects, hcause.imp_right ?_⟩
      rintro ⟨d, hd, hconflict⟩
      exact ⟨d, hsub hd, hconflict⟩

/-- What a call has left stays when others go on. -/
theorem Accounts.mono (h : s.Accounts c projectId hexdigest call)
    (hdocs : s'.documentsOf c = s.documentsOf c) (hobjs : s'.objectsOf c = s.objectsOf c)
    (hsub : s.documents ⊆ s'.documents) : s'.Accounts c projectId hexdigest call := by
  cases call with
  | waiting => exact ⟨hdocs.trans h.1, hobjs.trans h.2⟩
  | read _ _ _ => exact ⟨h.1, hdocs.trans h.2.1, hobjs.trans h.2.2⟩
  | selected _ _ _ => exact ⟨h.1, hdocs.trans h.2.1, hobjs.trans h.2.2⟩
  | stored _ _ _ => exact ⟨h.1, hdocs.trans h.2.1, hobjs.trans h.2.2⟩
  | ended _ _ => exact Settles.mono h hdocs hobjs hsub

/-- A call that moves on accounts for itself only. -/
theorem Inv.advance (h : s.Inv projectId hexdigest)
    (hdistinct : ((s.advance c call document object).documents.map (·.2.contentHash)).Nodup)
    (hcall : (s.advance c call document object).Accounts c projectId hexdigest call) :
    (s.advance c call document object).Inv projectId hexdigest := by
  refine ⟨hdistinct, ?_⟩
  intro c'
  by_cases hc : c' = c
  · subst hc
    rw [calls_advance_self]
    exact hcall
  · rw [calls_advance_of_ne hc]
    exact (h.accounts c').mono (documentsOf_advance_of_ne hc) (objectsOf_advance_of_ne hc)
      (List.subset_append_left _ _)

/-- A call that leaves no row keeps the contents distinct. -/
theorem Inv.advance_none (h : s.Inv projectId hexdigest)
    (hcall : (s.advance c call none object).Accounts c projectId hexdigest call) :
    (s.advance c call none object).Inv projectId hexdigest := by
  refine h.advance ?_ hcall
  rw [Uploads.advance, Option.toList_none, List.map_nil, List.append_nil]
  exact h.distinct

/-- Nor does a row of a content that is not in the project. -/
theorem Inv.advance_some {row : DocumentRow} (h : s.Inv projectId hexdigest)
    (htaken : ¬ s.Taken row.contentHash)
    (hcall : (s.advance c call (some row) object).Accounts c projectId hexdigest call) :
    (s.advance c call (some row) object).Inv projectId hexdigest := by
  refine h.advance ?_ hcall
  simp only [Uploads.advance, Option.toList_some, List.map_append, List.map_cons, List.map_nil]
  refine List.nodup_append.mpr ⟨h.distinct, List.nodup_singleton _, ?_⟩
  rintro hash hmem _ hnew rfl
  obtain ⟨d, hd, heq⟩ := List.mem_map.mp hmem
  exact htaken ⟨d, hd, heq.trans (List.mem_singleton.mp hnew)⟩

/-- A call that ends with a domain error, and has left nothing, is settled. -/
theorem settles_error {a : UploadAttempt} {e : Exc} (hdocs : s.documentsOf c = [])
    (hobjs : s.objectsOf c = []) (hdomain : e.domain? ≠ none)
    (hcause : Refused hexdigest a e ∨ ∃ d ∈ s.documents, ∃ payload, a.stream = .ok payload ∧
      d.2.contentHash = hexdigest payload ∧
      e = .domain (alreadyIngested d.2.toDocument d.2.contentHash)) :
    (s.advance c (.ended a (.error e))).Settles c hexdigest a (.error e) := by
  refine ⟨hdomain, ?_, ?_, hcause.imp_right ?_⟩
  · rw [documentsOf_advance_self, hdocs]
    rfl
  · rw [objectsOf_advance_self, hobjs]
    rfl
  · rintro ⟨d, hd, hconflict⟩
    exact ⟨d, List.mem_append_left _ hd, hconflict⟩

/-- A call keeps its account when it moves on and leaves nothing more. -/
theorem unchanged_of_advance (hdocs : s.documentsOf c = []) {files : List (Str × List UInt8)}
    (hobjs : s.objectsOf c = files) :
    (s.advance c call).documentsOf c = [] ∧ (s.advance c call).objectsOf c = files := by
  rw [documentsOf_advance_self, objectsOf_advance_self, hdocs, hobjs]
  exact ⟨rfl, List.append_nil _⟩

/-- What an upload promises of a call that has ended just now. -/
theorem Settled.of_advance {a : UploadAttempt} {outcome : Except Exc DocumentRow}
    (h : (s.advance c (.ended a outcome) document object).Settled hexdigest) :
    (s.advance c (.ended a outcome) document object).Settles c hexdigest a outcome :=
  h.settles c a outcome calls_advance_self

/-- The start of a call. -/
theorem Inv.start {a : UploadAttempt} (h : s.Inv projectId hexdigest)
    (hstep : s.step projectId hexdigest (c, .start a) = some s') :
    (s.Fine (c, .start a) → s'.Inv projectId hexdigest) ∧
      (s'.Settled hexdigest → s.Fine (c, .start a)) := by
  have hacc := h.accounts c
  cases hcall : s.calls c with
  | waiting =>
      rw [hcall] at hacc
      cases hcheck : a.check hexdigest with
      | ok file =>
          simp only [step, hcall, hcheck] at hstep
          obtain rfl := Option.some.inj hstep
          refine ⟨fun _ => h.advance_none ⟨hcheck, unchanged_of_advance hacc.1 hacc.2⟩, ?_⟩
          intro _ hmime e hstream
          cases hcheck.symm.trans (UploadAttempt.check_of_stream hmime hstream)
      | error e =>
          simp only [step, hcall, hcheck] at hstep
          obtain rfl := Option.some.inj hstep
          constructor
          · intro hfine
            exact h.advance_none (settles_error hacc.1 hacc.2
              (UploadAttempt.domain_of_check hcheck hfine) (Or.inl (Or.inl hcheck)))
          · intro hsettled hmime e' hstream
            cases hcheck.symm.trans (UploadAttempt.check_of_stream hmime hstream)
            exact hsettled.of_advance.1
  | _ =>
      simp only [step, hcall] at hstep
      cases hstep

/-- The `SELECT` of a call. -/
theorem Inv.select (h : s.Inv projectId hexdigest)
    (hstep : s.step projectId hexdigest (c, .select) = some s') :
    (s.Fine (c, .select) → s'.Inv projectId hexdigest) ∧
      (s'.Settled hexdigest → s.Fine (c, .select)) := by
  have hacc := h.accounts c
  cases hcall : s.calls c with
  | read a payload contentHash =>
      rw [hcall] at hacc
      obtain ⟨hcheck, hdocs, hobjs⟩ := hacc
      obtain ⟨hstream, hhash⟩ := UploadAttempt.of_check hcheck
      cases hlookup : a.lookup with
      | some e =>
          simp only [step, hcall, hlookup] at hstep
          obtain rfl := Option.some.inj hstep
          constructor
          · intro hfine
            exact h.advance_none (settles_error hdocs hobjs (hfine a _ _ e hcall hlookup)
              (Or.inl (Or.inr (Or.inl hlookup))))
          · intro hsettled a' _ _ e' hcall' hlookup'
            cases hcall.symm.trans hcall'
            cases hlookup.symm.trans hlookup'
            exact hsettled.of_advance.1
      | none =>
          have hfine : s.Fine (c, .select) := by
            intro a' _ _ e' hcall' hlookup'
            cases hcall.symm.trans hcall'
            cases hlookup.symm.trans hlookup'
          refine ⟨fun _ => ?_, fun _ => hfine⟩
          cases hfind : s.documents.find? (·.2.contentHash = contentHash) with
          | some existing =>
              simp only [step, hcall, hlookup, hfind] at hstep
              obtain rfl := Option.some.inj hstep
              have hfound : existing.2.contentHash = contentHash := by
                simpa using List.find?_some hfind
              refine h.advance_none (settles_error hdocs hobjs (Option.some_ne_none _) (Or.inr ?_))
              exact ⟨existing, List.mem_of_find?_eq_some hfind, payload, hstream,
                hfound.trans hhash, by rw [hfound]⟩
          | none =>
              simp only [step, hcall, hlookup, hfind] at hstep
              obtain rfl := Option.some.inj hstep
              exact h.advance_none ⟨hcheck, unchanged_of_advance hdocs hobjs⟩
  | _ =>
      simp only [step, hcall] at hstep
      cases hstep

/-- The write of a file. -/
theorem Inv.put {left : Option (List UInt8)} (h : s.Inv projectId hexdigest)
    (hstep : s.step projectId hexdigest (c, .put left) = some s') :
    (s.Fine (c, .put left) → s'.Inv projectId hexdigest) ∧
      (s'.Settled hexdigest → s.Fine (c, .put left)) := by
  have hacc := h.accounts c
  cases hcall : s.calls c with
  | selected a payload contentHash =>
      rw [hcall] at hacc
      obtain ⟨hcheck, hdocs, hobjs⟩ := hacc
      simp only [step, hcall] at hstep
      split at hstep
      · cases hstored : a.stored with
        | none =>
            simp only [hstored] at hstep
            obtain rfl := Option.some.inj hstep
            constructor
            · intro _
              refine h.advance_none ⟨hcheck, ?_, ?_⟩
              · rw [documentsOf_advance_self, hdocs]
                rfl
              · rw [objectsOf_advance_self, hobjs]
                rfl
            · intro _ a' _ _ e' hcall' hstored'
              cases hcall.symm.trans hcall'
              cases hstored.symm.trans hstored'
        | some e =>
            simp only [hstored] at hstep
            obtain rfl := Option.some.inj hstep
            constructor
            · intro hfine
              obtain ⟨hdomain, rfl⟩ := hfine a _ _ e hcall hstored
              exact h.advance_none (settles_error hdocs hobjs hdomain
                (Or.inl (Or.inr (Or.inr hstored))))
            · intro hsettled a' _ _ e' hcall' hstored'
              cases hcall.symm.trans hcall'
              cases hstored.symm.trans hstored'
              obtain ⟨hdomain, -, hobjects, -⟩ := hsettled.of_advance
              refine ⟨hdomain, ?_⟩
              rw [objectsOf_advance_self, hobjs] at hobjects
              cases left with
              | none => rfl
              | some _ => cases hobjects
      · cases hstep
  | _ =>
      simp only [step, hcall] at hstep
      cases hstep

/-- The commit of a row. -/
theorem Inv.commit (h : s.Inv projectId hexdigest)
    (hstep : s.step projectId hexdigest (c, .commit) = some s') :
    (s.Fine (c, .commit) → s'.Inv projectId hexdigest) ∧
      (s'.Settled hexdigest → s.Fine (c, .commit)) := by
  have hacc := h.accounts c
  cases hcall : s.calls c with
  | stored a payload contentHash =>
      rw [hcall] at hacc
      obtain ⟨hcheck, hdocs, hobjs⟩ := hacc
      obtain ⟨hstream, hhash⟩ := UploadAttempt.of_check hcheck
      -- The file is there, so a call that raises now is not settled.
      have hraises : ∀ {e document}, ¬ (s.advance c (.ended a (.error e)) document).Settled
          hexdigest := by
        intro e document hsettled
        have hobjects := hsettled.of_advance.2.2.1
        rw [objectsOf_advance_self, hobjs] at hobjects
        cases hobjects
      have hfine : s.Fine (c, .commit) ↔ a.finalCommit.raised = none ∧ ¬ s.Taken contentHash := by
        refine ⟨fun hfine => hfine a payload contentHash hcall, ?_⟩
        intro hok a' _ _ hcall'
        cases hcall.symm.trans hcall'
        exact hok
      rw [hfine]
      cases hcommit : a.finalCommit with
      | lost e =>
          simp only [step, hcall, hcommit] at hstep
          obtain rfl := Option.some.inj hstep
          exact ⟨(fun hok => by cases hok.1), fun hsettled => absurd hsettled hraises⟩
      | landed e =>
          simp only [step, hcall, hcommit] at hstep
          refine ⟨(fun hok => by cases hok.1), ?_⟩
          split at hstep
          · obtain rfl := Option.some.inj hstep
            exact fun hsettled => absurd hsettled hraises
          · obtain rfl := Option.some.inj hstep
            exact fun hsettled => absurd hsettled hraises
      | done =>
          simp only [step, hcall, hcommit] at hstep
          split at hstep
          · next htaken =>
            obtain rfl := Option.some.inj hstep
            exact ⟨fun hok => absurd htaken hok.2, fun hsettled => absurd hsettled hraises⟩
          · next htaken =>
            obtain rfl := Option.some.inj hstep
            refine ⟨fun _ => h.advance_some htaken ⟨?_, payload, hstream, hhash, ?_⟩,
              fun _ => ⟨rfl, htaken⟩⟩
            · rw [documentsOf_advance_self, hdocs]
              rfl
            · rw [objectsOf_advance_self, hobjs]
              rfl
  | _ =>
      simp only [step, hcall] at hstep
      cases hstep

/-- Every step, both ways. -/
theorem Inv.step {e : ℕ × UploadEvent} (h : s.Inv projectId hexdigest)
    (hstep : s.step projectId hexdigest e = some s') :
    (s.Fine e → s'.Inv projectId hexdigest) ∧ (s'.Settled hexdigest → s.Fine e) := by
  obtain ⟨c, event⟩ := e
  cases event with
  | start a => exact h.start hstep
  | select => exact h.select hstep
  | put left => exact h.put hstep
  | commit => exact h.commit hstep

/-- Calls that have returned have rows of different contents. -/
theorem Inv.settled (h : s.Inv projectId hexdigest) : s.Settled hexdigest where
  distinct := h.distinct
  once c c' a a' row row' hcall hcall' hstream := by
    have hc : s.Settles c hexdigest a (.ok row) := by
      have := h.accounts c
      rwa [hcall] at this
    have hc' : s.Settles c' hexdigest a' (.ok row') := by
      have := h.accounts c'
      rwa [hcall'] at this
    obtain ⟨hrow, payload, hpayload, hhash, -⟩ := hc
    obtain ⟨hrow', payload', hpayload', hhash', -⟩ := hc'
    have hmem : ∀ {c row}, s.documentsOf c = [row] → (some c, row) ∈ s.documents := by
      intro c row hrow
      have hin : row ∈ s.documentsOf c := by
        rw [hrow]
        exact List.mem_singleton_self row
      obtain ⟨⟨owner, row'⟩, hd, rfl⟩ := List.mem_map.mp hin
      obtain ⟨hd, howner⟩ := List.mem_filter.mp hd
      obtain rfl : owner = some c := by simpa using howner
      exact hd
    obtain rfl : payload = payload' :=
      Except.ok.inj (hpayload.symm.trans (hstream.trans hpayload'))
    have hpair := List.inj_on_of_nodup_map h.distinct (hmem hrow) (hmem hrow')
      (hhash.trans hhash'.symm)
    exact Option.some.inj (congrArg Prod.fst hpair)
  settles c a outcome hcall := by
    have := h.accounts c
    rwa [hcall] at this

/-- Before the first call there is nothing to account for. -/
theorem inv_before {documents : List DocumentRow} (objects : List (Str × List UInt8))
    (h : (documents.map (·.contentHash)).Nodup) :
    (before documents objects).Inv projectId hexdigest := by
  refine ⟨?_, fun c => ⟨?_, ?_⟩⟩
  · rw [before, List.map_map]
    exact h
  · simp [documentsOf, before, List.filter_map, Function.comp_def]
  · simp [objectsOf, before, List.filter_map, Function.comp_def]

/-- A call can go on, alone, to this end. -/
def Ends (s : Uploads) (c : ℕ) (projectId : Uuid) (a : UploadAttempt)
    (answer : Except Exc Document) : Prop :=
  ∃ events s' outcome, Leads (fun s => s.step projectId a.hexdigest) (fun _ _ => True) s events s' ∧
    s'.calls c = .ended a outcome ∧ outcome.map (·.toDocument) = answer

section Alone

variable {a : UploadAttempt} {payload : List UInt8} {contentHash : Str}
  {answer : Except Exc Document}

theorem ends_of_ended {outcome : Except Exc DocumentRow} (h : s.calls c = .ended a outcome) :
    s.Ends c projectId a (outcome.map (·.toDocument)) := ⟨[], s, outcome, .nil s, h, rfl⟩

theorem Ends.cons {event : UploadEvent} (hstep : s.step projectId a.hexdigest (c, event) = some s')
    (h : s'.Ends c projectId a answer) : s.Ends c projectId a answer := by
  obtain ⟨events, s'', outcome, hleads, hcall, hanswer⟩ := h
  exact ⟨(c, event) :: events, s'', outcome, .cons hstep trivial hleads, hcall, hanswer⟩

/-- From the commit on. -/
theorem ends_of_stored (hcall : s.calls c = .stored a payload contentHash)
    (hfree : ¬ s.Taken contentHash) :
    s.Ends c projectId a (do
      reply a.finalCommit.raised
      return (a.row projectId payload contentHash).toDocument) := by
  cases hcommit : a.finalCommit with
  | done =>
      have hstep : s.step projectId a.hexdigest (c, .commit) =
          some (s.advance c (.ended a (.ok (a.row projectId payload contentHash)))
            (some (a.row projectId payload contentHash))) := by
        simp only [step, hcall, hcommit, if_neg hfree]
      exact .cons hstep (ends_of_ended calls_advance_self)
  | lost e =>
      have hstep : s.step projectId a.hexdigest (c, .commit) =
          some (s.advance c (.ended a (.error e))) := by
        simp only [step, hcall, hcommit]
      exact .cons hstep (ends_of_ended calls_advance_self)
  | landed e =>
      have hstep : s.step projectId a.hexdigest (c, .commit) =
          some (s.advance c (.ended a (.error e))
            (some (a.row projectId payload contentHash))) := by
        simp only [step, hcall, hcommit, if_neg hfree]
      exact .cons hstep (ends_of_ended calls_advance_self)

/-- From the write of the file on. -/
theorem ends_of_selected (hcall : s.calls c = .selected a payload contentHash)
    (hfresh : s.Fresh projectId a.documentId) (hfree : ¬ s.Taken contentHash) :
    s.Ends c projectId a (do
      reply a.stored
      reply a.finalCommit.raised
      return (a.row projectId payload contentHash).toDocument) := by
  cases hstored : a.stored with
  | none =>
      have hstep : s.step projectId a.hexdigest (c, .put none) =
          some (s.advance c (.stored a payload contentHash) none
            (some (storageKeyOf projectId a.documentId, payload))) := by
        simp only [step, hcall, if_pos hfresh, hstored]
      refine .cons hstep (ends_of_stored calls_advance_self ?_)
      rwa [Taken, documents_advance_none]
  | some e =>
      have hstep : s.step projectId a.hexdigest (c, .put none) =
          some (s.advance c (.ended a (.error e))) := by
        simp only [step, hcall, if_pos hfresh, hstored, Option.map_none]
      exact .cons hstep (ends_of_ended calls_advance_self)

/-- From the `SELECT` on. -/
theorem ends_of_read (hcall : s.calls c = .read a payload contentHash)
    (hfresh : s.Fresh projectId a.documentId) :
    s.Ends c projectId a (a.answer payload contentHash
      ((s.documents.find? (·.2.contentHash = contentHash)).map (·.2.toDocument))) := by
  unfold UploadAttempt.answer
  cases hlookup : a.lookup with
  | some e =>
      have hstep : s.step projectId a.hexdigest (c, .select) =
          some (s.advance c (.ended a (.error e))) := by
        simp only [step, hcall, hlookup]
      exact .cons hstep (ends_of_ended calls_advance_self)
  | none =>
      cases hfind : s.documents.find? (·.2.contentHash = contentHash) with
      | some existing =>
          have hstep : s.step projectId a.hexdigest (c, .select) =
              some (s.advance c (.ended a (.error
                (.domain (alreadyIngested existing.2.toDocument contentHash))))) := by
            simp only [step, hcall, hlookup, hfind]
          exact .cons hstep (ends_of_ended calls_advance_self)
      | none =>
          have hstep : s.step projectId a.hexdigest (c, .select) =
              some (s.advance c (.selected a payload contentHash)) := by
            simp only [step, hcall, hlookup, hfind]
          refine .cons hstep (ends_of_selected calls_advance_self ?_ ?_)
          · rwa [Fresh, documents_advance_none, objects_advance_none]
          · rw [Taken, documents_advance_none]
            rintro ⟨d, hd, heq⟩
            have hno := List.find?_eq_none.mp hfind d hd
            exact hno (decide_eq_true heq)

/-- **A call that nothing interrupts** ends as `createFromUpload` does. -/
theorem ends_createFromUpload {V : Type} {store : Store V} (hcall : s.calls c = .waiting)
    (hfresh : s.Fresh projectId a.documentId)
    (hstore : ∀ contentHash, store.document.filter (·.contentHash = contentHash) =
      (s.documents.find? (·.2.contentHash = contentHash)).map (·.2.toDocument)) :
    s.Ends c projectId a (Session.perform (createFromUpload a) store).1 := by
  cases hcheck : a.check a.hexdigest with
  | error e =>
      have hstep : s.step projectId a.hexdigest (c, .start a) =
          some (s.advance c (.ended a (.error e))) := by
        simp only [step, hcall, hcheck]
      rw [perform_of_check_error hcheck]
      exact .cons hstep (ends_of_ended calls_advance_self)
  | ok file =>
      have hstep : s.step projectId a.hexdigest (c, .start a) =
          some (s.advance c (.read a file.1 file.2)) := by
        simp only [step, hcall, hcheck]
      have hfresh' : (s.advance c (.read a file.1 file.2)).Fresh projectId a.documentId := by
        rwa [Fresh, documents_advance_none, objects_advance_none]
      have hends := ends_of_read calls_advance_self hfresh'
      rw [documents_advance_none] at hends
      rw [perform_of_check_ok hcheck, hstore]
      exact .cons hstep hends

end Alone

/-- **Uploads settle** throughout a run of calls iff each of its steps is fine. -/
theorem settled_iff (projectId : Uuid) (hexdigest : List UInt8 → Str)
    (documents : List DocumentRow) (objects : List (Str × List UInt8))
    (hkeyed : (documents.map (·.contentHash)).Nodup) (events : List (ℕ × UploadEvent)) :
    Throughout (fun s => s.step projectId hexdigest) (fun s => s.Settled hexdigest)
        (before documents objects) events ↔
      Every (fun s => s.step projectId hexdigest) Fine (before documents objects) events := by
  refine throughout_iff_every (I := fun s => s.Inv projectId hexdigest) ?_ ?_ ?_ ?_
  · exact inv_before objects hkeyed
  · exact fun _ _ _ h hstep => (h.step hstep).1
  · exact fun _ _ _ h hstep => (h.step hstep).2
  · exact fun _ h => h.settled

/-- An upload of the text `a`, which gets this id. -/
def uploadAs (documentId : Uuid) : UploadAttempt := { sampleUpload with documentId }

/-- Two uploads of one file, the second of which begins before the first has committed. -/
def overlapping : List (ℕ × UploadEvent) :=
  [(0, .start (uploadAs 5)), (0, .select), (1, .start (uploadAs 6)), (1, .select),
    (0, .put none), (1, .put none), (0, .commit), (1, .commit)]

/-- The second upload raises what is no domain error, and leaves its file. -/
theorem settled_fails :
    ¬ Throughout (fun s => s.step 7 fun _ => [0x66]) (fun s => s.Settled fun _ => [0x66])
      (before [] []) overlapping := by
  intro h
  have hruns : (run (fun s => s.step 7 fun _ => [0x66]) (before [] []) overlapping).isSome :=
    rfl
  have hlast := Throughout.last h (Option.some_get hruns).symm
  exact (hlast.settles 1 (uploadAs 6) (.error .crash) rfl).1 rfl

/-- Uploads of two files that overlap, and a third one of the first file after them. -/
def interleaved : List (ℕ × UploadEvent) :=
  [(0, .start (uploadAs 5)), (1, .start { uploadAs 6 with stream := .ok [0x62] }), (1, .select),
    (0, .select), (0, .put none), (1, .put none), (1, .commit), (0, .commit),
    (2, .start (uploadAs 8)), (2, .select)]

/-- A file as its own hash. -/
def sampleDigest (payload : List UInt8) : Str := payload.map fun byte => Fin.ofNat _ byte.toNat

/-- They settle: two are stored, and the third is refused. -/
theorem settled_iff_sample :
    (run (fun s => s.step 7 sampleDigest) (before [] []) interleaved).isSome ∧
    Throughout (fun s => s.step 7 sampleDigest) (fun s => s.Settled sampleDigest) (before [] [])
      interleaved := by
  refine ⟨rfl, (settled_iff 7 sampleDigest [] [] List.nodup_nil _).mpr ?_⟩
  -- No file fails to be read.
  intro s₁ h₁
  refine ⟨(fun _ e he => by cases he), ?_⟩
  obtain rfl := Option.some.inj h₁
  intro s₂ h₂
  refine ⟨(fun _ e he => by cases he), ?_⟩
  obtain rfl := Option.some.inj h₂
  -- No `SELECT` and no write fails.
  intro s₃ h₃
  refine ⟨(fun a p h e hcall he => by cases hcall; cases he), ?_⟩
  obtain rfl := Option.some.inj h₃
  intro s₄ h₄
  refine ⟨(fun a p h e hcall he => by cases hcall; cases he), ?_⟩
  obtain rfl := Option.some.inj h₄
  intro s₅ h₅
  refine ⟨(fun a p h e hcall he => by cases hcall; cases he), ?_⟩
  obtain rfl := Option.some.inj h₅
  intro s₆ h₆
  refine ⟨(fun a p h e hcall he => by cases hcall; cases he), ?_⟩
  obtain rfl := Option.some.inj h₆
  -- Each commits the first row of its content.
  intro s₇ h₇
  refine ⟨(fun a p h hcall => by cases hcall; exact ⟨rfl, by decide⟩), ?_⟩
  obtain rfl := Option.some.inj h₇
  intro s₈ h₈
  refine ⟨(fun a p h hcall => by cases hcall; exact ⟨rfl, by decide⟩), ?_⟩
  obtain rfl := Option.some.inj h₈
  intro s₉ h₉
  refine ⟨(fun _ e he => by cases he), ?_⟩
  obtain rfl := Option.some.inj h₉
  intro s₁₀ _
  exact ⟨(fun a p h e hcall he => by cases hcall; cases he), trivial⟩

end Uploads

end Ingest
end EvidenceLab
