/-
# The tables of all organizations

`app/models`: the rows of every organization, side by side.  `OwnedMixin` and `TenantMixin`
of `app/db/base.py` give a row the organization that owns it and the project it is in.
The rows of `trace_spans`, `evaluation_items` and `evaluation_results` have neither: they
are read through the row that they belong to and are kept in it.

The database checks keys, unique columns and references at every commit
(`Tables.Constrained`).  That a row has the organization of its project is no constraint:
it is left to what writes the rows.
-/

import EvidenceLab.Evaluation.Execute
import EvidenceLab.Ingest.Uploads
import EvidenceLab.Reasoning.Traced

namespace EvidenceLab
namespace Tenancy

open Text Data EvidenceLab.Core Ingest Evaluation Reasoning Tracing

/-! ### Rows -/

/-- `OwnedMixin`, with the timestamps. -/
structure Owned where
  organizationId : Uuid
  userId : Option Uuid
  createdAt : ℤ
  updatedAt : ℤ
  deriving DecidableEq

/-- `Project`. -/
structure Project extends Owned where
  id : Uuid
  name : Str
  description : Option Str := none
  settings : List (Str × Json) := []

/-- `Document`, with all its columns. -/
structure DocumentRecord extends DocumentRow, Owned where
  projectId : Uuid
  title : Str

/-- `Chunk`, with the columns that say whose it is. -/
structure ChunkRecord (V : Type) extends ChunkRow V where
  documentId : Uuid
  projectId : Uuid
  organizationId : Uuid
  userId : Option Uuid
  deriving DecidableEq

/-- `Trace`, with its spans. -/
structure StoredTrace extends SavedTrace where
  createdAt : ℤ
  updatedAt : ℤ

/-- `EvaluationItem`, with all its columns. -/
structure DatasetItem extends EvaluationItem where
  expectedAnswer : Option Str := none
  goldDocumentIds : List Uuid := []
  createdAt : ℤ
  updatedAt : ℤ

/-- `EvaluationDataset`, with its items. -/
structure EvaluationDataset extends Owned where
  id : Uuid
  projectId : Uuid
  name : Str
  description : Option Str := none
  items : List DatasetItem

/-- `EvaluationRun`, with its results and their ids. -/
structure StoredRun (K : Type) extends EvaluationRun K, Owned where
  id : Uuid
  datasetId : Uuid
  name : Option Str := none
  startedAt : Option ℤ := none
  finishedAt : Option ℤ := none
  resultIds : List Uuid := []

/-- The tables. -/
structure Tables (V K : Type) where
  projects : List Project := []
  documents : List DocumentRecord := []
  chunks : List (ChunkRecord V) := []
  traces : List StoredTrace := []
  datasets : List EvaluationDataset := []
  runs : List (StoredRun K) := []

namespace Tables

variable {V K : Type} (s : Tables V K)

/-! ### Constraints -/

/-- The ids of the projects. -/
def projectIds : List Uuid := s.projects.map (·.id)

/-- The ids of the documents. -/
def documentIds : List Uuid := s.documents.map (·.id)

/-- Primary keys. -/
structure Keyed : Prop where
  projects : s.projectIds.Nodup
  documents : s.documentIds.Nodup
  chunks : (s.chunks.map (·.id)).Nodup
  traces : (s.traces.map (·.row.id)).Nodup
  datasets : (s.datasets.map (·.id)).Nodup
  runs : (s.runs.map (·.id)).Nodup

/-- Unique columns. -/
structure Unique : Prop where
  projects : (s.projects.map fun p => (p.organizationId, p.name)).Nodup
  documents : (s.documents.map fun d => (d.projectId, d.contentHash)).Nodup
  chunks : (s.chunks.map fun c => (c.documentId, c.ordinal)).Nodup
  datasets : (s.datasets.map fun d => (d.projectId, d.name)).Nodup

/-- Foreign keys. -/
structure Referring : Prop where
  documents : ∀ d ∈ s.documents, d.projectId ∈ s.projectIds
  chunks : ∀ c ∈ s.chunks, c.documentId ∈ s.documentIds ∧ c.projectId ∈ s.projectIds
  traces : ∀ t ∈ s.traces, t.row.projectId ∈ s.projectIds
  datasets : ∀ d ∈ s.datasets, d.projectId ∈ s.projectIds
  runs : ∀ r ∈ s.runs, r.datasetId ∈ s.datasets.map (·.id) ∧ r.projectId ∈ s.projectIds

/-- The constraints of the database. -/
structure Constrained : Prop where
  keyed : s.Keyed
  unique : s.Unique
  referring : s.Referring

instance : Decidable s.Keyed :=
  decidable_of_iff (s.projectIds.Nodup ∧ s.documentIds.Nodup ∧ (s.chunks.map (·.id)).Nodup ∧
      (s.traces.map (·.row.id)).Nodup ∧ (s.datasets.map (·.id)).Nodup ∧ (s.runs.map (·.id)).Nodup)
    ⟨fun ⟨h₁, h₂, h₃, h₄, h₅, h₆⟩ => ⟨h₁, h₂, h₃, h₄, h₅, h₆⟩,
      fun ⟨h₁, h₂, h₃, h₄, h₅, h₆⟩ => ⟨h₁, h₂, h₃, h₄, h₅, h₆⟩⟩

instance : Decidable s.Unique :=
  decidable_of_iff ((s.projects.map fun p => (p.organizationId, p.name)).Nodup ∧
      (s.documents.map fun d => (d.projectId, d.contentHash)).Nodup ∧
      (s.chunks.map fun c => (c.documentId, c.ordinal)).Nodup ∧
      (s.datasets.map fun d => (d.projectId, d.name)).Nodup)
    ⟨fun ⟨h₁, h₂, h₃, h₄⟩ => ⟨h₁, h₂, h₃, h₄⟩, fun ⟨h₁, h₂, h₃, h₄⟩ => ⟨h₁, h₂, h₃, h₄⟩⟩

theorem referring_iff : s.Referring ↔
    (∀ d ∈ s.documents, s.projectIds.contains d.projectId) ∧
    (∀ c ∈ s.chunks, s.documentIds.contains c.documentId ∧ s.projectIds.contains c.projectId) ∧
    (∀ t ∈ s.traces, s.projectIds.contains t.row.projectId) ∧
    (∀ d ∈ s.datasets, s.projectIds.contains d.projectId) ∧
    ∀ r ∈ s.runs, (s.datasets.map (·.id)).contains r.datasetId ∧
      s.projectIds.contains r.projectId := by
  simp only [List.contains_iff_mem]
  constructor
  · rintro ⟨h₁, h₂, h₃, h₄, h₅⟩
    exact ⟨h₁, h₂, h₃, h₄, h₅⟩
  · rintro ⟨h₁, h₂, h₃, h₄, h₅⟩
    exact ⟨h₁, h₂, h₃, h₄, h₅⟩

instance : Decidable s.Referring := decidable_of_iff' _ s.referring_iff

instance : Decidable s.Constrained :=
  decidable_of_iff (s.Keyed ∧ s.Unique ∧ s.Referring)
    ⟨fun ⟨h₁, h₂, h₃⟩ => ⟨h₁, h₂, h₃⟩, fun ⟨h₁, h₂, h₃⟩ => ⟨h₁, h₂, h₃⟩⟩

/-- What a commit makes of the tables: nothing where it breaks a constraint. -/
def checked : Option (Tables V K) := if s.Constrained then some s else none

theorem checked_eq_some {s s' : Tables V K} : s.checked = some s' ↔ s.Constrained ∧ s' = s := by
  rw [checked]
  split
  · rename_i h
    simp [h, eq_comm]
  · rename_i h
    simp [h]

/-! ### The rows of an organization -/

/-- The two have the rows of an organization in common. -/
structure Agree (organizationId : Uuid) (s s' : Tables V K) : Prop where
  projects : (s.projects.filter (·.organizationId = organizationId)).Perm
    (s'.projects.filter (·.organizationId = organizationId))
  documents : (s.documents.filter (·.organizationId = organizationId)).Perm
    (s'.documents.filter (·.organizationId = organizationId))
  chunks : (s.chunks.filter (·.organizationId = organizationId)).Perm
    (s'.chunks.filter (·.organizationId = organizationId))
  traces : (s.traces.filter (·.organizationId = organizationId)).Perm
    (s'.traces.filter (·.organizationId = organizationId))
  datasets : (s.datasets.filter (·.organizationId = organizationId)).Perm
    (s'.datasets.filter (·.organizationId = organizationId))
  runs : (s.runs.filter (·.organizationId = organizationId)).Perm
    (s'.runs.filter (·.organizationId = organizationId))

end Tables

end Tenancy
end EvidenceLab
