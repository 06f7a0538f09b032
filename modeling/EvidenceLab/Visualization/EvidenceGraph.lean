/-
# The evidence graph

`visualization/evidence_graph/builder.py`: from the query over the documents and the
chunks that were retrieved to the claims that cite them and the answer.  A chunk that was
retrieved and never cited is in the graph and has no edge to a claim.
-/

import EvidenceLab.Data.Dict
import EvidenceLab.Text.Unicode
import Mathlib.Algebra.Order.Field.Rat

namespace EvidenceLab
namespace Visualization

open Text Data

/-! ### Graphs -/

/-- `NodeType`. -/
inductive NodeType
  | query | document | chunk | claim | answer
  deriving DecidableEq, Repr

/-- `EdgeKind`. -/
inductive EdgeKind
  | retrieved | contains | cites | supports
  deriving DecidableEq, Repr

/-- `ChunkInput`. -/
structure ChunkInput where
  chunkId : Str
  documentId : Str
  documentTitle : Str
  text : Str
  page : Option ℕ := none
  charStart : Option ℕ := none
  charEnd : Option ℕ := none
  rank : Option ℕ := none
  score : Option ℚ := none
  deriving DecidableEq

/-- `ClaimInput`. -/
structure ClaimInput where
  text : Str
  citedChunkIds : List Str
  deriving DecidableEq

/-- The `metadata` of a node, by what sets it. -/
inductive NodeMetadata
  | none
  | document (documentId : Str)
  | chunk (input : ChunkInput) (cited : Bool)
  | answer (abstained : Bool)
  | claim (supported : Bool)
  deriving DecidableEq

/-- `GraphNode`. -/
structure GraphNode where
  id : Str
  type : NodeType
  label : Str
  metadata : NodeMetadata := .none
  deriving DecidableEq

/-- `GraphEdge`. -/
structure GraphEdge where
  source : Str
  target : Str
  kind : EdgeKind
  deriving DecidableEq

/-- `Graph`. -/
structure Graph where
  nodes : List GraphNode := []
  edges : List GraphEdge := []
  deriving DecidableEq

/-! ### Building -/

/-- `text.split()`. -/
def words (text : Str) : List Str := (text.splitOnP isSpace).filter (· ≠ [])

def ellipsis : CodePoint := 0x2026

/-- `_preview`. -/
def preview (text : Str) (limit : ℕ := 160) : Str :=
  let text := List.intercalate [blankChar] (words text)
  if text.length ≤ limit then text else text.take (limit - 1) ++ [ellipsis]

def queryId : Str := lit "query".toList

def answerId : Str := lit "answer".toList

/-- `f"document:{document_id}"`. -/
def documentNodeId (documentId : Str) : Str := lit "document:".toList ++ documentId

/-- `f"chunk:{chunk_id}"`. -/
def chunkNodeId (chunkId : Str) : Str := lit "chunk:".toList ++ chunkId

/-- `f"claim:{index}"`. -/
def claimNodeId (index : ℕ) : Str := lit "claim:".toList ++ lit (toString index).toList

/-- The titles of the documents, each under the first of its chunks. -/
def documentTitles (chunks : List ChunkInput) : Dict Str Str :=
  chunks.foldl (fun d chunk => d.setDefault chunk.documentId chunk.documentTitle) Dict.empty

/-- The node of a document, and its edge. -/
def documentPart (document : Str × Str) : Graph where
  nodes := [⟨documentNodeId document.1, .document, document.2, .document document.1⟩]
  edges := [⟨queryId, documentNodeId document.1, .retrieved⟩]

/-- The node of a chunk, and its edge. -/
def chunkPart (claims : List ClaimInput) (chunk : ChunkInput) : Graph where
  nodes := [⟨chunkNodeId chunk.chunkId, .chunk, preview chunk.text,
    .chunk chunk (claims.any fun claim => claim.citedChunkIds.contains chunk.chunkId)⟩]
  edges := [⟨documentNodeId chunk.documentId, chunkNodeId chunk.chunkId, .contains⟩]

/-- The node of the answer; an empty answer is none. -/
def answerPart (answer : Option Str) (abstained : Bool) : Graph where
  nodes := [⟨answerId, .answer,
    preview (if answer.getD [] = [] then lit "(no answer)".toList else answer.getD []),
    .answer abstained⟩]

/-- The node of a claim, and its edges: one to the answer, and one from each chunk it
cites that was retrieved. -/
def claimPart (chunks : List ChunkInput) (claim : ClaimInput) (index : ℕ) : Graph where
  nodes := [⟨claimNodeId index, .claim, preview claim.text, .claim !claim.citedChunkIds.isEmpty⟩]
  edges := ⟨claimNodeId index, answerId, .supports⟩ ::
    (claim.citedChunkIds.filter ((chunks.map (·.chunkId)).contains ·)).map fun chunkId =>
      ⟨chunkNodeId chunkId, claimNodeId index, .cites⟩

/-- One graph after another. -/
def joined (parts : List Graph) : Graph where
  nodes := parts.flatMap (·.nodes)
  edges := parts.flatMap (·.edges)

/-- `build_evidence_graph`. -/
def buildEvidenceGraph (query : Str) (answer : Option Str) (chunks : List ChunkInput)
    (claims : List ClaimInput) (abstained : Bool := false) : Graph :=
  joined ({ nodes := [⟨queryId, .query, preview query, .none⟩] } ::
    (documentTitles chunks).entries.map documentPart ++
    chunks.map (chunkPart claims) ++ answerPart answer abstained ::
    claims.zipIdx.map fun entry => claimPart chunks entry.1 entry.2)

/-! ### Counting -/

/-- What `graph_summary` returns. -/
structure GraphSummary where
  nodeCounts : Dict NodeType ℕ
  edgeCount : ℕ
  uncitedChunks : ℕ
  unsupportedClaims : ℕ

/-- `metadata.get("cited")`. -/
def NodeMetadata.cited : NodeMetadata → Bool
  | .chunk _ cited => cited
  | _ => false

/-- `metadata.get("supported")`. -/
def NodeMetadata.supported : NodeMetadata → Bool
  | .claim supported => supported
  | _ => false

/-- `graph_summary`. -/
def graphSummary (graph : Graph) : GraphSummary where
  nodeCounts := graph.nodes.foldl
    (fun d node => d.alter node.type fun o => o.getD 0 + 1) Dict.empty
  edgeCount := graph.edges.length
  uncitedChunks := graph.nodes.countP fun node => node.type = .chunk && !node.metadata.cited
  unsupportedClaims := graph.nodes.countP fun node => node.type = .claim && !node.metadata.supported

end Visualization
end EvidenceLab
