/-
# What the evidence graph says of support

The nodes and the edges of `build_evidence_graph`, and the flags and the counts a viewer reads
off them.  The citations are looked at three times: over the claims for the flag of a chunk,
over the chunks for the edges, and in the claim alone for its own flag.  The first two agree.
The third asks whether the claim cites anything, not whether it cites a chunk of the graph; so
the graph tells the truth iff the one implies the other (`honest_iff`).
-/

import EvidenceLab.Visualization.EvidenceGraph
import Mathlib.Data.List.Nodup
import Mathlib.Data.Nat.Digits.Defs

namespace EvidenceLab
namespace Visualization

open Text Data

variable {query : Str} {answer : Option Str} {chunks : List ChunkInput}
  {claims : List ClaimInput} {abstained : Bool}

/-! ### Ids -/

theorem ofChar_injective : Function.Injective ofChar := by
  intro a b h
  have hlt : ∀ c : Char, c.toNat < 0x110000 := fun c => by
    rcases c.valid with h | h
    · exact lt_trans h (by decide)
    · exact h.2
  have hval := congrArg Fin.val h
  rw [ofChar, ofChar, Fin.val_ofNat, Fin.val_ofNat, Nat.mod_eq_of_lt (hlt a),
    Nat.mod_eq_of_lt (hlt b)] at hval
  exact Char.ext (UInt32.toNat_inj.mp hval)

theorem documentNodeId_injective : Function.Injective documentNodeId :=
  fun _ _ h => List.append_cancel_left h

theorem chunkNodeId_injective : Function.Injective chunkNodeId :=
  fun _ _ h => List.append_cancel_left h

theorem claimNodeId_injective : Function.Injective claimNodeId := by
  intro i j h
  have hdigits := ofChar_injective.list_map (List.append_cancel_left h)
  have hread := congrArg (Nat.ofDigitChars 10 · 0) hdigits
  simpa using hread

/-! ### Nodes and edges -/

def queryNode (query : Str) : GraphNode := ⟨queryId, .query, preview query, .none⟩

def documentNode (document : Str × Str) : GraphNode :=
  ⟨documentNodeId document.1, .document, document.2, .document document.1⟩

def chunkNode (claims : List ClaimInput) (chunk : ChunkInput) : GraphNode :=
  ⟨chunkNodeId chunk.chunkId, .chunk, preview chunk.text,
    .chunk chunk (claims.any fun claim => claim.citedChunkIds.contains chunk.chunkId)⟩

def answerNode (answer : Option Str) (abstained : Bool) : GraphNode :=
  ⟨answerId, .answer,
    preview (if answer.getD [] = [] then lit "(no answer)".toList else answer.getD []),
    .answer abstained⟩

def claimNode (entry : ClaimInput × ℕ) : GraphNode :=
  ⟨claimNodeId entry.2, .claim, preview entry.1.text, .claim !entry.1.citedChunkIds.isEmpty⟩

theorem flatMap_nodes {α : Type} {part : α → Graph} (node : α → GraphNode)
    (h : ∀ x, (part x).nodes = [node x]) (xs : List α) :
    (xs.map part).flatMap (·.nodes) = xs.map node := by
  rw [List.flatMap_map, List.map_eq_flatMap]
  simp only [h]

theorem nodes_eq (query : Str) (answer : Option Str) (chunks : List ChunkInput)
    (claims : List ClaimInput) (abstained : Bool) :
    (buildEvidenceGraph query answer chunks claims abstained).nodes =
      queryNode query :: ((documentTitles chunks).entries.map documentNode ++
        (chunks.map (chunkNode claims) ++
          answerNode answer abstained :: claims.zipIdx.map claimNode)) := by
  rw [buildEvidenceGraph, joined, List.cons_append, List.cons_append, List.flatMap_cons,
    List.flatMap_append, List.flatMap_append, List.flatMap_cons,
    flatMap_nodes documentNode fun _ => rfl,
    flatMap_nodes (chunkNode claims) fun _ => rfl,
    flatMap_nodes claimNode fun _ => rfl, List.append_assoc]
  rfl

theorem mem_edges {edge : GraphEdge} :
    edge ∈ (buildEvidenceGraph query answer chunks claims abstained).edges ↔
      (∃ document ∈ (documentTitles chunks).entries,
        edge = ⟨queryId, documentNodeId document.1, .retrieved⟩) ∨
      (∃ chunk ∈ chunks,
        edge = ⟨documentNodeId chunk.documentId, chunkNodeId chunk.chunkId, .contains⟩) ∨
      ∃ entry ∈ claims.zipIdx, edge = ⟨claimNodeId entry.2, answerId, .supports⟩ ∨
        ∃ chunkId ∈ entry.1.citedChunkIds, chunkId ∈ chunks.map (·.chunkId) ∧
          edge = ⟨chunkNodeId chunkId, claimNodeId entry.2, .cites⟩ := by
  have hedges : (buildEvidenceGraph query answer chunks claims abstained).edges =
      (documentTitles chunks).entries.flatMap (fun document => (documentPart document).edges) ++
        (chunks.flatMap (fun chunk => (chunkPart claims chunk).edges) ++
          claims.zipIdx.flatMap fun entry => (claimPart chunks entry.1 entry.2).edges) := by
    simp only [buildEvidenceGraph, joined, answerPart, List.cons_append, List.nil_append,
      List.flatMap_cons, List.flatMap_append, List.flatMap_map, List.append_assoc]
  rw [hedges, List.mem_append, List.mem_append]
  simp only [documentPart, chunkPart, claimPart, List.mem_flatMap, List.mem_map, List.mem_cons,
    List.not_mem_nil, or_false, List.mem_filter, List.contains_iff_mem, and_assoc,
    eq_comm (a := edge)]

/-! ### Citations -/

namespace Graph

variable (g : Graph)

/-- The ids of the nodes. -/
def ids : List Str := g.nodes.map (·.id)

/-- An edge leads from one id to another. -/
def Joined (source target : Str) : Prop :=
  ∃ edge ∈ g.edges, edge.source = source ∧ edge.target = target

/-- A CITES edge leads out of an id. -/
def CitesFrom (id : Str) : Prop := ∃ edge ∈ g.edges, edge.kind = .cites ∧ edge.source = id

/-- A CITES edge leads to an id. -/
def CitesTo (id : Str) : Prop := ∃ edge ∈ g.edges, edge.kind = .cites ∧ edge.target = id

instance (id : Str) : Decidable (g.CitesFrom id) :=
  inferInstanceAs (Decidable (∃ edge ∈ g.edges, edge.kind = .cites ∧ edge.source = id))

instance (id : Str) : Decidable (g.CitesTo id) :=
  inferInstanceAs (Decidable (∃ edge ∈ g.edges, edge.kind = .cites ∧ edge.target = id))

end Graph

/-- A claim cites a chunk of the graph. -/
def ClaimInput.Resolved (chunks : List ChunkInput) (claim : ClaimInput) : Prop :=
  ∃ chunkId ∈ claim.citedChunkIds, chunkId ∈ chunks.map (·.chunkId)

/-- The CITES edges are those of the chunks that are in the graph. -/
theorem mem_cites {edge : GraphEdge} :
    edge ∈ (buildEvidenceGraph query answer chunks claims abstained).edges ∧ edge.kind = .cites ↔
      ∃ entry ∈ claims.zipIdx, ∃ chunkId ∈ entry.1.citedChunkIds,
        chunkId ∈ chunks.map (·.chunkId) ∧
          edge = ⟨chunkNodeId chunkId, claimNodeId entry.2, .cites⟩ := by
  rw [mem_edges]
  constructor
  · rintro ⟨⟨_, _, rfl⟩ | ⟨_, _, rfl⟩ | ⟨entry, hentry, rfl | hcites⟩, hkind⟩
    · cases hkind
    · cases hkind
    · cases hkind
    · exact ⟨entry, hentry, hcites⟩
  · rintro ⟨entry, hentry, chunkId, hcited, hmem, rfl⟩
    exact ⟨Or.inr (Or.inr ⟨entry, hentry, Or.inr ⟨chunkId, hcited, hmem, rfl⟩⟩), rfl⟩

theorem citesFrom_iff {chunk : ChunkInput} (h : chunk ∈ chunks) :
    (buildEvidenceGraph query answer chunks claims abstained).CitesFrom
      (chunkNodeId chunk.chunkId) ↔ ∃ claim ∈ claims, chunk.chunkId ∈ claim.citedChunkIds := by
  constructor
  · rintro ⟨edge, hedge, hkind, hsource⟩
    obtain ⟨entry, hentry, chunkId, hcited, -, rfl⟩ := mem_cites.mp ⟨hedge, hkind⟩
    obtain rfl : chunkId = chunk.chunkId := chunkNodeId_injective hsource
    exact ⟨entry.1, List.fst_mem_of_mem_zipIdx hentry, hcited⟩
  · rintro ⟨claim, hclaim, hcited⟩
    obtain ⟨i, hi⟩ := List.mem_iff_getElem?.mp hclaim
    refine ⟨⟨chunkNodeId chunk.chunkId, claimNodeId i, .cites⟩, ?_, rfl, rfl⟩
    exact (mem_cites.mpr ⟨(claim, i), List.mem_zipIdx_iff_getElem?.mpr hi, chunk.chunkId, hcited,
      List.mem_map_of_mem h, rfl⟩).1

theorem citesTo_iff {entry : ClaimInput × ℕ} (h : entry ∈ claims.zipIdx) :
    (buildEvidenceGraph query answer chunks claims abstained).CitesTo (claimNodeId entry.2) ↔
      entry.1.Resolved chunks := by
  constructor
  · rintro ⟨edge, hedge, hkind, htarget⟩
    obtain ⟨other, hother, chunkId, hcited, hmem, rfl⟩ := mem_cites.mp ⟨hedge, hkind⟩
    have hindex : other.2 = entry.2 := claimNodeId_injective htarget
    have hclaim : some other.1 = some entry.1 :=
      (List.mem_zipIdx_iff_getElem?.mp hother).symm.trans
        (hindex ▸ List.mem_zipIdx_iff_getElem?.mp h)
    exact ⟨chunkId, Option.some.inj hclaim ▸ hcited, hmem⟩
  · rintro ⟨chunkId, hcited, hmem⟩
    refine ⟨⟨chunkNodeId chunkId, claimNodeId entry.2, .cites⟩, ?_, rfl, rfl⟩
    exact (mem_cites.mpr ⟨entry, h, chunkId, hcited, hmem, rfl⟩).1

/-! ### Node ids -/

/-- Lists of different kinds have no element in common. -/
theorem nodup_flatMap_of_kinds {α κ : Type} (kind : α → κ) (parts : List (κ × List α))
    (hparts : ∀ part ∈ parts, part.2.Nodup ∧ ∀ a ∈ part.2, kind a = part.1)
    (hkinds : (parts.map (·.1)).Nodup) : (parts.flatMap (·.2)).Nodup := by
  rw [List.nodup_flatMap]
  refine ⟨fun part hpart => (hparts part hpart).1, ?_⟩
  refine (List.pairwise_map.mp hkinds).imp_of_mem ?_
  intro part other hpart hother hne a ha ha'
  exact hne (((hparts part hpart).2 a ha).symm.trans ((hparts other hother).2 a ha'))

theorem mem_keys_documentTitles {documentId : Str} :
    documentId ∈ (documentTitles chunks).keys ↔
      ∃ chunk ∈ chunks, chunk.documentId = documentId := by
  have h : documentId ∈ (documentTitles chunks).keys ↔ _ :=
    Dict.mem_keys_foldl_alter (fun chunk : ChunkInput => chunk.documentId)
      fun o chunk => o.getD chunk.documentTitle
  rw [Dict.keys_empty, List.mem_map] at h
  exact h.trans (or_iff_right List.not_mem_nil)

theorem ids_eq (query : Str) (answer : Option Str) (chunks : List ChunkInput)
    (claims : List ClaimInput) (abstained : Bool) :
    (buildEvidenceGraph query answer chunks claims abstained).ids =
      queryId :: ((documentTitles chunks).keys.map documentNodeId ++
        ((chunks.map (·.chunkId)).map chunkNodeId ++
          answerId :: (List.range claims.length).map claimNodeId)) := by
  have hindex : claims.zipIdx.map (fun entry => claimNodeId entry.2) =
      (List.range claims.length).map claimNodeId := by
    rw [List.range_eq_range', ← List.zipIdx_map_snd 0 claims, List.map_map]
    rfl
  simp only [Graph.ids, nodes_eq, List.map_cons, List.map_append, List.map_map, Dict.keys,
    ← hindex]
  rfl

/-- **Node ids are distinct.** -/
theorem nodup_ids (h : (chunks.map (·.chunkId)).Nodup) :
    (buildEvidenceGraph query answer chunks claims abstained).ids.Nodup := by
  have hparts := nodup_flatMap_of_kinds (List.take 2)
    [(lit "qu".toList, [queryId]),
      (lit "do".toList, (documentTitles chunks).keys.map documentNodeId),
      (lit "ch".toList, (chunks.map (·.chunkId)).map chunkNodeId),
      (lit "an".toList, [answerId]),
      (lit "cl".toList, (List.range claims.length).map claimNodeId)] ?_
    (show [lit "qu".toList, lit "do".toList, lit "ch".toList, lit "an".toList,
      lit "cl".toList].Nodup by decide)
  · rw [ids_eq]
    simpa using hparts
  · simp only [List.forall_mem_cons, List.forall_mem_map, List.nodup_singleton, true_and]
    refine ⟨⟨rfl, by simp⟩, ⟨?_, fun _ _ => rfl⟩, ⟨?_, fun _ _ => rfl⟩, ⟨rfl, by simp⟩,
      ⟨?_, fun _ _ => rfl⟩, by simp⟩
    · exact (documentTitles chunks).nodup_keys.map documentNodeId_injective
    · exact h.map chunkNodeId_injective
    · exact List.nodup_range.map claimNodeId_injective

/-! ### Well-formed and honest -/

/-- What a graph says of the chunks and the claims it is of. -/
structure Honest (chunks : List ChunkInput) (claims : List ClaimInput) (g : Graph) : Prop where
  nodup_ids : g.ids.Nodup
  joins : ∀ edge ∈ g.edges, edge.source ∈ g.ids ∧ edge.target ∈ g.ids
  /-- A chunk is reached from the query through one document. -/
  one_document : ∀ chunk ∈ chunks, ∃ node ∈ g.nodes, node.type = .document ∧
    g.Joined queryId node.id ∧ g.Joined node.id (chunkNodeId chunk.chunkId) ∧
    ∀ other ∈ g.nodes, g.Joined other.id (chunkNodeId chunk.chunkId) → other = node
  cites_iff : ∀ chunkId i,
    (⟨chunkNodeId chunkId, claimNodeId i, .cites⟩ : GraphEdge) ∈ g.edges ↔
      chunkId ∈ chunks.map (·.chunkId) ∧ ∃ claim, claims[i]? = some claim ∧
        chunkId ∈ claim.citedChunkIds
  supported_iff : ∀ node ∈ g.nodes, node.type = .claim →
    (node.metadata.supported = true ↔ g.CitesTo node.id)
  cited_iff : ∀ node ∈ g.nodes, node.type = .chunk →
    (node.metadata.cited = true ↔ g.CitesFrom node.id)
  uncited_chunks : (graphSummary g).uncitedChunks =
    chunks.countP fun chunk => ¬ g.CitesFrom (chunkNodeId chunk.chunkId)
  unsupported_claims : (graphSummary g).unsupportedClaims =
    claims.zipIdx.countP fun entry => ¬ g.CitesTo (claimNodeId entry.2)

theorem mem_nodes {node : GraphNode} :
    node ∈ (buildEvidenceGraph query answer chunks claims abstained).nodes ↔
      node = queryNode query ∨
      (∃ document ∈ (documentTitles chunks).entries, documentNode document = node) ∨
      (∃ chunk ∈ chunks, chunkNode claims chunk = node) ∨ node = answerNode answer abstained ∨
      ∃ entry ∈ claims.zipIdx, claimNode entry = node := by
  rw [nodes_eq, List.mem_cons, List.mem_append, List.mem_append, List.mem_cons, List.mem_map,
    List.mem_map, List.mem_map]

/-- **Edges join nodes.** -/
theorem joins {edge : GraphEdge}
    (h : edge ∈ (buildEvidenceGraph query answer chunks claims abstained).edges) :
    edge.source ∈ (buildEvidenceGraph query answer chunks claims abstained).ids ∧
      edge.target ∈ (buildEvidenceGraph query answer chunks claims abstained).ids := by
  have hclaim : ∀ entry ∈ claims.zipIdx,
      claimNodeId entry.2 ∈ (List.range claims.length).map claimNodeId := by
    intro entry hentry
    exact List.mem_map_of_mem (List.mem_range.mpr (List.snd_lt_of_mem_zipIdx hentry))
  rw [ids_eq]
  simp only [List.mem_cons, List.mem_append]
  rcases mem_edges.mp h with ⟨document, hmem, rfl⟩ | ⟨chunk, hmem, rfl⟩ |
    ⟨entry, hmem, rfl | ⟨chunkId, -, hknown, rfl⟩⟩
  · exact ⟨Or.inl rfl, Or.inr (Or.inl (List.mem_map_of_mem (List.mem_map_of_mem hmem)))⟩
  · refine ⟨Or.inr (Or.inl (List.mem_map_of_mem ?_)),
      Or.inr (Or.inr (Or.inl (List.mem_map_of_mem (List.mem_map_of_mem hmem))))⟩
    exact mem_keys_documentTitles.mpr ⟨chunk, hmem, rfl⟩
  · exact ⟨Or.inr (Or.inr (Or.inr (Or.inr (hclaim entry hmem)))),
      Or.inr (Or.inr (Or.inr (Or.inl rfl)))⟩
  · exact ⟨Or.inr (Or.inr (Or.inl (List.mem_map_of_mem hknown))),
      Or.inr (Or.inr (Or.inr (Or.inr (hclaim entry hmem))))⟩

/-- An edge to a chunk leads from its document. -/
theorem eq_of_joined (h : (chunks.map (·.chunkId)).Nodup) {chunk : ChunkInput}
    (hchunk : chunk ∈ chunks) {id : Str}
    (hjoined : (buildEvidenceGraph query answer chunks claims abstained).Joined id
      (chunkNodeId chunk.chunkId)) : id = documentNodeId chunk.documentId := by
  obtain ⟨edge, hedge, rfl, htarget⟩ := hjoined
  have hkind : edge.target.take 2 = lit "ch".toList := by
    rw [htarget]
    rfl
  rcases mem_edges.mp hedge with ⟨document, -, rfl⟩ | ⟨other, hother, rfl⟩ |
    ⟨entry, -, rfl | ⟨chunkId, -, -, rfl⟩⟩
  · exact absurd (show lit "do".toList = lit "ch".toList from hkind) (by decide)
  · have hsame := List.inj_on_of_nodup_map h hother hchunk (chunkNodeId_injective htarget)
    rw [hsame]
  · exact absurd (show lit "an".toList = lit "ch".toList from hkind) (by decide)
  · exact absurd (show lit "cl".toList = lit "ch".toList from hkind) (by decide)

theorem one_document (h : (chunks.map (·.chunkId)).Nodup) {chunk : ChunkInput}
    (hchunk : chunk ∈ chunks) :
    ∃ node ∈ (buildEvidenceGraph query answer chunks claims abstained).nodes,
      node.type = .document ∧
      (buildEvidenceGraph query answer chunks claims abstained).Joined queryId node.id ∧
      (buildEvidenceGraph query answer chunks claims abstained).Joined node.id
        (chunkNodeId chunk.chunkId) ∧
      ∀ other ∈ (buildEvidenceGraph query answer chunks claims abstained).nodes,
        (buildEvidenceGraph query answer chunks claims abstained).Joined other.id
          (chunkNodeId chunk.chunkId) → other = node := by
  obtain ⟨document, hdocument, hid⟩ :=
    List.mem_map.mp (mem_keys_documentTitles.mpr ⟨chunk, hchunk, rfl⟩)
  have hnode : documentNode document ∈
      (buildEvidenceGraph query answer chunks claims abstained).nodes :=
    mem_nodes.mpr (Or.inr (Or.inl ⟨document, hdocument, rfl⟩))
  refine ⟨documentNode document, hnode, rfl, ?_, ?_, ?_⟩
  · exact ⟨_, mem_edges.mpr (Or.inl ⟨document, hdocument, rfl⟩), rfl, rfl⟩
  · exact ⟨_, mem_edges.mpr (Or.inr (Or.inl ⟨chunk, hchunk, rfl⟩)),
      congrArg documentNodeId hid.symm, rfl⟩
  · intro other hother hjoined
    refine List.inj_on_of_nodup_map (nodup_ids h) hother hnode ?_
    exact (eq_of_joined h hchunk hjoined).trans (congrArg documentNodeId hid.symm)

theorem cites_iff {chunkId : Str} {i : ℕ} :
    (⟨chunkNodeId chunkId, claimNodeId i, .cites⟩ : GraphEdge) ∈
        (buildEvidenceGraph query answer chunks claims abstained).edges ↔
      chunkId ∈ chunks.map (·.chunkId) ∧ ∃ claim, claims[i]? = some claim ∧
        chunkId ∈ claim.citedChunkIds := by
  constructor
  · intro h
    obtain ⟨entry, hentry, other, hcited, hknown, heq⟩ := mem_cites.mp ⟨h, rfl⟩
    rw [GraphEdge.mk.injEq] at heq
    obtain rfl : other = chunkId := chunkNodeId_injective heq.1.symm
    obtain rfl : entry.2 = i := claimNodeId_injective heq.2.1.symm
    exact ⟨hknown, entry.1, List.mem_zipIdx_iff_getElem?.mp hentry, hcited⟩
  · rintro ⟨hknown, claim, hclaim, hcited⟩
    exact (mem_cites.mpr ⟨(claim, i), List.mem_zipIdx_iff_getElem?.mpr hclaim, chunkId, hcited,
      hknown, rfl⟩).1

/-- **A chunk is marked as cited** iff an edge says so. -/
theorem cited_chunkNode_iff {chunk : ChunkInput} (h : chunk ∈ chunks) :
    (chunkNode claims chunk).metadata.cited = true ↔
      (buildEvidenceGraph query answer chunks claims abstained).CitesFrom
        (chunkNodeId chunk.chunkId) := by
  rw [citesFrom_iff h]
  simp only [chunkNode, NodeMetadata.cited, List.any_eq_true, List.contains_iff_mem]

/-- A claim is marked as supported iff it cites anything. -/
theorem supported_claimNode_iff {entry : ClaimInput × ℕ} :
    (claimNode entry).metadata.supported = true ↔ entry.1.citedChunkIds ≠ [] := by
  simp [claimNode, NodeMetadata.supported]

theorem graphSummary_eq (query : Str) (answer : Option Str) (chunks : List ChunkInput)
    (claims : List ClaimInput) (abstained : Bool) :
    (graphSummary (buildEvidenceGraph query answer chunks claims abstained)).uncitedChunks =
        (chunks.countP fun chunk => !(chunkNode claims chunk).metadata.cited) ∧
      (graphSummary (buildEvidenceGraph query answer chunks claims abstained)).unsupportedClaims =
        claims.zipIdx.countP fun entry => !(claimNode entry).metadata.supported := by
  have hcount : ∀ p : GraphNode → Bool, p (queryNode query) = false →
      p (answerNode answer abstained) = false → p ∘ documentNode = (fun _ => false) →
      (buildEvidenceGraph query answer chunks claims abstained).nodes.countP p =
        chunks.countP (p ∘ chunkNode claims) + claims.zipIdx.countP (p ∘ claimNode) := by
    intro p hquery hanswer hdocument
    rw [nodes_eq, List.countP_cons, List.countP_append, List.countP_append, List.countP_cons,
      List.countP_map, List.countP_map, List.countP_map, hquery, hanswer, hdocument,
      List.countP_false, if_neg Bool.false_ne_true]
    exact Nat.zero_add _
  rw [graphSummary, hcount _ rfl rfl rfl, hcount _ rfl rfl rfl]
  refine ⟨?_, ?_⟩
  · have hclaims : ((fun node : GraphNode => node.type = .chunk && !node.metadata.cited) ∘
        claimNode) = fun _ => false := rfl
    rw [hclaims, List.countP_false]
    exact congrArg (List.countP · chunks) (funext fun chunk => Bool.true_and _)
  · have hchunks : ((fun node : GraphNode => node.type = .claim && !node.metadata.supported) ∘
        chunkNode claims) = fun _ => false := rfl
    rw [hchunks, List.countP_false]
    refine (Nat.zero_add _).trans ?_
    exact congrArg (List.countP · claims.zipIdx) (funext fun entry => Bool.true_and _)

/-- **The graph is well formed and honest iff no claim cites only chunks that are gone.** -/
theorem honest_iff (query : Str) (answer : Option Str) (chunks : List ChunkInput)
    (claims : List ClaimInput) (abstained : Bool) (h : (chunks.map (·.chunkId)).Nodup) :
    Honest chunks claims (buildEvidenceGraph query answer chunks claims abstained) ↔
      ∀ claim ∈ claims, claim.citedChunkIds ≠ [] → claim.Resolved chunks := by
  constructor
  · intro honest claim hclaim hcites
    obtain ⟨i, hi⟩ := List.mem_iff_getElem?.mp hclaim
    have hentry : (claim, i) ∈ claims.zipIdx := List.mem_zipIdx_iff_getElem?.mpr hi
    have hnode : claimNode (claim, i) ∈
        (buildEvidenceGraph query answer chunks claims abstained).nodes :=
      mem_nodes.mpr (Or.inr (Or.inr (Or.inr (Or.inr ⟨(claim, i), hentry, rfl⟩))))
    exact (citesTo_iff hentry).mp
      ((honest.supported_iff _ hnode rfl).mp (supported_claimNode_iff.mpr hcites))
  · intro hresolved
    have hsupported : ∀ entry ∈ claims.zipIdx, (claimNode entry).metadata.supported = true ↔
        (buildEvidenceGraph query answer chunks claims abstained).CitesTo
          (claimNodeId entry.2) := by
      intro entry hentry
      rw [citesTo_iff hentry, supported_claimNode_iff]
      refine ⟨hresolved _ (List.fst_mem_of_mem_zipIdx hentry), ?_⟩
      rintro ⟨chunkId, hcited, -⟩
      exact List.ne_nil_of_mem hcited
    have hsummary := graphSummary_eq query answer chunks claims abstained
    refine ⟨nodup_ids h, fun _ => joins, fun chunk hchunk => one_document h hchunk,
      fun _ _ => cites_iff, ?_, ?_, ?_, ?_⟩
    · intro node hnode htype
      rcases mem_nodes.mp hnode with rfl | ⟨_, _, rfl⟩ | ⟨_, _, rfl⟩ | rfl | ⟨entry, hentry, rfl⟩
      · cases htype
      · cases htype
      · cases htype
      · cases htype
      · exact hsupported entry hentry
    · intro node hnode htype
      rcases mem_nodes.mp hnode with rfl | ⟨_, _, rfl⟩ | ⟨chunk, hchunk, rfl⟩ | rfl | ⟨_, _, rfl⟩
      · cases htype
      · cases htype
      · exact cited_chunkNode_iff hchunk
      · cases htype
      · cases htype
    · rw [hsummary.1]
      refine List.countP_congr ?_
      intro chunk hchunk
      rw [decide_eq_true_eq, ← cited_chunkNode_iff hchunk, Bool.not_eq_true', Bool.not_eq_true]
    · rw [hsummary.2]
      refine List.countP_congr ?_
      intro entry hentry
      rw [decide_eq_true_eq, ← hsupported entry hentry, Bool.not_eq_true', Bool.not_eq_true]

/-- A chunk of a graph. -/
def sampleChunk : ChunkInput where
  chunkId := [97]
  documentId := [100]
  documentTitle := []
  text := []

theorem honest_iff_sample : Honest [sampleChunk] [⟨[99], [[98], [97]]⟩]
    (buildEvidenceGraph [113] (some [97]) [sampleChunk] [⟨[99], [[98], [97]]⟩]) := by
  refine (honest_iff [113] (some [97]) [sampleChunk] _ false (List.nodup_singleton [97])).mpr ?_
  intro claim hclaim _
  rw [List.mem_singleton.mp hclaim]
  exact ⟨[97], List.mem_cons_of_mem _ (List.mem_singleton_self _), List.mem_singleton_self _⟩

/-- A claim that cites a chunk that is gone is marked as supported, and no edge leads to it. -/
theorem supported_without_evidence :
    ¬ ∀ (query : Str) (answer : Option Str) (chunks : List ChunkInput) (claims : List ClaimInput),
      (chunks.map (·.chunkId)).Nodup →
        Honest chunks claims (buildEvidenceGraph query answer chunks claims) := by
  intro hclaim
  have honest := hclaim [113] (some [97]) [sampleChunk] [⟨[99], [[98]]⟩] (List.nodup_singleton _)
  have hnode : claimNode (⟨[99], [[98]]⟩, 0) ∈
      (buildEvidenceGraph [113] (some [97]) [sampleChunk] [⟨[99], [[98]]⟩]).nodes :=
    mem_nodes.mpr (Or.inr (Or.inr (Or.inr (Or.inr ⟨_, List.mem_singleton_self _, rfl⟩))))
  obtain ⟨edge, hedge, hkind, -⟩ := (honest.supported_iff _ hnode rfl).mp rfl
  obtain ⟨entry, hentry, chunkId, hcited, hknown, -⟩ := mem_cites.mp ⟨hedge, hkind⟩
  rw [List.mem_singleton.mp hentry, List.mem_singleton] at hcited
  rw [hcited] at hknown
  exact absurd hknown (by decide)

end Visualization
end EvidenceLab
