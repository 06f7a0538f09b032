/-
# Which embedding responses are accepted

`_parse_embeddings` sorts the items of a response by their index and then checks how many
vectors there are and how wide each of them is; what the indices are is not checked.  A
response in which an index is repeated or out of range is therefore accepted, and its vectors
are attached to texts they do not belong to.

A response is accepted only when aligned, and every other one is rejected, iff the indices of
the responses that pass the checks are those of the texts (`Indexed`) and reading the response
does not overflow (`acceptsAligned_iff`).
-/

import EvidenceLab.Data.Numerals
import EvidenceLab.Providers.Alignment
import EvidenceLab.Providers.Taxonomy

namespace EvidenceLab
namespace Providers

open Text Data EvidenceLab.Core

/-! ### What a response carries -/

/-- The index of an item is the integer `i`. -/
def Carries (item : Json) (i : ℕ) : Prop :=
  ∃ index, item.get? indexKey = some index ∧ index.denotes i = true

/-- The items of a response. -/
def ItemsOf (payload : Json) (items : List Json) : Prop :=
  ∃ data, payload.get? dataKey = some data ∧ data.elements = .ok items

/-- The items carry the numbers from zero on, each once. -/
def Numbered (items : List Json) : Prop :=
  ∃ labelled, items.Perm labelled ∧ ∀ i item, labelled[i]? = some item → Carries item i

namespace MistralEmbeddingModel

variable (m : MistralEmbeddingModel)

/-- The items carry the numbers from zero on, each once, and each vector is the embedding of
the item with its place. -/
def Aligned (items : List Json) (vectors : List (List Float64)) : Prop :=
  ∃ labelled, items.Perm labelled ∧ labelled.length = vectors.length ∧
    ∀ i item vector, labelled[i]? = some item → vectors[i]? = some vector →
      Carries item i ∧ m.itemVector item = .ok vector

/-- Vectors are returned for an aligned response with one item for each text, and every other
response is rejected. -/
structure AcceptsAligned (payload : Json) (expected : ℕ) : Prop where
  aligned : ∀ vectors, m.parseEmbeddings payload expected = .ok vectors →
    vectors.length = expected ∧ ∃ items, ItemsOf payload items ∧ m.Aligned items vectors
  rejected : ∀ e, m.parseEmbeddings payload expected = .error e →
    ∃ message, e = mistralError message .embeddingFailed

/-- An item that passes the checks: `int` reads an index off it, and its embedding has the
declared width. -/
def Passes (item : Json) : Prop :=
  (∃ index, itemIndex item = .ok index) ∧
    ∃ vector, m.itemVector item = .ok vector ∧ vector.length = m.dimensions

/-- If a response has an item for each text and all of them pass the checks, their indices are
those of the texts. -/
def Indexed (payload : Json) (expected : ℕ) : Prop :=
  ∀ items, ItemsOf payload items → items.length = expected → (∀ item ∈ items, m.Passes item) →
    Numbered items

end MistralEmbeddingModel

/-! ### Sorting the items -/

theorem itemIndex_of_carries {item : Json} {i : ℕ} (h : Carries item i) :
    itemIndex item = .ok (i : ℤ) := by
  obtain ⟨index, hindex, hdenotes⟩ := h
  rw [itemIndex, subscript_eq_ok.mpr hindex]
  exact Json.toInt_of_denotes hdenotes

/-- Numbered items are sorted by their numbers. -/
theorem ordered_of_numbered {items labelled : List Json} (hperm : items.Perm labelled)
    (hcarries : ∀ i item, labelled[i]? = some item → Carries item i) :
    items.mapM itemIndex = .ok (items.map indexOf) ∧
      (((items.map indexOf).zip items).mergeSort fun a b => a.1 ≤ b.1).map Prod.snd =
        labelled := by
  have hindex : ∀ (i : ℕ) item, labelled[i]? = some item → indexOf item = i := fun i item h =>
    indexOf_eq (itemIndex_of_carries (hcarries i item h))
  constructor
  · refine mapM_eq_ok ?_
    intro item hitem
    obtain ⟨i, hi⟩ := List.mem_iff_getElem?.mp (hperm.mem_iff.mp hitem)
    rw [hindex i item hi]
    exact itemIndex_of_carries (hcarries i item hi)
  · refine MistralEmbeddingModel.ordered_of_perm hperm (List.pairwise_iff_getElem.mpr ?_)
    intro i j hi hj hij
    rw [hindex i _ (List.getElem?_eq_getElem hi), hindex j _ (List.getElem?_eq_getElem hj)]
    exact_mod_cast hij

namespace MistralEmbeddingModel

variable {m : MistralEmbeddingModel} {payload : Json} {expected : ℕ}

/-- What is accepted: the vectors of the sorted items, as many and as wide as declared. -/
theorem parseEmbeddings_eq_ok {vectors : List (List Float64)} :
    m.parseEmbeddings payload expected = .ok vectors ↔
      m.itemVectors payload = .ok vectors ∧ vectors.length = expected ∧
        ∀ vector ∈ vectors, vector.length = m.dimensions := by
  rw [parseEmbeddings, bind_eq_ok]
  constructor
  · rintro ⟨vectors', hvectors, h⟩
    split_ifs at h with hlength
    cases hfind : vectors'.find? (·.length ≠ m.dimensions) with
    | some vector =>
        rw [hfind] at h
        cases h
    | none =>
        rw [hfind] at h
        obtain rfl := Except.ok.inj h
        refine ⟨?_, not_not.mp hlength, ?_⟩
        · cases hread : m.itemVectors payload with
          | error e =>
              rw [hread, catching] at hvectors
              split_ifs at hvectors
          | ok read =>
              rw [hread] at hvectors
              exact hvectors
        · intro vector hvector
          simpa using List.find?_eq_none.mp hfind vector hvector
  · rintro ⟨hread, hlength, hwidth⟩
    refine ⟨vectors, by rw [hread]; rfl, ?_⟩
    have hfind : vectors.find? (·.length ≠ m.dimensions) = none := by
      rw [List.find?_eq_none]
      intro vector hvector
      simpa using hwidth vector hvector
    rw [if_neg (not_not.mpr hlength), hfind]
    rfl

/-- What is rejected: with the code of the stage, unless reading the response overflows. -/
theorem parseEmbeddings_eq_error {e : Exc} (h : m.parseEmbeddings payload expected = .error e) :
    (∃ message, e = mistralError message .embeddingFailed) ∨ ¬ m.EmbeddingsReadable payload := by
  rw [parseEmbeddings, bind_eq_error] at h
  rcases h with h | ⟨vectors, -, h⟩
  · cases hread : m.itemVectors payload with
    | ok vectors =>
        rw [hread] at h
        cases h
    | error e' =>
        rcases itemVectors_caught m hread with hcaught | rfl
        · rw [hread, catching_error hcaught] at h
          exact Or.inl ⟨_, (Except.error.inj h).symm⟩
        · exact Or.inr ((itemVectors_overflow m).mp hread)
  · split_ifs at h with hlength
    · exact Or.inl ⟨_, (Except.error.inj h).symm⟩
    · cases hfind : vectors.find? (·.length ≠ m.dimensions) with
      | some vector =>
          rw [hfind] at h
          exact Or.inl ⟨_, (Except.error.inj h).symm⟩
      | none =>
          rw [hfind] at h
          cases h

/-- The vectors that are read are those of the items, sorted. -/
theorem itemVectors_eq_ok {vectors : List (List Float64)}
    (h : m.itemVectors payload = .ok vectors) : ∃ items keys, ItemsOf payload items ∧
      items.mapM itemIndex = .ok keys ∧
      (((keys.zip items).mergeSort fun a b => a.1 ≤ b.1).map Prod.snd).mapM m.itemVector =
        .ok vectors := by
  obtain ⟨data, hdata, h⟩ := bind_eq_ok.mp h
  obtain ⟨items, hitems, h⟩ := bind_eq_ok.mp h
  obtain ⟨keys, hkeys, h⟩ := bind_eq_ok.mp h
  exact ⟨items, keys, ⟨data, subscript_eq_ok.mp hdata, hitems⟩, hkeys, h⟩

/-- The items sorted by their keys are the items. -/
theorem perm_ordered {items : List Json} {keys : List ℤ} (h : items.length = keys.length) :
    (((keys.zip items).mergeSort fun a b => a.1 ≤ b.1).map Prod.snd).Perm items := by
  have hperm := (List.mergeSort_perm (keys.zip items) fun a b => a.1 ≤ b.1).map Prod.snd
  rwa [List.map_snd_zip h.le] at hperm

/-- A response whose items all pass the checks is accepted. -/
theorem exists_parseEmbeddings {items : List Json} (hitems : ItemsOf payload items)
    (hlength : items.length = expected) (hpasses : ∀ item ∈ items, m.Passes item) :
    ∃ vectors, m.parseEmbeddings payload expected = .ok vectors := by
  obtain ⟨data, hdata, hdataItems⟩ := hitems
  obtain ⟨keys, hkeys⟩ := exists_mapM fun item hitem => (hpasses item hitem).1
  have hperm := perm_ordered (getElem?_of_mapM hkeys).1
  obtain ⟨vectors, hvectors⟩ := exists_mapM (f := m.itemVector) fun item hitem =>
    (hpasses item (hperm.mem_iff.mp hitem)).2.imp fun _ h => h.1
  refine ⟨vectors, parseEmbeddings_eq_ok.mpr ⟨?_, ?_, ?_⟩⟩
  · exact bind_eq_ok.mpr ⟨data, subscript_eq_ok.mpr hdata, bind_eq_ok.mpr ⟨items, hdataItems,
      bind_eq_ok.mpr ⟨keys, hkeys, hvectors⟩⟩⟩
  · rw [← (getElem?_of_mapM hvectors).1, hperm.length_eq, hlength]
  · intro vector hvector
    obtain ⟨item, hitem, hvector⟩ := exists_turn_of_mapM hvectors hvector
    obtain ⟨vector', hvector', hwidth⟩ := (hpasses item (hperm.mem_iff.mp hitem)).2
    rw [hvector] at hvector'
    rw [Except.ok.inj hvector', hwidth]

theorem readable_of_acceptsAligned (h : m.AcceptsAligned payload expected) :
    m.EmbeddingsReadable payload := by
  by_contra hno
  have herror : m.parseEmbeddings payload expected = .error .overflowError := by
    refine bind_of_error ?_
    rw [(itemVectors_overflow m).mpr hno]
    rfl
  obtain ⟨message, he⟩ := h.rejected _ herror
  cases he

/-- Vectors that are returned for an aligned response come from numbered items. -/
theorem numbered_of_acceptsAligned (h : m.AcceptsAligned payload expected) {items : List Json}
    (hitems : ItemsOf payload items) {vectors : List (List Float64)}
    (hvectors : m.parseEmbeddings payload expected = .ok vectors) : Numbered items := by
  obtain ⟨-, items', hitems', labelled, hperm, hlength, hget⟩ := h.aligned vectors hvectors
  obtain ⟨data, hdata, hsome⟩ := hitems
  obtain ⟨data', hdata', hsome'⟩ := hitems'
  obtain rfl := Option.some.inj (hdata.symm.trans hdata')
  obtain rfl := Except.ok.inj (hsome.symm.trans hsome')
  refine ⟨labelled, hperm, ?_⟩
  intro i item hitem
  obtain ⟨hi, -⟩ := List.getElem?_eq_some_iff.mp hitem
  exact (hget i item _ hitem (List.getElem?_eq_getElem (hlength ▸ hi))).1

end MistralEmbeddingModel

open MistralEmbeddingModel in
/-- **Responses are accepted only when aligned, exactly where the indices that pass the checks
are those of the texts** and reading them does not overflow. -/
theorem acceptsAligned_iff (m : MistralEmbeddingModel) (payload : Json) (expected : ℕ) :
    m.AcceptsAligned payload expected ↔
      m.EmbeddingsReadable payload ∧ m.Indexed payload expected := by
  constructor
  · intro h
    refine ⟨readable_of_acceptsAligned h, ?_⟩
    intro items hitems hlength hpasses
    obtain ⟨vectors, hvectors⟩ := exists_parseEmbeddings hitems hlength hpasses
    exact numbered_of_acceptsAligned h hitems hvectors
  · rintro ⟨hread, hindexed⟩
    refine ⟨?_, fun e he => (parseEmbeddings_eq_error he).resolve_right (not_not.mpr hread)⟩
    intro vectors hvectors
    obtain ⟨hread, hlength, hwidth⟩ := parseEmbeddings_eq_ok.mp hvectors
    obtain ⟨items, keys, hitems, hkeys, hrun⟩ := itemVectors_eq_ok hread
    have hperm := perm_ordered (getElem?_of_mapM hkeys).1
    have hcount : items.length = expected := by
      rw [← hperm.length_eq, (getElem?_of_mapM hrun).1, hlength]
    obtain ⟨labelled, hlabelled, hcarries⟩ := hindexed items hitems hcount fun item hitem => by
      obtain ⟨index, -, hindex⟩ := exists_of_mapM hkeys hitem
      obtain ⟨vector, hmem, hvector⟩ := exists_of_mapM hrun (hperm.mem_iff.mpr hitem)
      exact ⟨⟨index, hindex⟩, vector, hvector, hwidth vector hmem⟩
    -- The items that carry the places are in the order in which they are sorted.
    obtain ⟨hkeys', hordered⟩ := ordered_of_numbered hlabelled hcarries
    obtain rfl := Except.ok.inj (hkeys.symm.trans hkeys')
    rw [hordered] at hrun
    obtain ⟨hsame, hget⟩ := getElem?_of_mapM hrun
    refine ⟨hlength, items, hitems, labelled, hlabelled, hsame, ?_⟩
    intro i item vector hitem hvector
    exact ⟨hcarries i item hitem, hget i item vector hitem hvector⟩

/-- An item with the index `i` and the embedding `[x]`. -/
def indexedItem (i : ℤ) (x : ℚ) : Json :=
  .dict [(indexKey, .int i), (embeddingKey, .list [.float (.ofRat x)])]

/-- Two items with the index 0 are taken for the embeddings of two texts. -/
theorem acceptsAligned_fails :
    let m : MistralEmbeddingModel := { dimensions := 1, floatOfStr := fun _ => none }
    let payload : Json := .dict [(dataKey, .list [indexedItem 0 1, indexedItem 0 2])]
    m.parseEmbeddings payload 2 = .ok [[.ofRat 1], [.ofRat 2]] ∧
      ¬ m.AcceptsAligned payload 2 := by
  intro m payload
  have haccepted : m.parseEmbeddings payload 2 = .ok [[.ofRat 1], [.ofRat 2]] := by
    refine MistralEmbeddingModel.parseEmbeddings_eq_ok.mpr ⟨?_, rfl, by simp [m]⟩
    refine bind_eq_ok.mpr ⟨_, rfl, bind_eq_ok.mpr ⟨_, rfl, bind_eq_ok.mpr ⟨[0, 0], rfl, ?_⟩⟩⟩
    rw [List.mergeSort_of_pairwise (by decide)]
    rfl
  refine ⟨haccepted, ?_⟩
  intro h
  obtain ⟨labelled, hperm, hcarries⟩ := MistralEmbeddingModel.numbered_of_acceptsAligned h
    ⟨.list [indexedItem 0 1, indexedItem 0 2], rfl, rfl⟩ haccepted
  have hlength : 1 < labelled.length := by
    rw [← hperm.length_eq]
    decide
  have hcarry := hcarries 1 labelled[1] (List.getElem?_eq_getElem hlength)
  have hmem := hperm.mem_iff.mpr (List.getElem_mem hlength)
  obtain ⟨index, hindex, hdenotes⟩ := hcarry
  rcases List.mem_pair.mp hmem with hitem | hitem
  · rw [hitem] at hindex
    obtain rfl := Option.some.inj hindex
    cases hdenotes
  · rw [hitem] at hindex
    obtain rfl := Option.some.inj hindex
    cases hdenotes

end Providers
end EvidenceLab
