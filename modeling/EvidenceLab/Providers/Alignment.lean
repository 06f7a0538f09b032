/-
# Aligned embedding responses

A response that labels the vector of every text with the place of the text, each place
once, is read as the vectors in the order of the texts, however its items are permuted
(`parseEmbeddings_of_labels`): sorting by the index restores the order, since no index
occurs twice.
-/

import EvidenceLab.Data.Sorting
import EvidenceLab.Providers.Mistral
import Mathlib.Data.List.Forall2

namespace EvidenceLab
namespace Providers

open Text Data EvidenceLab.Core

/-- The index of an item that has one. -/
def indexOf (item : Json) : ℤ :=
  match itemIndex item with
  | .ok index => index
  | .error _ => 0

theorem indexOf_eq {item : Json} {index : ℤ} (h : itemIndex item = .ok index) :
    indexOf item = index := by
  rw [indexOf, h]

namespace MistralEmbeddingModel

variable (m : MistralEmbeddingModel)

/-- An item labels the vector of a text, of the declared width, with a place. -/
def ItemOf (vector : Str → List Float64) (text : Str × ℕ) (item : Json) : Prop :=
  itemIndex item = .ok text.2 ∧ m.itemVector item = .ok (vector text.1) ∧
    (vector text.1).length = m.dimensions

/-- The items of a response are, in any order, one for each text, with its place and
its vector. -/
def Labels (vector : Str → List Float64) (texts : List Str) (payload : Json) : Prop :=
  ∃ items labelled, payload.get? dataKey = some (.list items) ∧ items.Perm labelled ∧
    List.Forall₂ (m.ItemOf vector) texts.zipIdx labelled

variable {m} {vector : Str → List Float64} {texts : List Str} {labelled items : List Json}
  {payload : Json}

/-- The items in the order of the texts have increasing indices. -/
theorem indices_of_labelled {n : ℕ}
    (h : List.Forall₂ (m.ItemOf vector) (texts.zipIdx n) labelled) :
    (∀ item ∈ labelled, itemIndex item = .ok (indexOf item) ∧ (n : ℤ) ≤ indexOf item) ∧
      labelled.Pairwise fun a b => indexOf a < indexOf b := by
  induction texts generalizing n labelled with
  | nil =>
      cases h
      exact ⟨fun item h => absurd h List.not_mem_nil, List.Pairwise.nil⟩
  | cons text texts ih =>
      rw [List.zipIdx_cons] at h
      cases h with
      | @cons _ item _ rest hitem hrest =>
          obtain ⟨hmem, hsorted⟩ := ih hrest
          have hindex : indexOf item = n := indexOf_eq hitem.1
          constructor
          · intro other hother
            rcases List.mem_cons.mp hother with rfl | hother
            · rw [hindex]
              exact ⟨hitem.1, le_rfl⟩
            · obtain ⟨hok, hle⟩ := hmem other hother
              exact ⟨hok, by push_cast at hle; omega⟩
          · refine List.pairwise_cons.mpr ⟨?_, hsorted⟩
            intro other hother
            have hle := (hmem other hother).2
            push_cast at hle
            omega

/-- Their vectors are those of the texts. -/
theorem vectors_of_labelled {n : ℕ}
    (h : List.Forall₂ (m.ItemOf vector) (texts.zipIdx n) labelled) :
    labelled.mapM m.itemVector = .ok (texts.map vector) ∧
      ∀ v ∈ texts.map vector, v.length = m.dimensions := by
  induction texts generalizing n labelled with
  | nil =>
      cases h
      exact ⟨rfl, fun v h => absurd h List.not_mem_nil⟩
  | cons text texts ih =>
      rw [List.zipIdx_cons] at h
      cases h with
      | @cons _ item _ rest hitem hrest =>
          obtain ⟨hrun, hwidth⟩ := ih hrest
          constructor
          · rw [List.mapM_cons, hitem.2.1, hrun]
            rfl
          · intro v hv
            rcases List.mem_cons.mp hv with rfl | hv
            · exact hitem.2.2
            · exact hwidth v hv

/-- Sorting the items by their indices puts them in the order of the texts. -/
theorem ordered_of_perm (hperm : items.Perm labelled)
    (hsorted : labelled.Pairwise fun a b => indexOf a < indexOf b) :
    (((items.map indexOf).zip items).mergeSort fun a b => a.1 ≤ b.1).map Prod.snd = labelled := by
  have hzip : (items.map indexOf).zip items = items.map fun item => (indexOf item, item) :=
    List.map_prod_right_eq_zip.symm
  have hpairs : (items.map fun item => (indexOf item, item)).mergeSort
      (fun a b => decide (a.1 ≤ b.1)) = labelled.map fun item => (indexOf item, item) :=
    mergeSort_eq_of_perm (hperm.map _) (List.pairwise_map.mpr hsorted)
  rw [hzip, hpairs, List.map_map]
  exact List.map_id labelled

/-- **A labelled response is read in the order of the texts.** -/
theorem parseEmbeddings_of_labels (h : m.Labels vector texts payload) :
    m.parseEmbeddings payload texts.length = .ok (texts.map vector) := by
  obtain ⟨items, labelled, hdata, hperm, hlabelled⟩ := h
  obtain ⟨hmem, hsorted⟩ := indices_of_labelled hlabelled
  obtain ⟨hrun, hwidth⟩ := vectors_of_labelled hlabelled
  have hkeys : items.mapM itemIndex = .ok (items.map indexOf) :=
    mapM_eq_ok fun item hitem => (hmem item (hperm.mem_iff.mp hitem)).1
  have hsubscript : payload.subscript dataKey = .ok (.list items) := by
    cases payload with
    | dict entries =>
        rw [Json.subscript]
        rw [Json.get?] at hdata
        rw [hdata]
        rfl
    | _ => cases hdata
  have hvectors : m.itemVectors payload = .ok (texts.map vector) := by
    refine bind_eq_ok.mpr ⟨_, hsubscript, bind_eq_ok.mpr ⟨items, rfl, bind_eq_ok.mpr
      ⟨_, hkeys, ?_⟩⟩⟩
    rw [ordered_of_perm hperm hsorted]
    exact hrun
  have hfind : (texts.map vector).find? (·.length ≠ m.dimensions) = none := by
    rw [List.find?_eq_none]
    intro v hv
    simpa using hwidth v hv
  refine bind_eq_ok.mpr ⟨texts.map vector, by rw [hvectors]; rfl, ?_⟩
  rw [if_neg (by simp), hfind]
  rfl

/-- A batch that the provider accepts and labels comes back in order. -/
theorem embedWith_of_labels {posted : Except Exc Json} (hposted : posted = .ok payload)
    (hmax : texts.length ≤ m.maxBatchSize) (h : m.Labels vector texts payload) :
    m.embedWith texts posted = .ok (texts.map vector) := by
  unfold embedWith
  by_cases hempty : texts = []
  · rw [if_pos hempty, hempty]
    rfl
  · rw [if_neg hempty, if_neg (by omega), hposted]
    exact parseEmbeddings_of_labels h

end MistralEmbeddingModel

end Providers
end EvidenceLab
