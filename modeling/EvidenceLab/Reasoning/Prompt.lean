/-
# Which passages a prompt shows

`build_user_prompt` writes every passage after a header, a line break and its number in
brackets, and cuts it at `MAX_PASSAGE_CHARS`.  A passage may hold anything, the header of the
next passage among it, so one prompt can come from different lists of passages: one passage
that holds the header of the second, or two that are cut there.

A prompt is read back by choosing where the headers of the passages stand.  It shows one list
of passages only, iff its last two passages do not fit into one and nowhere else stands a
header from which the text can be read on (`Unambiguous`, `distinguished_iff`).  Of passages
that do not hold the header of their successor no two lists have one prompt
(`buildUserPrompt_injective`).
-/

import EvidenceLab.Reasoning.Citations

namespace EvidenceLab
namespace Reasoning

open Text Data EvidenceLab.Core

/-! ### The layout of a prompt -/

/-- What stands before a passage: a line break and its number. -/
def header (index : ℕ) : Str := lf :: (lit ['['] ++ Json.decimal index ++ lit [']', ' '])

/-- Passages with their headers, numbered from `index` on. -/
def numbered (index : ℕ) : List Str → Str
  | [] => []
  | text :: rest => header index ++ text ++ numbered (index + 1) rest

/-- The text of a passage as it is shown. -/
def shown (chunk : RetrievedChunk) : Str := chunk.text.take maxPassageChars

/-- The prompt up to its passages. -/
def promptStart (query : Str) : Str :=
  lit ['Q', 'u', 'e', 's', 't', 'i', 'o', 'n', ':', ' '] ++ query ++
    [lf, lf] ++ lit ['P', 'a', 's', 's', 'a', 'g', 'e', 's', ':']

/-- What stands in the place of the passages where there are none. -/
def noPassages : Str := lf :: lit ['(', 'n', 'o', 'n', 'e', ')']

/-- **A prompt is its query and the numbered passages.** -/
theorem buildUserPrompt_eq (query : Str) (evidence : List RetrievedChunk) :
    buildUserPrompt query evidence = promptStart query ++
      if evidence = [] then noPassages else numbered 0 (evidence.map shown) := by
  have hlines : ∀ (evidence : List RetrievedChunk) (index : ℕ) (front : Str),
      [lf].intercalate (front :: (evidence.zipIdx index).map fun entry =>
        passageLine entry.2 entry.1) = front ++ numbered index (evidence.map shown) := by
    intro evidence
    induction evidence with
    | nil => 
        intro index front
        simp [numbered]
    | cons chunk rest ih =>
        intro index front
        rw [List.zipIdx_cons, List.map_cons, List.intercalate_cons_cons, ih]
        simp [numbered, header, passageLine, shown]
  rw [buildUserPrompt, promptStart]
  split_ifs with hempty
  · subst hempty
    simp [noPassages]
  · have hrest := hlines evidence 0 (lit ['P', 'a', 's', 's', 'a', 'g', 'e', 's', ':'])
    rw [List.append_nil, List.cons_append, List.cons_append, List.cons_append, List.nil_append,
      List.intercalate_cons_cons, List.intercalate_cons_cons, hrest]
    simp

theorem numbered_append (index : ℕ) (texts texts' : List Str) :
    numbered index (texts ++ texts') =
      numbered index texts ++ numbered (index + texts.length) texts' := by
  induction texts generalizing index with
  | nil => rfl
  | cons text rest ih =>
      rw [List.cons_append, numbered, ih, numbered, List.length_cons]
      simp only [List.append_assoc, Nat.add_assoc, Nat.add_comm 1]

theorem numbered_ne_nil {index : ℕ} {texts : List Str} (h : texts ≠ []) :
    numbered index texts ≠ [] := by
  cases texts with
  | nil => exact absurd rfl h
  | cons text rest => exact List.cons_ne_nil _ _

/-- Numbered passages start with a number. -/
theorem numbered_ne_noPassages (texts : List Str) : numbered 0 texts ≠ noPassages := by
  cases texts with
  | nil => exact fun h => by cases h
  | cons text rest =>
      intro h
      have hsecond := congrArg (fun s : Str => s[1]?) h
      simp only [numbered, header, noPassages, lit] at hsecond
      exact absurd hsecond (by simp; decide)

theorem length_shown_le (chunk : RetrievedChunk) : (shown chunk).length ≤ maxPassageChars :=
  List.length_take_le _ _

/-! ### Reading a prompt back -/

/-- The text can be read as the rest of passage `index` and the passages after it. -/
inductive ReadsOn : ℕ → Str → Prop
  | last {index : ℕ} {text : Str} : text.length ≤ maxPassageChars → ReadsOn index text
  | next {index : ℕ} {text rest : Str} : text.length ≤ maxPassageChars →
      ReadsOn (index + 1) rest → ReadsOn index (text ++ header (index + 1) ++ rest)

/-- Passages that are shown can be read on from any of them. -/
theorem readsOn_numbered {index : ℕ} {text : Str} {rest : List Str}
    (h : ∀ t ∈ text :: rest, t.length ≤ maxPassageChars) :
    ReadsOn index (text ++ numbered (index + 1) rest) := by
  induction rest generalizing index text with
  | nil =>
      rw [numbered, List.append_nil]
      exact ReadsOn.last (h text List.mem_cons_self)
  | cons text' rest ih =>
      rw [numbered, List.append_assoc, ← List.append_assoc]
      exact ReadsOn.next (h text List.mem_cons_self)
        (ih fun t ht => h t (List.mem_cons_of_mem _ ht))

/-- What can be read on is passages that could have been shown. -/
theorem exists_numbered {index : ℕ} {s : Str} (h : ReadsOn index s) :
    ∃ text rest, (∀ t ∈ text :: rest, t.length ≤ maxPassageChars) ∧
      s = text ++ numbered (index + 1) rest := by
  induction h with
  | @last index text hlength =>
      refine ⟨text, [], ?_, by rw [numbered, List.append_nil]⟩
      rintro t ht
      obtain rfl := List.mem_singleton.mp ht
      exact hlength
  | @next index text s hlength _ ih =>
      obtain ⟨text', rest, hall, rfl⟩ := ih
      refine ⟨text, text' :: rest, ?_, ?_⟩
      · rintro t ht
        rcases List.mem_cons.mp ht with rfl | ht
        · exact hlength
        · exact hall t ht
      · simp only [numbered, List.append_assoc]

/-- The passages can be read back in one way: the last two do not fit into one, and no header
of a successor stands anywhere else from which the text can be read on. -/
structure Unambiguous (texts : List Str) : Prop where
  apart : ∀ front text text', texts = front ++ [text, text'] →
    maxPassageChars < (text ++ header (front.length + 1) ++ text').length
  settled : ∀ front text rest, texts = front ++ text :: rest → ∀ cut s,
    text ++ numbered (front.length + 1) rest = cut ++ header (front.length + 1) ++ s →
    cut.length ≤ maxPassageChars → cut ≠ text → ¬ ReadsOn (front.length + 1) s

/-- The last two of several passages are the end of their text. -/
theorem exists_last_two (index : ℕ) (text : Str) {rest : List Str} (h : rest ≠ []) :
    ∃ front x y, text :: rest = front ++ [x, y] ∧
      (x ++ header (index + front.length + 1) ++ y).length ≤
        (text ++ numbered (index + 1) rest).length := by
  induction rest generalizing index text with
  | nil => exact absurd rfl h
  | cons text' rest ih =>
      rcases eq_or_ne rest [] with rfl | hrest
      · refine ⟨[], text, text', rfl, ?_⟩
        simp only [numbered, List.length_nil, List.append_nil, List.append_assoc, Nat.add_zero,
          le_refl]
      · obtain ⟨front, x, y, heq, hle⟩ := ih (index + 1) text' hrest
        refine ⟨text :: front, x, y, by rw [heq, List.cons_append], ?_⟩
        rw [List.length_cons, ← Nat.add_assoc, Nat.add_right_comm index]
        refine hle.trans ?_
        simp only [numbered, List.length_append]
        omega

/-- **Unambiguous passages are read back from their text.** -/
theorem Unambiguous.eq_of_numbered {texts rest rest' : List Str} (h : Unambiguous texts)
    (front : List Str) (htexts : texts = front ++ rest)
    (hrest' : ∀ t ∈ rest', t.length ≤ maxPassageChars)
    (heq : numbered front.length rest = numbered front.length rest') : rest = rest' := by
  induction rest generalizing front rest' with
  | nil =>
      cases rest' with
      | nil => rfl
      | cons cut rest' => cases heq
  | cons text rest ih =>
      cases rest' with
      | nil => cases heq
      | cons cut rest' =>
          rw [numbered, numbered, List.append_assoc, List.append_assoc,
            List.append_cancel_left_eq] at heq
          have hcut := hrest' cut List.mem_cons_self
          by_cases hsame : cut = text
          · subst hsame
            have hnumbered := List.append_cancel_left heq
            have htail := ih (front ++ [cut]) (by rw [htexts, List.append_assoc]; rfl)
              (fun t ht => hrest' t (List.mem_cons_of_mem _ ht))
              (by simpa only [List.length_append, List.length_singleton] using hnumbered)
            rw [htail]
          · cases rest' with
            | nil =>
                -- All that is left of the text would be one passage.
                rw [numbered, List.append_nil] at heq
                have hrest : rest ≠ [] := by
                  rintro rfl
                  rw [numbered, List.append_nil] at heq
                  exact hsame heq.symm
                obtain ⟨pre, x, y, hlast, hle⟩ := exists_last_two front.length text hrest
                have hapart := h.apart (front ++ pre) x y (by
                  rw [htexts, hlast, List.append_assoc])
                rw [heq] at hle
                simp only [List.length_append] at hapart hle
                omega
            | cons text' rest' =>
                have hreads : ReadsOn (front.length + 1) (text' ++ _) :=
                  readsOn_numbered fun t ht => hrest' t (List.mem_cons_of_mem _ ht)
                rw [numbered, List.append_assoc (header _), ← List.append_assoc cut] at heq
                exact absurd hreads (h.settled front text rest htexts cut _ heq hcut hsame)

/-- Passages that are not unambiguous have the text of others. -/
theorem exists_numbered_ne {texts : List Str} (hall : ∀ t ∈ texts, t.length ≤ maxPassageChars)
    (h : ¬ Unambiguous texts) : ∃ texts', (∀ t ∈ texts', t.length ≤ maxPassageChars) ∧
      numbered 0 texts' = numbered 0 texts ∧ texts' ≠ texts := by
  by_contra hno
  refine h ⟨?_, ?_⟩
  · intro front text text' htexts
    by_contra hfits
    refine hno ⟨front ++ [text ++ header (front.length + 1) ++ text'], ?_, ?_, ?_⟩
    · intro t ht
      rcases List.mem_append.mp ht with ht | ht
      · exact hall t (htexts ▸ List.mem_append_left _ ht)
      · rw [List.mem_singleton.mp ht]
        exact Nat.le_of_not_lt hfits
    · rw [htexts, numbered_append, numbered_append]
      simp only [numbered, Nat.zero_add, List.append_nil, List.append_assoc]
    · intro hsame
      have hlength := congrArg List.length (hsame.trans htexts)
      rw [List.length_append, List.length_append, List.length_singleton] at hlength
      simp at hlength
  · intro front text rest htexts cut s heq hcut hne hreads
    obtain ⟨text', rest', hall', rfl⟩ := exists_numbered hreads
    refine hno ⟨front ++ cut :: text' :: rest', ?_, ?_, ?_⟩
    · intro t ht
      rcases List.mem_append.mp ht with ht | ht
      · exact hall t (htexts ▸ List.mem_append_left _ ht)
      · rcases List.mem_cons.mp ht with rfl | ht
        · exact hcut
        · exact hall' t ht
    · rw [htexts, numbered_append, numbered_append]
      simp only [numbered, Nat.zero_add, List.append_assoc] at heq ⊢
      rw [heq]
    · intro hsame
      have htail := List.append_cancel_left (hsame.trans htexts)
      exact hne (List.cons.inj htail).1

/-! ### What a prompt determines -/

/-- The prompt determines the passages it shows: no other evidence has it. -/
def Distinguished (evidence : List RetrievedChunk) : Prop :=
  ∀ query evidence', buildUserPrompt query evidence' = buildUserPrompt query evidence →
    evidence'.map shown = evidence.map shown

/-- A passage with the text `text`. -/
def passageOf (text : Str) : RetrievedChunk := { samplePassage 0 with text }

theorem map_shown_passageOf {texts : List Str} (h : ∀ t ∈ texts, t.length ≤ maxPassageChars) :
    (texts.map passageOf).map shown = texts := by
  rw [List.map_map]
  refine (List.map_congr_left ?_).trans (List.map_id texts)
  intro t ht
  exact List.take_of_length_le (h t ht)

/-- Prompts are the same iff their numbered passages are. -/
theorem buildUserPrompt_inj {query : Str} {evidence evidence' : List RetrievedChunk} :
    buildUserPrompt query evidence' = buildUserPrompt query evidence ↔
      numbered 0 (evidence'.map shown) = numbered 0 (evidence.map shown) := by
  rw [buildUserPrompt_eq, buildUserPrompt_eq, List.append_cancel_left_eq]
  split_ifs with h' h h
  · rw [h', h]
    exact iff_of_true rfl rfl
  · rw [h']
    refine iff_of_false (numbered_ne_noPassages _).symm ?_
    exact (numbered_ne_nil (by simpa using h)).symm
  · rw [h]
    refine iff_of_false (numbered_ne_noPassages _) ?_
    exact numbered_ne_nil (by simpa using h')
  · exact Iff.rfl

/-! ### Passages without headers -/

/-- No passage holds the header of its successor. -/
def Headerless : ℕ → List Str → Prop
  | _, [] => True
  | index, text :: rest => ¬ header (index + 1) <:+: text ∧ Headerless (index + 1) rest

/-- A header has one line break. -/
theorem lf_not_mem_number (index : ℕ) : lf ∉ lit ['['] ++ Json.decimal index ++ lit [']', ' '] := by
  intro h
  rcases List.mem_append.mp h with h | h
  · rcases List.mem_append.mp h with h | h
    · exact absurd h (by decide)
    · exact absurd (Json.not_isIntSpace_decimal _ h) (by decide)
  · exact absurd h (by decide)

/-- Headers do not overlap: the earlier of two that stand at different places stands within
what is before the later one. -/
theorem header_infix {index : ℕ} {text cut rest rest' : Str}
    (h : text ++ (header index ++ rest) = cut ++ (header index ++ rest'))
    (hlt : cut.length < text.length) : header index <:+: text := by
  rcases List.append_eq_append_iff.mp h with ⟨v, rfl, -⟩ | ⟨v, rfl, hv⟩
  · rw [List.length_append] at hlt
    omega
  · have hne : v ≠ [] := by
      rintro rfl
      simp at hlt
    rcases List.append_eq_append_iff.mp hv with ⟨w, rfl, -⟩ | ⟨w, hw, hrest⟩
    · exact ⟨cut, w, by simp⟩
    · rcases eq_or_ne w [] with rfl | hwne
      · rw [List.append_nil] at hw
        exact ⟨cut, [], by rw [hw, List.append_nil]⟩
      · obtain ⟨c, w, rfl⟩ := List.exists_cons_of_ne_nil hwne
        obtain ⟨d, v, rfl⟩ := List.exists_cons_of_ne_nil hne
        rw [header, List.cons_append] at hw hrest
        obtain ⟨rfl, -⟩ := List.cons.inj hrest
        have hmem : lf ∈ v ++ lf :: w := List.mem_append_right _ List.mem_cons_self
        rw [← (List.cons.inj hw).2] at hmem
        exact absurd hmem (lf_not_mem_number index)

/-- A passage that is cut shorter in another reading holds the header of its successor. -/
theorem header_infix_of_lt {index : ℕ} {text cut : Str} {rest rest' : List Str}
    (h : text ++ numbered (index + 1) rest = cut ++ numbered (index + 1) rest')
    (hlt : cut.length < text.length) : header (index + 1) <:+: text := by
  cases rest' with
  | nil =>
      have hlength := congrArg List.length h
      rw [numbered, List.append_nil, List.length_append] at hlength
      omega
  | cons text' rest' =>
      cases rest with
      | nil =>
          rw [numbered, List.append_nil, numbered] at h
          exact ⟨cut, text' ++ numbered (index + 1 + 1) rest', by simp [h]⟩
      | cons text'' rest =>
          rw [numbered, numbered, List.append_assoc (header _), List.append_assoc (header _)] at h
          exact header_infix h hlt

/-- **Passages that hold no header of a successor are told apart.** -/
theorem numbered_injective {index : ℕ} {texts texts' : List Str} (h : Headerless index texts)
    (h' : Headerless index texts') (heq : numbered index texts = numbered index texts') :
    texts = texts' := by
  induction texts generalizing index texts' with
  | nil =>
      cases texts' with
      | nil => rfl
      | cons text' rest' => cases heq
  | cons text rest ih =>
      cases texts' with
      | nil => cases heq
      | cons text' rest' =>
          rw [numbered, numbered, List.append_assoc, List.append_assoc,
            List.append_cancel_left_eq] at heq
          have hsame : text = text' := by
            rcases lt_trichotomy text.length text'.length with hlt | hlength | hlt
            · exact absurd (header_infix_of_lt heq.symm hlt) h'.1
            · exact List.append_inj_left heq hlength
            · exact absurd (header_infix_of_lt heq hlt) h.1
          subst hsame
          rw [ih h.2 h'.2 (List.append_cancel_left heq)]

/-- Evidence without headers in it is determined by its prompt. -/
theorem buildUserPrompt_injective {query : Str} {evidence evidence' : List RetrievedChunk}
    (h : Headerless 0 (evidence.map shown)) (h' : Headerless 0 (evidence'.map shown))
    (heq : buildUserPrompt query evidence' = buildUserPrompt query evidence) :
    evidence'.map shown = evidence.map shown :=
  numbered_injective h' h (buildUserPrompt_inj.mp heq)

/-! ### What a prompt determines, exactly -/

/-- **A prompt determines its passages exactly where they are unambiguous.** -/
theorem distinguished_iff (evidence : List RetrievedChunk) :
    Distinguished evidence ↔ Unambiguous (evidence.map shown) := by
  constructor
  · intro h
    by_contra hno
    obtain ⟨texts, hall, heq, hne⟩ := exists_numbered_ne (fun t ht => by
      obtain ⟨chunk, -, rfl⟩ := List.mem_map.mp ht
      exact length_shown_le chunk) hno
    have hshown := map_shown_passageOf hall
    refine hne (hshown.symm.trans (h [] (texts.map passageOf) ?_))
    rw [buildUserPrompt_inj, hshown, heq]
  · intro h query evidence' heq
    refine (h.eq_of_numbered [] rfl ?_ (buildUserPrompt_inj.mp heq).symm).symm
    intro t ht
    obtain ⟨chunk, -, rfl⟩ := List.mem_map.mp ht
    exact length_shown_le chunk

/-- One passage that holds the header of a second has the prompt of the two. -/
theorem distinguished_fails :
    ¬ ∀ query evidence evidence',
      buildUserPrompt query evidence' = buildUserPrompt query evidence →
      evidence'.map shown = evidence.map shown := by
  intro h
  have hshown := h [] [samplePassage 4, samplePassage 5]
    [{ samplePassage 4 with text := lit ['p'] ++ header 1 ++ lit ['p'] }] (by decide)
  exact absurd hshown (by decide)

end Reasoning
end EvidenceLab
