/-
# Splitting a string at its separators

`re.split` for a pattern that never matches the empty string: the string is
read from left to right, a separator starting at the current position is
skipped whole, and every other character goes to the current piece.  The
pattern is given by `sepLen`, the length of the separator at the head of a
string (`0` when there is none).

What a split is worth to its caller is `Cut`: the string is its pieces with one
separator between each two neighbours (`cut_split`).  In particular nothing but
separators is lost, and a caller that walks the pieces knows where each stands.
-/

import EvidenceLab.Text.Str

namespace EvidenceLab
namespace Text

variable {α : Type*}

/-- The string `s` is the given pieces, in order, with one separator between
each two neighbours. -/
inductive Cut (Sep : List α → Prop) : List α → List (List α) → Prop
  | last (p : List α) : Cut Sep p [p]
  | cons (p : List α) {sep s : List α} {ps : List (List α)} :
      Sep sep → Cut Sep s ps → Cut Sep (p ++ sep ++ s) (p :: ps)

/-- One more character at the head of the first piece. -/
def addHead (c : α) : List (List α) → List (List α)
  | [] => [[c]]
  | p :: ps => (c :: p) :: ps

theorem Cut.addHead {Sep : List α → Prop} {s : List α} {ps : List (List α)} (h : Cut Sep s ps)
    (c : α) : Cut Sep (c :: s) (addHead c ps) := by
  cases h with
  | last => exact .last _
  | cons p hsep h => exact .cons (c :: p) hsep h

/-- The pieces of `s` once its first `skip` characters, the rest of a separator
already found, are passed over. -/
def splitFrom (sepLen : List α → ℕ) : ℕ → List α → List (List α)
  | _, [] => [[]]
  | skip + 1, _ :: s => splitFrom sepLen skip s
  | 0, c :: s =>
      match sepLen (c :: s) with
      | 0 => addHead c (splitFrom sepLen 0 s)
      | skip + 1 => [] :: splitFrom sepLen skip s

/-- The pieces of `s` between its separators. -/
def split (sepLen : List α → ℕ) (s : List α) : List (List α) := splitFrom sepLen 0 s

/-- The lengths `sepLen` reports are those of separators. -/
def Separates (sepLen : List α → ℕ) (Sep : List α → Prop) : Prop :=
  ∀ s, sepLen s ≤ s.length ∧ (0 < sepLen s → Sep (s.take (sepLen s)))

theorem cut_splitFrom {sepLen : List α → ℕ} {Sep : List α → Prop} (h : Separates sepLen Sep)
    (skip : ℕ) (s : List α) : Cut Sep (s.drop skip) (splitFrom sepLen skip s) := by
  induction s generalizing skip with
  | nil =>
      rw [List.drop_nil, splitFrom]
      exact .last []
  | cons c s ih =>
      cases skip with
      | succ skip => exact ih skip
      | zero =>
          rw [splitFrom, List.drop_zero]
          cases hm : sepLen (c :: s) with
          | zero => exact (ih 0).addHead c
          | succ skip =>
              have hsep := (h (c :: s)).2 (by omega)
              have hcons := Cut.cons [] hsep (ih skip)
              rwa [List.nil_append, hm, List.take_succ_cons, List.cons_append,
                List.take_append_drop] at hcons

/-- **A split loses nothing but separators.** -/
theorem cut_split {sepLen : List α → ℕ} {Sep : List α → Prop} (h : Separates sepLen Sep)
    (s : List α) : Cut Sep s (split sepLen s) :=
  cut_splitFrom h 0 s

/-- The first piece stands at the head of what is split. -/
theorem exists_splitFrom (sepLen : List α → ℕ) (skip : ℕ) (s : List α) :
    ∃ p ps v, splitFrom sepLen skip s = p :: ps ∧ s.drop skip = p ++ v := by
  induction s generalizing skip with
  | nil => exact ⟨[], [], [], rfl, List.drop_nil⟩
  | cons c s ih =>
      cases skip with
      | succ skip => exact ih skip
      | zero =>
          rw [splitFrom, List.drop_zero]
          cases sepLen (c :: s) with
          | zero =>
              obtain ⟨p, ps, v, hsplit, hdrop⟩ := ih 0
              rw [List.drop_zero] at hdrop
              exact ⟨c :: p, ps, v, congrArg (addHead c) hsplit, congrArg (c :: ·) hdrop⟩
          | succ skip => exact ⟨[], _, c :: s, rfl, rfl⟩

/-- **No separator begins inside a piece.** -/
theorem not_infix_of_mem_split {sepLen : List α → ℕ} {Sep : List α → Prop}
    (hsep : ∀ sep v, Sep sep → 0 < sepLen (sep ++ v)) (hne : ∀ sep, Sep sep → sep ≠ [])
    {s p : List α} (hp : p ∈ split sepLen s) : ∀ sep, Sep sep → ¬ sep <:+: p := by
  have hnil : ∀ u : List α, u <:+ [] → ∀ sep, Sep sep → ¬ sep <+: u := by
    intro u hu sep h hpre
    rw [List.suffix_nil.mp hu] at hpre
    exact hne sep h (List.prefix_nil.mp hpre)
  have hpieces : ∀ (s : List α) (skip : ℕ), ∀ p ∈ splitFrom sepLen skip s,
      ∀ u, u <:+ p → ∀ sep, Sep sep → ¬ sep <+: u := by
    intro s
    induction s with
    | nil =>
        intro skip p hp
        rw [splitFrom, List.mem_singleton] at hp
        exact hp ▸ hnil
    | cons c s ih =>
        intro skip p hp
        cases skip with
        | succ skip => exact ih skip p hp
        | zero =>
            rw [splitFrom] at hp
            cases hm : sepLen (c :: s) with
            | succ skip =>
                simp only [hm] at hp
                rcases List.mem_cons.mp hp with rfl | hp
                · exact hnil
                · exact ih skip p hp
            | zero =>
                simp only [hm] at hp
                obtain ⟨q, qs, v, hsplit, hdrop⟩ := exists_splitFrom sepLen 0 s
                rw [List.drop_zero] at hdrop
                rw [hsplit] at hp
                rcases List.mem_cons.mp hp with rfl | hp
                · intro u hu sep h hpre
                  rcases List.suffix_cons_iff.mp hu with rfl | hu
                  · obtain ⟨w, hw⟩ := hpre
                    have hpos := hsep sep (w ++ v) h
                    rw [← List.append_assoc, hw, List.cons_append, ← hdrop, hm] at hpos
                    exact lt_irrefl 0 hpos
                  · exact ih 0 q (hsplit ▸ List.mem_cons_self ..) u hu sep h hpre
                · exact ih 0 p (hsplit ▸ List.mem_cons_of_mem _ hp)
  intro sep h hin
  obtain ⟨u, hpre, hsuf⟩ := List.infix_iff_prefix_suffix.mp hin
  exact hpieces s 0 p hp u hsuf sep h hpre

/-- Where no separator begins, nothing is cut. -/
theorem split_eq_singleton {sepLen : List α → ℕ} {s : List α}
    (h : ∀ u, u <:+ s → sepLen u = 0) : split sepLen s = [s] := by
  induction s with
  | nil => rfl
  | cons c s ih =>
      have hrest : splitFrom sepLen 0 s = [s] :=
        ih fun u hu => h u (hu.trans (List.suffix_cons c s))
      rw [split, splitFrom, h (c :: s) List.suffix_rfl]
      exact congrArg (addHead c) hrest

end Text
end EvidenceLab
