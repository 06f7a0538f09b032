/-
# Encoding UTF-8, and what is left of it between damaged bytes

A code point that is no surrogate is encoded in one to four bytes, and read back from them
(`decodeUtf8_encodeUtf8`).  The first byte of an encoded character continues nothing, so it ends
whatever was pending, and the decoder starts afresh.  Damage therefore stays where it is: text
around any bytes at all is read as it was written (`decodeUtf8_around`).
-/

import EvidenceLab.Text.Utf8

namespace EvidenceLab
namespace Text

/-! ### Encoding -/

/-- A code point that UTF-8 encodes: no surrogate. -/
def IsScalar (c : CodePoint) : Prop := ¬ (0xD800 ≤ c.val ∧ c.val ≤ 0xDFFF)

instance (c : CodePoint) : Decidable (IsScalar c) := inferInstanceAs (Decidable (¬ _))

/-- A byte inside a sequence, with six bits of the character. -/
def continuation (n : ℕ) : UInt8 := UInt8.ofNat (0x80 + n % 64)

/-- The bytes of a character. -/
def encodeChar (c : CodePoint) : List UInt8 :=
  if c.val < 0x80 then [UInt8.ofNat c.val]
  else if c.val < 0x800 then [UInt8.ofNat (0xC0 + c.val / 64), continuation c.val]
  else if c.val < 0x10000 then
    [UInt8.ofNat (0xE0 + c.val / 4096), continuation (c.val / 64), continuation c.val]
  else
    [UInt8.ofNat (0xF0 + c.val / 262144), continuation (c.val / 4096), continuation (c.val / 64),
      continuation c.val]

/-- `text.encode("utf-8")`, of a text without surrogates. -/
def encodeUtf8 (text : Str) : List UInt8 := text.flatMap encodeChar

theorem encodeUtf8_cons (c : CodePoint) (s : Str) :
    encodeUtf8 (c :: s) = encodeChar c ++ encodeUtf8 s := List.flatMap_cons

theorem encodeUtf8_append (s t : Str) : encodeUtf8 (s ++ t) = encodeUtf8 s ++ encodeUtf8 t :=
  List.flatMap_append

theorem toNat_ofNat_lt {n : ℕ} (h : n < 256) : (UInt8.ofNat n).toNat = n := by
  rw [UInt8.toNat_ofNat']
  exact Nat.mod_eq_of_lt h

theorem toNat_continuation (n : ℕ) : (continuation n).toNat = 0x80 + n % 64 :=
  toNat_ofNat_lt (by omega)

/-! ### Reading a sequence -/

variable {p : Pending} {b : UInt8} {bs : List UInt8}

/-- A byte that starts a sequence. -/
theorem decodeFrom_start (h : firstByte b.toNat = .inl p) :
    decodeFrom none (b :: bs) = decodeFrom (some p) bs := by
  rw [decodeFrom, h]

/-- A byte inside a sequence that owes more than it. -/
theorem decodeFrom_next (h : p.lo ≤ b.toNat ∧ b.toNat ≤ p.hi) (howed : 1 < p.owed) :
    decodeFrom (some p) (b :: bs) =
      decodeFrom (some ⟨p.owed - 1, 0x80, 0xBF, p.bits * 64 + (b.toNat - 0x80)⟩) bs := by
  rw [decodeFrom, if_pos h]
  exact if_neg (by omega)

/-- The last byte of a sequence. -/
theorem decodeFrom_last (h : p.lo ≤ b.toNat ∧ b.toNat ≤ p.hi) (howed : p.owed = 1)
    {c : CodePoint} (hc : p.bits * 64 + (b.toNat - 0x80) = c.val) :
    decodeFrom (some p) (b :: bs) = c :: decodeFrom none bs := by
  rw [decodeFrom, if_pos h]
  dsimp only
  rw [if_pos howed.le, hc]
  exact congrArg (· :: decodeFrom none bs) (Fin.ext (Nat.mod_eq_of_lt c.isLt))

/-- A byte that does not continue a sequence is read again. -/
theorem decodeFrom_break (h : ¬ (p.lo ≤ b.toNat ∧ b.toNat ≤ p.hi)) :
    decodeFrom (some p) (b :: bs) = replacementChar :: decodeFrom none (b :: bs) := by
  have hstep : decodeStep (some p) b =
      (replacementChar :: (decodeStep none b).1, (decodeStep none b).2) := if_neg h
  rw [decodeFrom_cons, hstep, decodeFrom_cons]
  rfl

/-- What the first byte of three says. -/
theorem firstByte_three {n : ℕ} (hn : 0x800 ≤ n) (hlt : n < 0x10000)
    (hscalar : ¬ (0xD800 ≤ n ∧ n ≤ 0xDFFF)) : ∃ lo hi,
    firstByte (0xE0 + n / 4096) = .inl ⟨2, lo, hi, n / 4096⟩ ∧
      lo ≤ 0x80 + n / 64 % 64 ∧ 0x80 + n / 64 % 64 ≤ hi := by
  rw [firstByte, if_neg (by omega), if_neg (by omega)]
  by_cases h₀ : n / 4096 = 0
  · rw [if_pos (by omega), h₀]
    exact ⟨_, _, rfl, by omega, by omega⟩
  · rw [if_neg (by omega)]
    by_cases h₁ : n / 4096 = 0xD
    · rw [if_pos (by omega), h₁]
      exact ⟨_, _, rfl, by omega, by omega⟩
    · rw [if_neg (by omega), if_pos (by omega), Nat.add_sub_cancel_left]
      exact ⟨_, _, rfl, by omega, by omega⟩

/-- What the first byte of four says. -/
theorem firstByte_four {n : ℕ} (hn : 0x10000 ≤ n) (hlt : n < 0x110000) : ∃ lo hi,
    firstByte (0xF0 + n / 262144) = .inl ⟨3, lo, hi, n / 262144⟩ ∧
      lo ≤ 0x80 + n / 4096 % 64 ∧ 0x80 + n / 4096 % 64 ≤ hi := by
  rw [firstByte, if_neg (by omega), if_neg (by omega), if_neg (by omega), if_neg (by omega),
    if_neg (by omega)]
  by_cases h₀ : n / 262144 = 0
  · rw [if_pos (by omega), h₀]
    exact ⟨_, _, rfl, by omega, by omega⟩
  · rw [if_neg (by omega)]
    by_cases h₁ : n / 262144 = 4
    · rw [if_neg (by omega), if_pos (by omega), h₁]
      exact ⟨_, _, rfl, by omega, by omega⟩
    · rw [if_pos (by omega), Nat.add_sub_cancel_left]
      exact ⟨_, _, rfl, by omega, by omega⟩

/-- **A character is read from its bytes.** -/
theorem decodeFrom_encodeChar {c : CodePoint} (hc : IsScalar c) :
    decodeFrom none (encodeChar c ++ bs) = c :: decodeFrom none bs := by
  have hmax := c.isLt
  have htail := toNat_continuation c.val
  have hmid := toNat_continuation (c.val / 64)
  have hhigh := toNat_continuation (c.val / 4096)
  rw [encodeChar]
  split_ifs with h₁ h₂ h₃
  · have hbyte := toNat_ofNat_lt (show c.val < 256 by omega)
    rw [List.singleton_append, decodeFrom, hbyte, firstByte, if_pos h₁]
    exact congrArg (· :: decodeFrom none bs) (Fin.ext (Nat.mod_eq_of_lt hmax))
  · have hbyte := toNat_ofNat_lt (show 0xC0 + c.val / 64 < 256 by omega)
    have hfirst : firstByte (UInt8.ofNat (0xC0 + c.val / 64)).toNat =
        .inl ⟨1, 0x80, 0xBF, c.val / 64⟩ := by
      rw [hbyte, firstByte, if_neg (by omega), if_pos (by omega), Nat.add_sub_cancel_left]
    rw [List.cons_append, decodeFrom_start hfirst, List.singleton_append]
    exact decodeFrom_last ⟨by dsimp only; omega, by dsimp only; omega⟩ rfl (by dsimp only; omega)
  · have hbyte := toNat_ofNat_lt (show 0xE0 + c.val / 4096 < 256 by omega)
    obtain ⟨lo, hi, hfirst, hlo, hhi⟩ := firstByte_three (by omega) h₃ hc
    rw [← hbyte] at hfirst
    rw [List.cons_append, decodeFrom_start hfirst, List.cons_append,
      decodeFrom_next ⟨by dsimp only; omega, by dsimp only; omega⟩ (by dsimp only; omega),
      List.singleton_append]
    exact decodeFrom_last ⟨by dsimp only; omega, by dsimp only; omega⟩ rfl (by dsimp only; omega)
  · have hbyte := toNat_ofNat_lt (show 0xF0 + c.val / 262144 < 256 by omega)
    obtain ⟨lo, hi, hfirst, hlo, hhi⟩ := firstByte_four (by omega) hmax
    rw [← hbyte] at hfirst
    rw [List.cons_append, decodeFrom_start hfirst, List.cons_append,
      decodeFrom_next ⟨by dsimp only; omega, by dsimp only; omega⟩ (by dsimp only; omega),
      List.cons_append,
      decodeFrom_next ⟨by dsimp only; omega, by dsimp only; omega⟩ (by dsimp only; omega),
      List.singleton_append]
    exact decodeFrom_last ⟨by dsimp only; omega, by dsimp only; omega⟩ rfl (by dsimp only; omega)

/-- Encoded text is read, and then what follows it. -/
theorem decodeFrom_encodeUtf8 {text : Str} (h : ∀ c ∈ text, IsScalar c) (bs : List UInt8) :
    decodeFrom none (encodeUtf8 text ++ bs) = text ++ decodeFrom none bs := by
  induction text with
  | nil => rfl
  | cons c text ih =>
      rw [encodeUtf8_cons, List.append_assoc, decodeFrom_encodeChar (h c (List.mem_cons_self ..)),
        ih fun d hd => h d (List.mem_cons_of_mem _ hd)]
      rfl

/-- **The round trip.** -/
theorem decodeUtf8_encodeUtf8 {text : Str} (h : ∀ c ∈ text, IsScalar c) :
    decodeUtf8 (encodeUtf8 text) = text := by
  have hread := decodeFrom_encodeUtf8 h []
  rw [List.append_nil] at hread
  exact hread.trans (List.append_nil text)

/-! ### Damage -/

/-- The next byte of a sequence is one that starts none. -/
def Pending.Inner (p : Pending) : Prop := 0x80 ≤ p.lo ∧ p.hi ≤ 0xBF

theorem inner_firstByte {n : ℕ} (h : firstByte n = .inl p) : p.Inner := by
  rw [firstByte] at h
  split_ifs at h <;> cases h <;> exact ⟨by dsimp only; omega, by dsimp only; omega⟩

theorem inner_decodeStep {p : Option Pending} :
    ∀ q ∈ (decodeStep p b).2, q.Inner := by
  have hfirst : ∀ q ∈ ((firstByte b.toNat).elim (fun p => ([], some p)) fun c => ([c], none) :
      Str × Option Pending).2, q.Inner := by
    cases hbyte : firstByte b.toNat with
    | inl p =>
        rintro q ⟨⟩
        exact inner_firstByte hbyte
    | inr c => exact fun q hq => absurd hq (Option.not_mem_none q)
  cases p with
  | none => exact hfirst
  | some p =>
      simp only [decodeStep, Option.elim_some]
      split_ifs
      · exact fun q hq => absurd hq (Option.not_mem_none q)
      · rintro q ⟨⟩
        exact ⟨le_rfl, le_rfl⟩
      · exact hfirst

/-- The first byte of an encoded character continues nothing. -/
theorem exists_encodeChar (c : CodePoint) : ∃ b bs, encodeChar c = b :: bs ∧
    (b.toNat < 0x80 ∨ 0xC0 ≤ b.toNat) := by
  have hmax := c.isLt
  rw [encodeChar]
  split_ifs with h₁ h₂ h₃
  · exact ⟨_, _, rfl, Or.inl (by rw [toNat_ofNat_lt (by omega)]; exact h₁)⟩
  · exact ⟨_, _, rfl, Or.inr (by rw [toNat_ofNat_lt (by omega)]; omega)⟩
  · exact ⟨_, _, rfl, Or.inr (by rw [toNat_ofNat_lt (by omega)]; omega)⟩
  · exact ⟨_, _, rfl, Or.inr (by rw [toNat_ofNat_lt (by omega)]; omega)⟩

/-- **Encoded text is read behind anything.**  By induction on the bytes before it: what is
pending at their end is what the first byte of the text breaks off. -/
theorem decodeFrom_append_encodeUtf8 {text : Str} (h : ∀ c ∈ text, IsScalar c)
    (data : List UInt8) {p : Option Pending} (hp : ∀ q ∈ p, q.Inner) :
    decodeFrom p (data ++ encodeUtf8 text) = decodeFrom p data ++ text := by
  induction data generalizing p with
  | nil =>
      rw [List.nil_append]
      cases p with
      | none => exact decodeUtf8_encodeUtf8 h
      | some p =>
          cases text with
          | nil => rfl
          | cons c text =>
              obtain ⟨b, bs, hchar, hfirst⟩ := exists_encodeChar c
              obtain ⟨hlo, hhi⟩ := hp p rfl
              have hread := decodeUtf8_encodeUtf8 h
              rw [decodeUtf8, encodeUtf8_cons, hchar, List.cons_append] at hread
              rw [encodeUtf8_cons, hchar, List.cons_append, decodeFrom_break (by omega), hread]
              rfl
  | cons b data ih =>
      rw [List.cons_append, decodeFrom_cons, decodeFrom_cons, ih inner_decodeStep,
        List.append_assoc]

/-- **Damage stays where it is**: the text before and behind any bytes is read as it was
written. -/
theorem decodeUtf8_around {before behind : Str} (hbefore : ∀ c ∈ before, IsScalar c)
    (hbehind : ∀ c ∈ behind, IsScalar c) (data : List UInt8) :
    decodeUtf8 (encodeUtf8 before ++ data ++ encodeUtf8 behind) =
      before ++ decodeUtf8 data ++ behind := by
  rw [decodeUtf8, List.append_assoc, decodeFrom_encodeUtf8 hbefore,
    decodeFrom_append_encodeUtf8 hbehind data (by simp), List.append_assoc]
  rfl

end Text
end EvidenceLab
