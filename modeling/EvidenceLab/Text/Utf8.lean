/-
# Decoding UTF-8 with replacement

`data.decode("utf-8", errors="replace")`: every well-formed sequence becomes its
code point, and every maximal part of an ill-formed one that could still have
become a character is written as one U+FFFD.  The decoder reads a byte at a
time.  Between characters it looks at the first byte of a sequence; inside one
it knows the bytes still owed, the range the next one must lie in and the bits
read so far.  A byte outside that range ends the sequence with U+FFFD and is
read again as a first byte.
-/

import EvidenceLab.Text.Unicode

namespace EvidenceLab
namespace Text

/-- Where the decoder stands inside a sequence: `owed` bytes are missing, the
next one must lie in `lo..hi`, and the bits read so far make `bits`. -/
structure Pending where
  owed : ℕ
  lo : ℕ
  hi : ℕ
  bits : ℕ

/-- What a first byte starts: a sequence, or a character by itself (one byte,
or U+FFFD for a byte that starts nothing). -/
def firstByte (b : ℕ) : Pending ⊕ CodePoint :=
  if b < 0x80 then .inr (Fin.ofNat _ b)
  else if 0xC2 ≤ b ∧ b ≤ 0xDF then .inl ⟨1, 0x80, 0xBF, b - 0xC0⟩
  else if b = 0xE0 then .inl ⟨2, 0xA0, 0xBF, 0⟩
  else if b = 0xED then .inl ⟨2, 0x80, 0x9F, 0xD⟩
  else if 0xE1 ≤ b ∧ b ≤ 0xEF then .inl ⟨2, 0x80, 0xBF, b - 0xE0⟩
  else if b = 0xF0 then .inl ⟨3, 0x90, 0xBF, 0⟩
  else if 0xF1 ≤ b ∧ b ≤ 0xF3 then .inl ⟨3, 0x80, 0xBF, b - 0xF0⟩
  else if b = 0xF4 then .inl ⟨3, 0x80, 0x8F, 4⟩
  else .inr replacementChar

/-- Read the rest of the bytes, from between characters (`none`) or inside a
sequence. -/
def decodeFrom : Option Pending → List UInt8 → Str
  | none, [] => []
  | some _, [] => [replacementChar]
  | none, b :: bs =>
      match firstByte b.toNat with
      | .inl p => decodeFrom (some p) bs
      | .inr c => c :: decodeFrom none bs
  | some p, b :: bs =>
      if p.lo ≤ b.toNat ∧ b.toNat ≤ p.hi then
        let bits := p.bits * 64 + (b.toNat - 0x80)
        if p.owed ≤ 1 then Fin.ofNat _ bits :: decodeFrom none bs
        else decodeFrom (some ⟨p.owed - 1, 0x80, 0xBF, bits⟩) bs
      else
        replacementChar :: match firstByte b.toNat with
          | .inl q => decodeFrom (some q) bs
          | .inr c => c :: decodeFrom none bs

/-- `data.decode("utf-8", errors="replace")`. -/
def decodeUtf8 (data : List UInt8) : Str := decodeFrom none data

/-- Seven-bit text decodes to itself. -/
theorem decodeUtf8_ascii (data : List UInt8) (h : ∀ b ∈ data, b.toNat < 0x80) :
    decodeUtf8 data = data.map fun b => Fin.ofNat _ b.toNat := by
  unfold decodeUtf8
  induction data with
  | nil => rfl
  | cons b bs ih =>
      have hb : firstByte b.toNat = .inr (Fin.ofNat _ b.toNat) := by
        rw [firstByte, if_pos (h b (List.mem_cons_self ..))]
      rw [decodeFrom, hb, List.map_cons]
      exact congrArg _ (ih fun b' hb' => h b' (List.mem_cons_of_mem _ hb'))

/-- A truncated euro sign is one ill-formed part, an encoded surrogate is
three, and the byte that broke a sequence is read again. -/
example : decodeUtf8 [0xE2, 0x82, 0xAC, 0xE2, 0x82] = [0x20AC, 0xFFFD] ∧
    decodeUtf8 [0xED, 0xA0, 0x80] = [0xFFFD, 0xFFFD, 0xFFFD] ∧
    decodeUtf8 [0xF0, 0x9F, 0x41] = [0xFFFD, 0x41] := by decide

/-! ### A byte at a time -/

/-- What the decoder writes at a byte, and where it then stands. -/
def decodeStep (p : Option Pending) (b : UInt8) : Str × Option Pending :=
  let first : Str × Option Pending :=
    (firstByte b.toNat).elim (fun p => ([], some p)) fun c => ([c], none)
  p.elim first fun p =>
    if p.lo ≤ b.toNat ∧ b.toNat ≤ p.hi then
      if p.owed ≤ 1 then ([Fin.ofNat _ (p.bits * 64 + (b.toNat - 0x80))], none)
      else ([], some ⟨p.owed - 1, 0x80, 0xBF, p.bits * 64 + (b.toNat - 0x80)⟩)
    else (replacementChar :: first.1, first.2)

theorem decodeFrom_cons (p : Option Pending) (b : UInt8) (bs : List UInt8) :
    decodeFrom p (b :: bs) = (decodeStep p b).1 ++ decodeFrom (decodeStep p b).2 bs := by
  cases p with
  | none =>
      rw [decodeFrom, decodeStep]
      cases firstByte b.toNat <;> rfl
  | some p =>
      rw [decodeFrom, decodeStep]
      simp only [Option.elim_some]
      split_ifs
      · rfl
      · rfl
      · cases firstByte b.toNat <;> rfl

/-- The bytes still owed make a character that is not seven-bit, and is one. -/
structure Pending.Sound (p : Pending) : Prop where
  owed_pos : 0 < p.owed
  lo_le : 0x80 ≤ p.lo
  le_bits : 0x80 ≤ (p.bits * 64 + (p.lo - 0x80)) * 64 ^ (p.owed - 1)
  bits_lt : (p.bits * 64 + (p.hi - 0x80) + 1) * 64 ^ (p.owed - 1) ≤ 0x110000

theorem sound_firstByte {b : ℕ} {p : Pending} (h : firstByte b = .inl p) : p.Sound := by
  rw [firstByte] at h
  split_ifs at h with h₁ h₂ h₃ h₄ h₅ h₆ h₇ h₈ <;> cases h <;>
    exact ⟨by dsimp only; omega, by dsimp only; omega, by dsimp only; omega, by dsimp only; omega⟩

/-- A byte inside a sequence: the character is complete, or one byte less is owed. -/
theorem Pending.Sound.next {p : Pending} (hp : p.Sound) {b : ℕ} (hlo : p.lo ≤ b) (hhi : b ≤ p.hi) :
    0x80 ≤ (p.bits * 64 + (b - 0x80)) * 64 ^ (p.owed - 1) ∧
      (p.bits * 64 + (b - 0x80) + 1) * 64 ^ (p.owed - 1) ≤ 0x110000 := by
  refine ⟨hp.le_bits.trans ?_, le_trans ?_ hp.bits_lt⟩
  · exact Nat.mul_le_mul_right _ (by omega)
  · exact Nat.mul_le_mul_right _ (by omega)

/-- While bytes are owed, what is pending stays sound. -/
theorem Pending.Sound.continued {p : Pending} (hp : p.Sound) {b : ℕ} (hlo : p.lo ≤ b)
    (hhi : b ≤ p.hi) (howed : 1 < p.owed) :
    (Pending.mk (p.owed - 1) 0x80 0xBF (p.bits * 64 + (b - 0x80))).Sound := by
  obtain ⟨hle, hlt⟩ := hp.next hlo hhi
  have hpow : 64 ^ (p.owed - 1) = 64 * 64 ^ (p.owed - 1 - 1) := by
    rw [← pow_succ', Nat.sub_add_cancel (by omega)]
  rw [hpow, ← Nat.mul_assoc] at hle hlt
  have hbits : (p.bits * 64 + (b - 0x80)) * 64 + (0xBF - 0x80) + 1 =
      (p.bits * 64 + (b - 0x80) + 1) * 64 := by omega
  refine ⟨by dsimp only; omega, le_rfl, ?_, ?_⟩
  · dsimp only
    rw [Nat.sub_self, Nat.add_zero]
    exact hle
  · dsimp only
    rw [hbits]
    exact hlt

theorem firstByte_high {b : ℕ} {c : CodePoint} (hb : 0x80 ≤ b) (h : firstByte b = .inr c) :
    c = replacementChar := by
  rw [firstByte, if_neg (by omega)] at h
  split_ifs at h
  exact (Sum.inr.inj h).symm

/-- A seven-bit byte ends what was pending, and is written. -/
theorem decodeStep_ascii {p : Option Pending} (hp : ∀ q ∈ p, q.Sound) {b : UInt8}
    (hb : b.toNat < 0x80) : decodeStep p b =
      ((p.elim [] fun _ => [replacementChar]) ++ [Fin.ofNat _ b.toNat], none) := by
  have hfirst : firstByte b.toNat = .inr (Fin.ofNat _ b.toNat) := by rw [firstByte, if_pos hb]
  cases p with
  | none => simp only [decodeStep, hfirst, Option.elim_none, Sum.elim_inr, List.nil_append]
  | some p =>
      have hlo := (hp p rfl).lo_le
      rw [decodeStep, hfirst]
      simp only [Option.elim_some, Sum.elim_inr, List.cons_append, List.nil_append]
      exact if_neg (by omega)

/-- A byte that is not seven-bit writes no seven-bit character. -/
theorem decodeStep_high {p : Option Pending} (hp : ∀ q ∈ p, q.Sound) {b : UInt8}
    (hb : 0x80 ≤ b.toNat) : (∀ c ∈ (decodeStep p b).1, 0x80 ≤ c.val) ∧
      ∀ q ∈ (decodeStep p b).2, q.Sound := by
  have hreplacement : 0x80 ≤ replacementChar.val := by decide
  have hfirst : (∀ c ∈ ((firstByte b.toNat).elim (fun p => ([], some p)) fun c => ([c], none) :
      Str × Option Pending).1, 0x80 ≤ c.val) ∧
      ∀ q ∈ ((firstByte b.toNat).elim (fun p => ([], some p)) fun c => ([c], none) :
        Str × Option Pending).2, q.Sound := by
    cases hbyte : firstByte b.toNat with
    | inl p =>
        refine ⟨fun c hc => absurd hc List.not_mem_nil, ?_⟩
        rintro q ⟨⟩
        exact sound_firstByte hbyte
    | inr c =>
        refine ⟨?_, fun q hq => absurd hq (Option.not_mem_none q)⟩
        intro c' hc'
        rw [List.mem_singleton.mp hc', firstByte_high hb hbyte]
        exact hreplacement
  cases p with
  | none => exact hfirst
  | some p =>
      have hsound := hp p rfl
      have howed := hsound.owed_pos
      simp only [decodeStep, Option.elim_some]
      split_ifs with hrange hlast
      · have hnext := hsound.next hrange.1 hrange.2
        rw [show p.owed - 1 = 0 by omega, pow_zero, Nat.mul_one, Nat.mul_one] at hnext
        refine ⟨?_, fun q hq => absurd hq (Option.not_mem_none q)⟩
        intro c hc
        rw [List.mem_singleton.mp hc, Fin.val_ofNat, Nat.mod_eq_of_lt (by omega)]
        exact hnext.1
      · refine ⟨fun c hc => absurd hc List.not_mem_nil, ?_⟩
        rintro q ⟨⟩
        exact hsound.continued hrange.1 hrange.2 (by omega)
      · refine ⟨?_, hfirst.2⟩
        intro c hc
        rcases List.mem_cons.mp hc with rfl | hc
        · exact hreplacement
        · exact hfirst.1 c hc

/-- No byte is written twice, but one that breaks a sequence. -/
theorem length_decodeStep (p : Option Pending) (b : UInt8) :
    (decodeStep p b).1.length + (decodeStep p b).2.toList.length ≤ p.toList.length + 1 := by
  have hfirst : ((firstByte b.toNat).elim (fun p => ([], some p)) fun c => ([c], none) :
      Str × Option Pending).1.length + ((firstByte b.toNat).elim (fun p => ([], some p))
        fun c => ([c], none) : Str × Option Pending).2.toList.length = 1 := by
    cases firstByte b.toNat <;> rfl
  cases p with
  | none => exact hfirst.le
  | some p =>
      simp only [decodeStep, Option.elim_some]
      split_ifs
      · exact Nat.le_succ 1
      · exact Nat.le_succ 1
      · rw [List.length_cons, Nat.add_right_comm, hfirst]
        rfl

/-- **A decoded text is no longer than its bytes.** -/
theorem length_decodeFrom (p : Option Pending) (data : List UInt8) :
    (decodeFrom p data).length ≤ p.toList.length + data.length := by
  induction data generalizing p with
  | nil => cases p <;> exact le_rfl
  | cons b bs ih =>
      have hstep := length_decodeStep p b
      have hrest := ih (decodeStep p b).2
      rw [decodeFrom_cons, List.length_append, List.length_cons]
      omega

/-- **The seven-bit characters of a decoded text are its seven-bit bytes.** -/
theorem mem_decodeFrom {p : Option Pending} (hp : ∀ q ∈ p, q.Sound) {data : List UInt8}
    {c : CodePoint} (hc : c.val < 0x80) :
    c ∈ decodeFrom p data ↔ ∃ b ∈ data, b.toNat = c.val := by
  have hreplacement : c ≠ replacementChar := by
    rintro rfl
    exact absurd hc (by decide)
  induction data generalizing p with
  | nil => cases p <;> simp [decodeFrom, hreplacement]
  | cons b bs ih =>
      rw [decodeFrom_cons, List.mem_append, List.exists_mem_cons_iff]
      rcases Nat.lt_or_ge b.toNat 0x80 with hb | hb
      · rw [decodeStep_ascii hp hb]
        refine or_congr ?_ (ih (by simp))
        have hpending : c ∉ p.elim [] fun _ => [replacementChar] := by
          cases p with
          | none => exact List.not_mem_nil
          | some p => exact fun hmem => hreplacement (List.mem_singleton.mp hmem)
        rw [List.mem_append, or_iff_right hpending, List.mem_singleton, Fin.ext_iff, Fin.val_ofNat,
          Nat.mod_eq_of_lt (by omega), eq_comm]
      · obtain ⟨hhigh, hsound⟩ := decodeStep_high hp hb
        refine or_congr (iff_of_false ?_ (by omega)) (ih hsound)
        intro hmem
        exact absurd (hhigh c hmem) (by omega)

theorem mem_decodeUtf8 {data : List UInt8} {c : CodePoint} (hc : c.val < 0x80) :
    c ∈ decodeUtf8 data ↔ ∃ b ∈ data, b.toNat = c.val :=
  mem_decodeFrom (by simp) hc

end Text
end EvidenceLab
