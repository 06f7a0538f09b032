/-
# Redaction of log events

`_redact_secrets` of `app/core/logging.py` goes over the keys of an event and blanks the values of
the sensitive ones.  It does not go into the values: a mapping that is logged whole keeps the
secrets in it.  So what is redacted is free of secrets iff no value under another key holds a
sensitive one (`redactSecrets_iff`).
-/

import EvidenceLab.Data.Dict
import EvidenceLab.Data.Nested
import EvidenceLab.Text.Unicode

namespace EvidenceLab
namespace Logging

open Text Data

variable {A : Type}

/-! ### Events -/

/-- `str.lower` of an ASCII character. -/
def asciiLower (c : CodePoint) : CodePoint :=
  if ofChar 'A' ≤ c ∧ c ≤ ofChar 'Z' then Fin.ofNat _ (c.val + 0x20) else c

/-- `str.lower`. -/
structure LowerTable where
  lower : Str → Str
  ascii : ∀ s : Str, (∀ c ∈ s, c.val < 0x80) → lower s = s.map asciiLower

/-- A value that is neither a list nor a dictionary. -/
inductive Leaf (A : Type)
  | text (s : Str)
  | other (a : A)

/-- What is logged under a key. -/
abbrev LogValue (A : Type) := Nested Str (Leaf A)

/-- `EventDict`. -/
abbrev EventDict (A : Type) := Dict Str (LogValue A)

/-- `_SENSITIVE_KEYS`. -/
def sensitiveKeys : List Str :=
  ["api_key", "apikey", "authorization", "password", "secret", "secret_key", "token",
    "access_key", "database_url", "redis_url"].map fun key => lit key.toList

/-- `_REDACTED`. -/
def redacted : Leaf A := .text (lit "[redacted]".toList)

section Redact

variable (table : LowerTable)

/-- `key.lower() in _SENSITIVE_KEYS`. -/
def isSensitive (key : Str) : Bool := sensitiveKeys.contains (table.lower key)

/-- `_redact_secrets`. -/
def redactSecrets (event : EventDict A) : EventDict A :=
  event.keys.foldl
    (fun event key => if isSensitive table key then event.set key (.leaf redacted) else event) event

/-- Two events differ only in values under sensitive keys, at any depth. -/
def SameButSecrets (event event' : EventDict A) : Prop :=
  (Nested.dict event.entries).mask (isSensitive table) redacted =
    (Nested.dict event'.entries).mask (isSensitive table) redacted

/-- No value under another key holds a sensitive one. -/
def SecretsOnTop (event : EventDict A) : Prop :=
  ∀ e ∈ event.entries, isSensitive table e.1 = false → e.2.holds (isSensitive table) = false

end Redact

/-! ### What is redacted -/

variable {table : LowerTable} {event event' : EventDict A}

/-- A key of ASCII characters is sensitive iff it is in the list, but for the case of its
letters. -/
theorem isSensitive_of_ascii {key : Str} (h : key.all (fun c => decide (c.val < 0x80)) = true) :
    isSensitive table key = sensitiveKeys.contains (key.map asciiLower) := by
  rw [isSensitive, table.ascii key fun c hc => of_decide_eq_true (List.all_eq_true.mp h c hc)]

/-- An entry as it is logged. -/
def redactEntry (table : LowerTable) (e : Str × LogValue A) : Str × LogValue A :=
  (e.1, if isSensitive table e.1 then .leaf redacted else e.2)

/-- **The redaction goes over the entries**, and not into them. -/
theorem entries_redactSecrets (table : LowerTable) (event : EventDict A) :
    (redactSecrets table event).entries = event.entries.map (redactEntry table) := by
  have hkeys : ∀ key ∈ event.keys.filter (isSensitive table), key ∈ event.keys :=
    fun key hkey => List.mem_of_mem_filter hkey
  rw [redactSecrets, ← List.foldl_filter, Dict.entries_foldl_set _ hkeys]
  refine List.map_congr_left fun e he => Prod.ext rfl ?_
  have hmem : e.1 ∈ event.keys.filter (isSensitive table) ↔ isSensitive table e.1 = true :=
    List.mem_filter.trans (and_iff_right (List.mem_map_of_mem he))
  by_cases hkey : isSensitive table e.1 = true
  · rw [redactEntry, if_pos hkey]
    exact if_pos (hmem.mpr hkey)
  · rw [redactEntry, if_neg hkey]
    exact if_neg (hmem.not.mpr hkey)

theorem redactSecrets_eq_iff : redactSecrets table event = redactSecrets table event' ↔
    event.entries.map (redactEntry table) = event'.entries.map (redactEntry table) := by
  rw [← entries_redactSecrets, ← entries_redactSecrets, Dict.entries_injective.eq_iff]

theorem sameButSecrets_iff : SameButSecrets table event event' ↔
    event.entries.map (Nested.maskEntry (isSensitive table) redacted) =
      event'.entries.map (Nested.maskEntry (isSensitive table) redacted) := by
  rw [SameButSecrets, Nested.mask_dict, Nested.mask_dict, Nested.dict.injEq]

/-- What is under other keys stays as it is. -/
theorem get?_redactSecrets {key : Str} (h : isSensitive table key = false) :
    (redactSecrets table event).get? key = event.get? key := by
  have hloop := Dict.get?_foldl_set_keys (fun _ => (.leaf redacted : LogValue A))
    (event.keys.filter (isSensitive table)) event key
  have hnot : key ∉ event.keys.filter (isSensitive table) := by
    rw [List.mem_filter, h]
    exact fun hmem => Bool.false_ne_true hmem.2
  rw [if_neg hnot, List.foldl_filter] at hloop
  exact hloop

/-- Blanking on top is enough where the secrets are on top. -/
theorem redact_eq_of_secretsOnTop (htop : SecretsOnTop table event)
    (hsame : SameButSecrets table event' event) :
    redactSecrets table event' = redactSecrets table event := by
  rw [redactSecrets_eq_iff]
  refine Nested.map_eq_of_map_eq (sameButSecrets_iff.mp hsame) fun e he e' hmask => ?_
  obtain ⟨hkey, hvalue⟩ := Prod.mk.inj hmask
  refine Prod.ext hkey ?_
  rw [hkey] at hvalue
  rw [redactEntry, redactEntry, hkey]
  cases hsensitive : isSensitive table e.1 with
  | true => rfl
  | false =>
      rw [hsensitive] at hvalue
      exact Nested.eq_of_mask_eq (htop e he hsensitive) hvalue

/-- A secret further down is logged: of two events that differ in it, each is. -/
theorem secretsOnTop_of_redact_eq
    (h : ∀ event', SameButSecrets table event' event →
      redactSecrets table event' = redactSecrets table event) : SecretsOnTop table event := by
  intro e he hkey
  by_contra hholds
  rw [Bool.not_eq_false] at hholds
  obtain ⟨value, hmask, hne⟩ := Nested.exists_ne_of_holds redacted hholds
  obtain ⟨front, back, hcut⟩ := List.append_of_mem he
  have hkeys : ((front ++ (e.1, value) :: back).map Prod.fst).Nodup := by
    have hnodup := event.nodup
    rw [hcut, List.map_append, List.map_cons] at hnodup
    rwa [List.map_append, List.map_cons]
  have hsame : SameButSecrets table ⟨front ++ (e.1, value) :: back, hkeys⟩ event := by
    rw [sameButSecrets_iff, hcut, List.map_append, List.map_append, List.map_cons, List.map_cons,
      Nested.maskEntry, Nested.maskEntry, hmask]
  have hequal := redactSecrets_eq_iff.mp (h _ hsame)
  rw [hcut, List.map_append, List.map_append, List.map_cons, List.map_cons] at hequal
  have hentry := (List.cons.inj (List.append_cancel_left hequal)).1
  rw [redactEntry, redactEntry, hkey] at hentry
  exact hne (congrArg Prod.snd hentry)

/-- **Nothing secret is logged iff the secrets are on top**: two events that differ only in
values under sensitive keys are redacted to the same, and what is under other keys and holds no
such key stays as it is, iff no value under another key of the event holds a sensitive one. -/
theorem redactSecrets_iff (table : LowerTable) (event : EventDict A) :
    ((∀ event', SameButSecrets table event' event →
        redactSecrets table event' = redactSecrets table event) ∧
      ∀ key, isSensitive table key = false →
        (redactSecrets table event).get? key = event.get? key) ↔
      SecretsOnTop table event :=
  ⟨fun h => secretsOnTop_of_redact_eq h.1, fun htop =>
    ⟨fun _ => redact_eq_of_secretsOnTop htop, fun _ => get?_redactSecrets⟩⟩

/-- `str.lower` where only ASCII characters have another case. -/
def asciiLowerTable : LowerTable where
  lower s := s.map asciiLower
  ascii _ _ := rfl

/-- An event that logs the settings whole, with this key in them. -/
def settingsEvent (secret : Str) : EventDict Empty where
  entries := [(lit "settings".toList,
    .dict [(lit "Api_Key".toList, .leaf (.text secret)),
      (lit "level".toList, .leaf (.text (lit "info".toList)))])]
  nodup := List.nodup_singleton _

/-- **A secret in a mapping is logged.** -/
theorem redactSecrets_leaks : ¬ ∀ (table : LowerTable) (event event' : EventDict Empty),
    SameButSecrets table event' event →
      redactSecrets table event' = redactSecrets table event ∧
        ∀ key, isSensitive table key = false →
          (redactSecrets table event).get? key = event.get? key := by
  intro hclaim
  have hsame := (hclaim asciiLowerTable (settingsEvent (lit ['x'])) (settingsEvent (lit ['y']))
    rfl).1
  have hascii : (lit "settings".toList).all (fun c => decide (c.val < 0x80)) = true := by
    decide +kernel
  have hkey : isSensitive asciiLowerTable (lit "settings".toList) = false :=
    (isSensitive_of_ascii hascii).trans (by decide +kernel)
  have hentry := (List.cons.inj (redactSecrets_eq_iff.mp hsame)).1
  rw [redactEntry, redactEntry, hkey] at hentry
  obtain ⟨hsecret, -⟩ := List.cons.inj (Nested.dict.inj (congrArg Prod.snd hentry))
  have htext := Leaf.text.inj (Nested.leaf.inj (congrArg Prod.snd hsecret))
  exact absurd htext (by decide)

end Logging
end EvidenceLab
