/-
# What the local object store delivers

A store of files is a tree, and what it is for is a map from keys to bytes.  Two keys of which
one is a path on the way to the other cannot both be files; on keys that are not in each other's
way (`Apart`), and in a tree where nothing else is in their way, the store is that map
(`refines_of_run`).  The keys of documents are so (`documents_apart`): the file of every document
is delivered as it was put, whatever is put for the others (`documents_delivered`).
-/

import EvidenceLab.Ingest.Uploads
import EvidenceLab.Storage.Local

namespace EvidenceLab
namespace Storage
namespace LocalObjectStorage

open Text Data EvidenceLab.Core Runs

/-! ### Keys that are not in each other's way -/

/-- A key that is a plain relative path. -/
structure Plain (key : Str) (names : List Str) : Prop where
  noNul : (0 : CodePoint) ∉ key
  relative : key.head? ≠ some slash
  steps : keySteps key = names.map .into
  ne_nil : names ≠ []

/-- Keys that are plain paths, none of them on the way to another one. -/
structure Apart (keys : Set Str) (path : Str → List Str) : Prop where
  plain : ∀ key ∈ keys, Plain key (path key)
  apart : ∀ key ∈ keys, ∀ key' ∈ keys, path key <+: path key' → key = key'

/-- The bytes under each key. -/
abbrev Objects := Str → Option (List UInt8)

/-- What a call makes of them. -/
def Objects.call (m : Objects) : Call → Objects
  | .put key data => Function.update m key (some data)
  | .get _ => m
  | .delete key => Function.update m key none

/-- The files of the keys are these, and on the way to them are directories only. -/
structure Stores (root : List Str) (keys : Set Str) (path : Str → List Str) (m : Objects)
    (t : Files) : Prop where
  file : ∀ key ∈ keys, t.node (root ++ path key) = (m key).map .file
  way : ∀ key ∈ keys, ∀ q, q <+: root ++ path key → q ≠ root ++ path key →
    t.node q = none ∨ t.node q = some .dir

section Refinement

variable {s : LocalObjectStorage} {keys : Set Str} {path : Str → List Str} {m : Objects}
  {t : Files} {key : Str}

theorem Stores.linkFree (h : Stores s.root keys path m t) (hkey : key ∈ keys) :
    t.LinkFree (s.root ++ path key) := by
  intro prior hprior target htarget
  by_cases hsame : prior = s.root ++ path key
  · rw [hsame, h.file key hkey] at htarget
    cases hm : m key <;> simp [hm] at htarget
  · rcases h.way key hkey prior hprior hsame with hnone | hdir
    · cases hnone.symm.trans htarget
    · cases hdir.symm.trans htarget

/-- The system goes to the file of a key, if its directory is there. -/
theorem Stores.follow (h : Stores s.root keys path m t) (hkey : key ∈ keys) (links : ℕ) :
    t.follow links (s.root ++ path key) =
      if t.node (s.root ++ path key).dropLast = some .dir then .ok (s.root ++ path key)
      else .error .notFound :=
  FileTree.follow_of_way (h.linkFree hkey) (h.way key hkey)

/-- A plain key is accepted. -/
theorem Stores.resolve (h : Stores s.root keys path m t) (hkeys : Apart keys path)
    (hkey : key ∈ keys) : s.resolve t key = .ok (s.root ++ path key) := by
  have hplain := hkeys.plain key hkey
  have hreal : s.realPath t key = some (.settled (s.root ++ path key)) := by
    rw [realPath, if_neg hplain.relative, hplain.steps, ← List.map_append]
    exact FileTree.realPath_of_linkFree (h.linkFree hkey)
  have hpath : s.resolvePath t key = .ok (s.root ++ path key) := by
    rw [resolvePath, if_neg hplain.noNul, hreal]
    dsimp only [Walked.path]
    rw [h.follow hkey]
    split_ifs <;> rfl
  rw [LocalObjectStorage.resolve, hpath]
  exact if_pos (List.prefix_append _ _)

/-- A path on the way to a key is not the file of another key. -/
theorem Apart.ne_of_way (hkeys : Apart keys path) {root : List Str} {key' : Str}
    (hkey : key ∈ keys) (hkey' : key' ∈ keys) {q : List Str} (hq : q <+: root ++ path key')
    (hne : q ≠ root ++ path key') : q ≠ root ++ path key := by
  rintro rfl
  have hsame := hkeys.apart key hkey key' hkey' ((List.prefix_append_right_inj root).mp hq)
  exact hne (by rw [hsame])

/-- Another key has another file. -/
theorem Apart.ne_of_ne (hkeys : Apart keys path) {root : List Str} {key' : Str}
    (hkey : key ∈ keys) (hkey' : key' ∈ keys) (hne : key' ≠ key) :
    root ++ path key' ≠ root ++ path key := by
  intro h
  have hpath : path key' = path key := List.append_cancel_left h
  exact hne (hkeys.apart key' hkey' key hkey (hpath ▸ List.prefix_rfl))

/-- One file is changed, and no other. -/
theorem Stores.update (h : Stores s.root keys path m t) (hkeys : Apart keys path)
    (hkey : key ∈ keys) {t' : Files} {object : Option (List UInt8)}
    (hset : ∀ q, t'.node q =
      if q = s.root ++ path key then object.map .file else t.node q) :
    Stores s.root keys path (Function.update m key object) t' where
  file key' hkey' := by
    rw [hset]
    by_cases hsame : key' = key
    · rw [hsame, if_pos rfl, Function.update_self]
    · rw [if_neg (hkeys.ne_of_ne hkey hkey' hsame), Function.update_of_ne hsame]
      exact h.file key' hkey'
  way key' hkey' q hq hne := by
    rw [hset, if_neg (hkeys.ne_of_way hkey hkey' hq hne)]
    exact h.way key' hkey' q hq hne

/-- Directories are made on the way to a file. -/
theorem Stores.grows (h : Stores s.root keys path m t) (hkeys : Apart keys path)
    (hkey : key ∈ keys) {t' : Files}
    (hgrows : FileTree.Grows t t' (s.root ++ path key).dropLast) :
    Stores s.root keys path m t' where
  file key' hkey' := by
    rcases hgrows (s.root ++ path key') with hsame | ⟨-, -, hprefix⟩
    · rw [hsame]
      exact h.file key' hkey'
    · -- The file of a key would be on the way to that of another one.
      exfalso
      have hway := hprefix.trans (List.dropLast_prefix _)
      have hsame := hkeys.apart key' hkey' key hkey ((List.prefix_append_right_inj _).mp hway)
      have hlength := hprefix.length_le
      have hpos := List.length_pos_iff.mpr (hkeys.plain key hkey).ne_nil
      rw [hsame, List.length_dropLast, List.length_append] at hlength
      omega
  way key' hkey' q hq hne := by
    rcases hgrows q with hsame | ⟨-, hdir, -⟩
    · rw [hsame]
      exact h.way key' hkey' q hq hne
    · exact Or.inr hdir

/-- **`put` puts.** -/
theorem Stores.put (h : Stores s.root keys path m t) (hkeys : Apart keys path)
    (hkey : key ∈ keys) (data : List UInt8) :
    (s.put t key data).1 = .ok key ∧
      Stores s.root keys path (Function.update m key (some data)) (s.put t key data).2 := by
  have hne : s.root ++ path key ≠ [] :=
    List.append_ne_nil_of_right_ne_nil _ (hkeys.plain key hkey).ne_nil
  set target := s.root ++ path key with htarget
  have hlast := List.dropLast_append_getLast hne
  have hway : ∀ q, q <+: [] ++ target.dropLast → t.node q = none ∨ t.node q = some .dir := by
    intro q hq
    refine h.way key hkey q (hq.trans (List.dropLast_prefix _)) ?_
    intro hsame
    have hlength := hq.length_le
    have hpos := List.length_pos_iff.mpr hne
    rw [hsame, List.nil_append, List.length_dropLast, ← htarget] at hlength
    omega
  obtain ⟨t₁, hmade⟩ : ∃ t₁, t.makeDirs s.links [] target.dropLast = .ok t₁ :=
    FileTree.exists_makeDirs t.top hway
  obtain ⟨hgrows, hdir⟩ :=
    FileTree.makeDirs_spec ((h.linkFree hkey).above (List.dropLast_prefix _)) hmade
  have hstores := h.grows hkeys hkey hgrows
  have hleaf : t₁.node (target.dropLast ++ [target.getLast hne]) = none ∨
      ∃ data, t₁.node (target.dropLast ++ [target.getLast hne]) = some (.file data) := by
    rw [hlast, hstores.file key hkey]
    cases m key with
    | none => exact Or.inl rfl
    | some data => exact Or.inr ⟨data, rfl⟩
  obtain ⟨t₂, hwritten⟩ : ∃ t₂, t₁.write s.links target data = .ok t₂ := by
    rw [← hlast]
    exact FileTree.exists_write hdir hleaf
  have hput : s.put t key data = (.ok key, t₂) := by
    rw [LocalObjectStorage.put, h.resolve hkeys hkey]
    dsimp only
    rw [hmade]
    dsimp only
    rw [hwritten]
  rw [hput]
  exact ⟨rfl, hstores.update hkeys hkey (FileTree.write_spec (hstores.linkFree hkey) hwritten)⟩

/-- **`get` gets what is stored.** -/
theorem Stores.get (h : Stores s.root keys path m t) (hkeys : Apart keys path)
    (hkey : key ∈ keys) :
    s.get t key = (m key).elim (.error (.domain (s.objectNotFound key))) .ok := by
  have hne : s.root ++ path key ≠ [] :=
    List.append_ne_nil_of_right_ne_nil _ (hkeys.plain key hkey).ne_nil
  have hread : t.read s.links (s.root ++ path key) = (m key).elim (.error .notFound) .ok := by
    rw [FileTree.read, h.follow hkey]
    cases hm : m key with
    | none =>
        split_ifs
        · dsimp only
          rw [h.file key hkey, hm]
          rfl
        · rfl
    | some data =>
        have hfile : t.node (s.root ++ path key) = some (.file data) := by
          rw [h.file key hkey, hm]
          rfl
        -- A file is in a directory.
        have hdir : t.node (s.root ++ path key).dropLast = some .dir := by
          refine t.parent _ ((s.root ++ path key).getLast hne) ?_
          rw [List.dropLast_append_getLast hne, hfile]
          exact Option.some_ne_none _
        rw [if_pos hdir]
        dsimp only
        rw [hfile]
        rfl
  rw [LocalObjectStorage.get, h.resolve hkeys hkey]
  dsimp only [bind, Except.bind]
  rw [hread]
  cases m key <;> rfl

/-- **`delete` deletes.** -/
theorem Stores.delete (h : Stores s.root keys path m t) (hkeys : Apart keys path)
    (hkey : key ∈ keys) : (s.delete t key).1 = .ok () ∧
      Stores s.root keys path (Function.update m key none) (s.delete t key).2 := by
  have hleaf : t.node (s.root ++ path key) ≠ some .dir := by
    rw [h.file key hkey]
    cases m key <;> simp
  obtain ⟨t', hunlink⟩ : ∃ t', t.unlink s.links (s.root ++ path key) = .ok t' :=
    FileTree.exists_unlink (List.append_ne_nil_of_right_ne_nil _ (hkeys.plain key hkey).ne_nil)
      (h.way key hkey) hleaf
  have hdelete : s.delete t key = (.ok (), t') := by
    rw [LocalObjectStorage.delete, h.resolve hkeys hkey]
    dsimp only
    rw [hunlink]
  rw [hdelete]
  exact ⟨rfl, h.update hkeys hkey (FileTree.unlink_spec (h.linkFree hkey) hunlink)⟩

/-- One call. -/
theorem Stores.step (h : Stores s.root keys path m t) (hkeys : Apart keys path) {call : Call}
    (hkey : call.key ∈ keys) {t' : Files} (hstep : s.step t call = some t') :
    Stores s.root keys path (m.call call) t' := by
  cases call with
  | put key data =>
      obtain rfl := Option.some.inj hstep
      exact (h.put hkeys hkey data).2
  | get key =>
      obtain rfl := Option.some.inj hstep
      exact h
  | delete key =>
      obtain rfl := Option.some.inj hstep
      exact (h.delete hkeys hkey).2

/-- **Any number of calls.** -/
theorem Stores.run (h : Stores s.root keys path m t) (hkeys : Apart keys path)
    {calls : List Call} (hcalls : ∀ call ∈ calls, call.key ∈ keys) {t' : Files}
    (hrun : Runs.run s.step t calls = some t') :
    Stores s.root keys path (calls.foldl Objects.call m) t' := by
  induction calls generalizing m t with
  | nil =>
      obtain rfl := Option.some.inj hrun
      exact h
  | cons call calls ih =>
      obtain ⟨t₁, hstep, hrest⟩ := run_cons.mp hrun
      have hcall := hcalls call List.mem_cons_self
      exact ih (h.step hkeys hcall hstep)
        (fun call hmem => hcalls call (List.mem_cons_of_mem _ hmem)) hrest

end Refinement

/-! ### The keys of documents -/

/-- The keys under which uploads are stored. -/
def documentKeys : Set Str :=
  {key | ∃ projectId documentId, key = Ingest.storageKeyOf projectId documentId}

/-- The characters of a UUID: hyphens and hexadecimal digits. -/
theorem mem_hex {n v : ℕ} {x : CodePoint} (h : x ∈ hex n v) : ∃ d < 16, x = hexDigit d := by
  induction n generalizing v with
  | zero => exact absurd h List.not_mem_nil
  | succ n ih =>
      rcases List.mem_append.mp h with h | h
      · exact ih h
      · exact ⟨v % 16, Nat.mod_lt _ (by decide), List.mem_singleton.mp h⟩

theorem mem_str {u : Uuid} {x : CodePoint} (h : x ∈ u.str) :
    x = hyphen ∨ ∃ d < 16, x = hexDigit d := by
  by_cases hx : x = hyphen
  · exact Or.inl hx
  · have hmem : x ∈ u.str.filter (· ≠ hyphen) := List.mem_filter.mpr ⟨h, decide_eq_true hx⟩
    rw [filter_str] at hmem
    exact Or.inr (mem_hex hmem)

theorem ne_of_mem_str {u : Uuid} {x : CodePoint} (h : x ∈ u.str) :
    x ≠ slash ∧ x ≠ 0 ∧ x ≠ fullStop := by
  have hdigit : ∀ d < 16, hexDigit d ≠ slash ∧ hexDigit d ≠ 0 ∧ hexDigit d ≠ fullStop := by decide
  rcases mem_str h with rfl | ⟨d, hd, rfl⟩
  · decide
  · exact hdigit d hd

def projectsName : Str := lit ['p', 'r', 'o', 'j', 'e', 'c', 't', 's']

def documentsName : Str := lit ['d', 'o', 'c', 'u', 'm', 'e', 'n', 't', 's']

/-- The names of a key: those of the project and of the document among them. -/
def documentNames (projectId documentId : Uuid) : List Str :=
  [projectsName, projectId.str, documentsName, documentId.str]

theorem length_documentNames (projectId documentId : Uuid) :
    (documentNames projectId documentId).length = 4 := rfl

theorem storageKeyOf_eq (projectId documentId : Uuid) :
    Ingest.storageKeyOf projectId documentId =
      [slash].intercalate (documentNames projectId documentId) := by
  have hprojects : lit ['p', 'r', 'o', 'j', 'e', 'c', 't', 's', '/'] =
      projectsName ++ [slash] := rfl
  have hdocuments : lit ['/', 'd', 'o', 'c', 'u', 'm', 'e', 'n', 't', 's', '/'] =
      [slash] ++ documentsName ++ [slash] := rfl
  rw [Ingest.storageKeyOf, hprojects, hdocuments]
  simp [documentNames, List.intercalate]

/-- The name can be part of a key, and is neither empty nor made of full stops. -/
structure IsName (name : Str) : Prop where
  noSlash : slash ∉ name
  noNul : (0 : CodePoint) ∉ name
  visible : ∃ x ∈ name, x ≠ fullStop

theorem isName_projects : IsName projectsName :=
  ⟨by decide, by decide, 0x70, by decide, by decide⟩

theorem isName_documents : IsName documentsName :=
  ⟨by decide, by decide, 0x64, by decide, by decide⟩

theorem isName_str (u : Uuid) : IsName u.str where
  noSlash h := (ne_of_mem_str h).1 rfl
  noNul h := (ne_of_mem_str h).2.1 rfl
  visible := ⟨hyphen, by simp [Uuid.str], by decide⟩

theorem isName_documentNames (projectId documentId : Uuid) :
    ∀ name ∈ documentNames projectId documentId, IsName name := by
  refine List.forall_mem_cons.mpr ⟨isName_projects, List.forall_mem_cons.mpr
    ⟨isName_str projectId, List.forall_mem_cons.mpr ⟨isName_documents, ?_⟩⟩⟩
  exact List.forall_mem_singleton.mpr (isName_str documentId)

theorem splitOn_storageKeyOf (projectId documentId : Uuid) :
    (Ingest.storageKeyOf projectId documentId).splitOn slash =
      documentNames projectId documentId := by
  rw [storageKeyOf_eq]
  exact List.splitOn_intercalate slash
    (fun name hname => (isName_documentNames projectId documentId name hname).noSlash)
    (List.cons_ne_nil _ _)

/-- A key made of names is taken apart into them. -/
theorem keySteps_of_names {key : Str} {names : List Str} (hsplit : key.splitOn slash = names)
    (hnames : ∀ name ∈ names, IsName name) : keySteps key = names.map .into := by
  have hvisible : ∀ name ∈ names, ∀ dots : Str, (∀ x ∈ dots, x = fullStop) → name ≠ dots := by
    rintro name hname dots hdots rfl
    obtain ⟨x, hx, hne⟩ := (hnames name hname).visible
    exact hne (hdots x hx)
  rw [keySteps, hsplit]
  have hfilter : names.filter (fun part => part ≠ [] ∧ part ≠ [fullStop]) = names := by
    refine List.filter_eq_self.mpr fun name hname => decide_eq_true ⟨?_, ?_⟩
    · exact hvisible name hname [] (List.forall_mem_nil _)
    · exact hvisible name hname [fullStop] (List.forall_mem_singleton.mpr rfl)
  rw [hfilter]
  refine List.map_congr_left fun name hname => if_neg ?_
  exact hvisible name hname _ (List.forall_mem_cons.mpr ⟨rfl, List.forall_mem_singleton.mpr rfl⟩)

theorem plain_storageKeyOf (projectId documentId : Uuid) :
    Plain (Ingest.storageKeyOf projectId documentId) (documentNames projectId documentId) where
  noNul h := by
    rw [Ingest.storageKeyOf] at h
    simp only [List.mem_append] at h
    rcases h with ((h | h) | h) | h
    · revert h
      decide
    · exact (isName_str projectId).noNul h
    · revert h
      decide
    · exact (isName_str documentId).noNul h
  relative h := by
    have hfirst : (Ingest.storageKeyOf projectId documentId).head? = some 0x70 := rfl
    rw [hfirst] at h
    revert h
    decide
  steps := keySteps_of_names (splitOn_storageKeyOf _ _) (isName_documentNames _ _)
  ne_nil := List.cons_ne_nil _ _

/-- The names of a key. -/
def documentPath (key : Str) : List Str := key.splitOn slash

/-- **No document's file is in the way of another one's.** -/
theorem documents_apart : Apart documentKeys documentPath := by
  constructor
  · intro key hkey
    obtain ⟨projectId, documentId, hkey⟩ := hkey
    have hpath : documentPath key = documentNames projectId documentId := by
      rw [hkey]
      exact splitOn_storageKeyOf projectId documentId
    rw [hpath, hkey]
    exact plain_storageKeyOf projectId documentId
  · intro key hkey key' hkey' h
    obtain ⟨projectId, documentId, hkey⟩ := hkey
    obtain ⟨projectId', documentId', hkey'⟩ := hkey'
    rw [documentPath, documentPath, hkey, hkey', splitOn_storageKeyOf, splitOn_storageKeyOf] at h
    have hsame := h.eq_of_length (by rw [length_documentNames, length_documentNames])
    rw [hkey, hkey', storageKeyOf_eq, storageKeyOf_eq, hsame]

/-- **Files are delivered as they were put.**  In a root that is there and empty, and after any
calls for documents: `get` gives the bytes that were put last, if they were not deleted since,
and says that there are none otherwise; and no `put` and no `delete` fails. -/
theorem documents_delivered (s : LocalObjectStorage) {t t' : Files} {calls : List Call}
    (hroot : ∀ q, q <+: s.root → t.node q = some .dir)
    (hempty : ∀ name names, t.node (s.root ++ name :: names) = none)
    (hcalls : ∀ call ∈ calls, call.key ∈ documentKeys) (hrun : Runs.run s.step t calls = some t')
    {key : Str} (hkey : key ∈ documentKeys) :
    s.get t' key = ((calls.foldl Objects.call fun _ => none) key).elim
      (.error (.domain (s.objectNotFound key))) .ok ∧
    (∀ data, (s.put t' key data).1 = .ok key) ∧ (s.delete t' key).1 = .ok () := by
  have hinit : Stores s.root documentKeys documentPath (fun _ => none) t := by
    have hnone : ∀ names, names ≠ [] → t.node (s.root ++ names) = none := by
      intro names hne
      obtain ⟨name, names, rfl⟩ := List.exists_cons_of_ne_nil hne
      exact hempty name names
    refine ⟨fun key hkey => hnone _ (documents_apart.plain key hkey).ne_nil, ?_⟩
    intro key hkey q hq hne
    rcases List.prefix_or_prefix_of_prefix hq (List.prefix_append _ _) with hprefix | ⟨names, rfl⟩
    · exact Or.inr (hroot q hprefix)
    · rcases eq_or_ne names [] with rfl | hnames
      · exact Or.inr (hroot _ (by rw [List.append_nil]))
      · exact Or.inl (hnone names hnames)
  have hstores := hinit.run documents_apart hcalls hrun
  exact ⟨hstores.get documents_apart hkey, fun data => (hstores.put documents_apart hkey data).1,
    (hstores.delete documents_apart hkey).1⟩

/-- Of two files that are put, one is deleted; the other one is there. -/
theorem documents_delivered_sample : ∃ t' : Files,
    Runs.run sampleStorage.step emptyRoot
      [.put (Ingest.storageKeyOf 3 7) [0x61], .put (Ingest.storageKeyOf 3 8) [0x62],
        .delete (Ingest.storageKeyOf 3 7)] = some t' ∧
    sampleStorage.get t' (Ingest.storageKeyOf 3 8) = .ok [0x62] ∧
    sampleStorage.get t' (Ingest.storageKeyOf 3 7) =
      .error (.domain (sampleStorage.objectNotFound (Ingest.storageKeyOf 3 7))) := by
  have hmem : ∀ documentId, Ingest.storageKeyOf 3 documentId ∈ documentKeys :=
    fun documentId => ⟨3, documentId, rfl⟩
  have hroot : ∀ q, q <+: sampleStorage.root → emptyRoot.node q = some .dir := by
    intro q hq
    rcases List.prefix_concat_iff.mp (show q <+: [] ++ [[0x72]] from hq) with rfl | hnil
    · rfl
    · rw [List.prefix_nil.mp hnil]
      rfl
  have hempty : ∀ name names, emptyRoot.node (sampleStorage.root ++ name :: names) = none := by
    intro name names
    have hne : sampleStorage.root ++ name :: names ≠ [] ++ [[0x72]] := fun h => by cases h
    rw [emptyRoot, FileTree.node_set, if_neg hne]
    rfl
  have hcalls : ∀ call ∈ [Call.put (Ingest.storageKeyOf 3 7) [0x61],
      .put (Ingest.storageKeyOf 3 8) [0x62], .delete (Ingest.storageKeyOf 3 7)],
      call.key ∈ documentKeys := by
    simp [Call.key, hmem]
  refine ⟨_, rfl, ?_, ?_⟩
  · exact (documents_delivered sampleStorage hroot hempty hcalls rfl (hmem 8)).1.trans
      (by decide +kernel)
  · exact (documents_delivered sampleStorage hroot hempty hcalls rfl (hmem 7)).1.trans
      (by decide +kernel)

end LocalObjectStorage
end Storage
end EvidenceLab
