/-
# The local object store

`core/storage/local.py`.  A key is a path under a root directory, and it is not trusted: it may
be absolute, have `..` in it, or lead through links.  So it is resolved before it is used, and
refused if it leads out of the root.  This keeps the store inside its root (`storage_confined`),
but for links that lead back to themselves: behind one of them a key is not resolved but taken as
it is written, and then it may lead anywhere (`unconfined_by_loop`).

The store is told how many links the system follows, how deep a function may call itself, and how
an error shows a key; limits of the system on names and sizes are not modelled.
-/

import EvidenceLab.Core.Errors
import EvidenceLab.Runs.System
import EvidenceLab.Storage.FileTree

namespace EvidenceLab
namespace Storage

open Text EvidenceLab.Core Runs

def slash : CodePoint := 0x2F

/-- A tree of files with bytes in them. -/
abbrev Files := FileTree Str (List UInt8)

/-- `PurePath.parts`, as steps: empty names and dots are dropped. -/
def keySteps (key : Str) : List (Step Str) :=
  ((key.splitOn slash).filter fun part => part ≠ [] ∧ part ≠ [fullStop]).map fun part =>
    if part = [fullStop, fullStop] then .up else .into part

/-- `LocalObjectStorage`. -/
structure LocalObjectStorage where
  root : List Str
  links : ℕ
  depth : ℕ
  repr : Str → String

namespace LocalObjectStorage

variable (s : LocalObjectStorage) (t : Files)

def escapes (key : Str) : DomainError :=
  ⟨.storage, "Object key escapes the storage root: " ++ s.repr key, .storageFailed, []⟩

def objectNotFound (key : Str) : DomainError :=
  ⟨.storage, "Object not found: " ++ s.repr key, .storageFailed, []⟩

/-- `os.path.realpath(self._root / key)`: an absolute key takes the place of the root. -/
def realPath (key : Str) : Option (Walked Str) :=
  t.realPath s.depth (if key.head? = some slash then keySteps key
    else s.root.map .into ++ keySteps key)

/-- `(self._root / key).resolve()`. -/
def resolvePath (key : Str) : Except Exc (List Str) :=
  if (0 : CodePoint) ∈ key then .error .valueError
  else
    match s.realPath t key with
    -- A `RecursionError`.
    | none => .error .crash
    | some walked =>
        -- `stat` is called for the loops that are left in the path.
        match t.follow s.links walked.path with
        | .error .loop => .error .crash
        | _ => .ok walked.path

/-- `_resolve`. -/
def resolve (key : Str) : Except Exc (List Str) := do
  let path ← s.resolvePath t key
  if s.root <+: path then return path else throw (.domain (s.escapes key))

/-- `put`: the key, or what is raised, and the files as it leaves them. -/
def put (key : Str) (data : List UInt8) : Except Exc Str × Files :=
  match s.resolve t key with
  | .error e => (.error e, t)
  | .ok path =>
      match t.makeDirs s.links [] path.dropLast with
      | .error _ => (.error .osError, t)
      | .ok t =>
          match t.write s.links path data with
          | .error _ => (.error .osError, t)
          | .ok t => (.ok key, t)

/-- `get`. -/
def get (key : Str) : Except Exc (List UInt8) := do
  let path ← s.resolve t key
  match t.read s.links path with
  | .ok data => return data
  | .error .notFound => throw (.domain (s.objectNotFound key))
  | .error _ => throw .osError

/-- `delete`. -/
def delete (key : Str) : Except Exc Unit × Files :=
  match s.resolve t key with
  | .error e => (.error e, t)
  | .ok path =>
      match t.unlink s.links path with
      | .error _ => (.error .osError, t)
      | .ok t => (.ok (), t)

/-- The calls of a store. -/
inductive Call
  | put (key : Str) (data : List UInt8)
  | get (key : Str)
  | delete (key : Str)

def Call.key : Call → Str
  | .put key _ => key
  | .get key => key
  | .delete key => key

/-- What a call leaves of the files. -/
def step (t : Files) : Call → Option Files
  | .put key data => some (s.put t key data).2
  | .get _ => some t
  | .delete key => some (s.delete t key).2

/-! ### Confinement -/

variable {s t} {key : Str} {path : List Str} {data : List UInt8}

/-- The key is not led to a link that leads back to itself. -/
def Settles (s : LocalObjectStorage) (t : Files) (key : Str) : Prop :=
  (s.realPath t key).any Walked.isLoop = false

/-- A key that is accepted leads to a path under the root, without links. -/
theorem of_resolve (hsettles : s.Settles t key) (h : s.resolve t key = .ok path) :
    s.root <+: path ∧ t.LinkFree path := by
  obtain ⟨path', hpath, h⟩ := bind_eq_ok.mp h
  split_ifs at h with hroot
  · obtain rfl := Except.ok.inj h
    refine ⟨hroot, ?_⟩
    unfold resolvePath at hpath
    split_ifs at hpath
    split at hpath
    · cases hpath
    · rename_i walked hwalked
      split at hpath
      · cases hpath
      · obtain rfl := Except.ok.inj hpath
        cases walked with
        | settled path => exact FileTree.linkFree_of_settled FileTree.linkFree_nil hwalked
        | loop path rest =>
            rw [Settles, hwalked] at hsettles
            cases hsettles

/-- Outside the root nothing has changed, but that directories above it may have been made. -/
def Confined (root : List Str) (t t' : Files) : Prop :=
  ∀ q, ¬ root <+: q →
    t'.node q = t.node q ∨ (t.node q = none ∧ t'.node q = some .dir ∧ q <+: root)

theorem Confined.refl (root : List Str) (t : Files) : Confined root t t := fun _ _ => Or.inl rfl

theorem Confined.trans {root : List Str} {t t' t'' : Files} (h : Confined root t t')
    (h' : Confined root t' t'') : Confined root t t'' := by
  intro q hq
  rcases h' q hq with hsame | ⟨hnone, hdir, hprefix⟩
  · rw [hsame]
    exact h q hq
  · rcases h q hq with hsame | ⟨-, hdir', -⟩
    · exact Or.inr ⟨hsame ▸ hnone, hdir, hprefix⟩
    · rw [hdir'] at hnone
      cases hnone

/-- To make the directories of a path under the root. -/
theorem confined_of_grows {t t' : Files} (hroot : s.root <+: path)
    (hgrows : FileTree.Grows t t' path.dropLast) : Confined s.root t t' := by
  intro q hq
  rcases hgrows q with hsame | ⟨hnone, hdir, hprefix⟩
  · exact Or.inl hsame
  · refine Or.inr ⟨hnone, hdir, ?_⟩
    have hpath := hprefix.trans (List.dropLast_prefix path)
    exact (List.prefix_or_prefix_of_prefix hpath hroot).resolve_right hq

/-- To change a path under the root. -/
theorem confined_of_change {t t' : Files} {node : Option (Node Str (List UInt8))}
    (hroot : s.root <+: path) (h : ∀ q, t'.node q = if q = path then node else t.node q) :
    Confined s.root t t' := by
  intro q hq
  rw [h, if_neg]
  · exact Or.inl rfl
  · rintro rfl
    exact hq hroot

/-- What `put` does to the files. -/
theorem confined_put (hsettles : s.Settles t key) (data : List UInt8) :
    Confined s.root t (s.put t key data).2 := by
  unfold put
  split
  · exact .refl _ _
  · rename_i path hpath
    obtain ⟨hroot, hfree⟩ := of_resolve hsettles hpath
    split
    · exact .refl _ _
    · rename_i t' hmade
      obtain ⟨hgrows, -⟩ := FileTree.makeDirs_spec (hfree.above (List.dropLast_prefix _)) hmade
      have hconfined := confined_of_grows hroot hgrows
      split
      · exact hconfined
      · rename_i t'' hwritten
        exact hconfined.trans
          (confined_of_change hroot (FileTree.write_spec (hgrows.linkFree hfree) hwritten))

theorem confined_delete (hsettles : s.Settles t key) :
    Confined s.root t (s.delete t key).2 := by
  unfold delete
  split
  · exact .refl _ _
  · rename_i path hpath
    obtain ⟨hroot, hfree⟩ := of_resolve hsettles hpath
    split
    · exact .refl _ _
    · rename_i t' hunlink
      exact confined_of_change hroot (FileTree.unlink_spec hfree hunlink)

/-- What `get` returns is a file under the root. -/
theorem of_get (hsettles : s.Settles t key) (h : s.get t key = .ok data) :
    ∃ path, s.root <+: path ∧ t.node path = some (.file data) := by
  obtain ⟨path, hpath, h⟩ := bind_eq_ok.mp h
  obtain ⟨hroot, hfree⟩ := of_resolve hsettles hpath
  refine ⟨path, hroot, ?_⟩
  cases hread : t.read s.links path with
  | error e => rw [hread] at h; cases e <;> cases h
  | ok data' =>
      rw [hread] at h
      obtain rfl := Except.ok.inj h
      unfold FileTree.read at hread
      split at hread
      · cases hread
      · rename_i r hfollow
        obtain rfl := FileTree.eq_of_follow hfree hfollow
        split at hread
        · obtain rfl := Except.ok.inj hread
          assumption
        · cases hread
        · cases hread
        · cases hread

/-- **The store stays inside its root.**  Whatever the keys of any number of calls are, and
wherever the links of the files lead, as long as no key is led to a link that leads back to itself:
outside the root nothing is written, changed or taken away, but that missing directories above the
root are made; and every file that is handed out lies under the root. -/
theorem storage_confined (s : LocalObjectStorage) {t t' : Files} {calls : List Call}
    (hsettles : Every s.step (fun t call => s.Settles t call.key) t calls)
    (hrun : run s.step t calls = some t') :
    Confined s.root t t' ∧ ∀ key data, s.Settles t' key → s.get t' key = .ok data →
      ∃ path, s.root <+: path ∧ t'.node path = some (.file data) := by
  refine ⟨?_, fun key data => of_get⟩
  refine (throughout_of_every (.refl _ _) ?_ (fun _ h => h) hsettles).last hrun
  intro m call m' hm hstep hsettles
  cases call with
  | put key data =>
      obtain rfl := Option.some.inj hstep
      exact hm.trans (confined_put hsettles data)
  | get key =>
      obtain rfl := Option.some.inj hstep
      exact hm
  | delete key =>
      obtain rfl := Option.some.inj hstep
      exact hm.trans (confined_delete hsettles)

instance (s : LocalObjectStorage) (t : Files) (key : Str) : Decidable (s.Settles t key) :=
  inferInstanceAs (Decidable (_ = _))

/-- A store in the directory `r`. -/
def sampleStorage : LocalObjectStorage :=
  { root := [[0x72]], links := 40, depth := 1000, repr := fun _ => "" }

/-- Its files, when there are none. -/
def emptyRoot : Files := FileTree.empty.set [] [0x72] (some .dir) FileTree.empty.top (by decide)

/-- Its files: a link `o` to the directory above. -/
def sampleFiles : Files :=
  emptyRoot.set [[0x72]] [0x6F] (some (.link ⟨false, [.up]⟩)) (by decide) (by decide)

/-- A key that leads out of the root by the link is refused, and another one is not. -/
theorem storage_confined_sample :
    ∃ t', run sampleStorage.step sampleFiles
        [.put [0x6F, 0x2F, 0x78] [1], .put [0x61, 0x2F, 0x78] [1]] = some t' ∧
      t'.node [[0x78]] = none ∧ t'.node [[0x72], [0x61], [0x78]] = some (.file [1]) ∧
      Confined sampleStorage.root sampleFiles t' := by
  have hrun : ∃ t' ∈ run sampleStorage.step sampleFiles
      [.put [0x6F, 0x2F, 0x78] [1], .put [0x61, 0x2F, 0x78] [1]],
      t'.node [[0x78]] = none ∧ t'.node [[0x72], [0x61], [0x78]] = some (.file [1]) := by
    decide +kernel
  obtain ⟨t', hrun, houtside, hinside⟩ := hrun
  exact ⟨t', hrun, houtside, hinside,
    (storage_confined sampleStorage (by decide +kernel) hrun).1⟩

/-- The same files, and a link `l` to itself. -/
def loopedFiles : Files :=
  sampleFiles.set [[0x72]] [0x6C] (some (.link ⟨false, [.into [0x6C]]⟩)) (by decide) (by decide)

/-- Behind the link to itself the key that was refused is accepted, and the file is written outside
the root. -/
theorem unconfined_by_loop : ∃ key t', run sampleStorage.step loopedFiles [.put key [1]] = some t' ∧
    ¬ Confined sampleStorage.root loopedFiles t' := by
  have hrun : ∃ t' ∈ run sampleStorage.step loopedFiles
      [.put [0x6C, 0x2F, 0x2E, 0x2E, 0x2F, 0x6F, 0x2F, 0x78] [1]],
      loopedFiles.node [[0x78]] = none ∧ t'.node [[0x78]] = some (.file [1]) := by
    decide +kernel
  obtain ⟨t', hrun, hbefore, hafter⟩ := hrun
  refine ⟨_, t', hrun, fun hconfined => ?_⟩
  rcases hconfined [[0x78]] (by decide) with hsame | ⟨-, hdir, -⟩
  · cases hbefore.symm.trans (hsame.symm.trans hafter)
  · cases hdir.symm.trans hafter

end LocalObjectStorage
end Storage
end EvidenceLab
