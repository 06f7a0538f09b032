/-
# File trees with symbolic links

A file tree says what is at each path: a file, a directory, a link, or nothing.  A path is the
list of its names from the top.  There are two ways to walk along one, up at each `..` and on to
its target at each link.

The system walks to a file that it is to open (`lookup`): it stops where nothing is, and it follows
only so many links.  A program walks to find out where a path leads (`realPath`): it goes on where
nothing is, and at a link that it has not yet done with it gives up, and takes what is left as it
is written.  Where it does not give up, what it comes to has no link on its way
(`linkFree_of_settled`), and the system walks along a path without links to that path
(`eq_of_follow`).  So a path that has been resolved may be checked, and then opened: it is still
the same file.
-/

import Mathlib.Data.List.Infix
import Mathlib.Logic.Function.Basic
import Mathlib.Tactic.Common

namespace EvidenceLab
namespace Storage

/-- A step of a walk: to the directory above, or on to a name. -/
inductive Step (Name : Type)
  | up
  | into (name : Name)
  deriving DecidableEq

/-- What a link says: a walk from the top, or from where the link is. -/
structure Target (Name : Type) where
  absolute : Bool
  steps : List (Step Name)
  deriving DecidableEq

/-- What is at a path. -/
inductive Node (Name Data : Type)
  | file (data : Data)
  | dir
  | link (target : Target Name)
  deriving DecidableEq

/-- A tree of files: what is at a path is in a directory, and the top is one. -/
structure FileTree (Name Data : Type) where
  node : List Name → Option (Node Name Data)
  top : node [] = some .dir
  parent : ∀ path name, node (path ++ [name]) ≠ none → node path = some .dir

/-- A tree with nothing in it. -/
def FileTree.empty {Name Data : Type} : FileTree Name Data where
  node path := if path.isEmpty then some .dir else none
  top := rfl
  parent path name h := by simp at h

/-- What the system refuses. -/
inductive FileError
  | notFound
  | isADirectory
  | notADirectory
  | loop
  deriving DecidableEq, Repr

/-- What a program comes to: a path, or a link that it is at already, with the steps that are
left. -/
inductive Walked (Name : Type)
  | settled (path : List Name)
  | loop (path : List Name) (rest : List (Step Name))
  deriving DecidableEq

variable {Name Data : Type}

/-- A step as it is written, whatever is there. -/
def Step.from (path : List Name) : Step Name → List Name
  | .up => path.dropLast
  | .into name => path ++ [name]

/-- The path, without `..`. -/
def Walked.path : Walked Name → List Name
  | .settled path => path
  | .loop path rest => rest.foldl Step.from path

/-- The program has given up. -/
def Walked.isLoop : Walked Name → Bool
  | .settled _ => false
  | .loop _ _ => true

namespace FileTree

variable (t : FileTree Name Data)

/-! ### Walks of a program -/

/-- A walk from a path, where `enter` is what to do at a link.  What is not there is walked through
as if it were a directory. -/
def walk (enter : List Name → Target Name → Option (Walked Name)) :
    List Name → List (Step Name) → Option (Walked Name)
  | path, [] => some (.settled path)
  | path, .up :: steps => walk enter path.dropLast steps
  | path, .into name :: steps =>
      match t.node (path ++ [name]) with
      | some (.link target) =>
          match enter (path ++ [name]) target with
          | some (.settled path) => walk enter path steps
          | some (.loop path rest) => some (.loop path (rest ++ steps))
          | none => none
      | _ => walk enter (path ++ [name]) steps

/-- No link is at the path or on the way to it. -/
def LinkFree (path : List Name) : Prop :=
  ∀ prior, prior <+: path → ∀ target, t.node prior ≠ some (.link target)

section RealPath

variable [DecidableEq Name]

/-- What to do at a link, when these links are being resolved. -/
def enter (opened : List (List Name))
    (next : List (List Name) → List Name → List (Step Name) → Option (Walked Name))
    (link : List Name) (target : Target Name) : Option (Walked Name) :=
  if link ∈ opened then some (.loop link [])
  else next (link :: opened) (if target.absolute then [] else link.dropLast) target.steps

/-- `_joinrealpath`, which calls itself at most so many times within one another. -/
def joinRealPath : ℕ → List (List Name) → List Name → List (Step Name) → Option (Walked Name)
  | 0, opened => t.walk (enter opened fun _ _ _ => none)
  | depth + 1, opened => t.walk (enter opened (joinRealPath depth))

/-- `os.path.realpath`, before `abspath` takes the steps that are left. -/
def realPath (depth : ℕ) (steps : List (Step Name)) : Option (Walked Name) :=
  t.joinRealPath depth [] [] steps

end RealPath

/-! ### Walks of the system -/

/-- Why there is no directory at a path. -/
def noDirectory (path : List Name) : FileError :=
  if (t.node path).isNone then .notFound else .notADirectory

/-- A walk from a path, where `next` goes on from the base of a link. -/
def seek (next : List Name → List (Step Name) → Except FileError (List Name)) :
    List Name → List (Step Name) → Except FileError (List Name)
  | path, [] => .ok path
  | path, .up :: steps =>
      match t.node path with
      | some .dir => seek next path.dropLast steps
      | _ => .error (t.noDirectory path)
  | path, .into name :: steps =>
      match t.node path with
      | some .dir =>
          match t.node (path ++ [name]) with
          | some (.link target) =>
              next (if target.absolute then [] else path) (target.steps ++ steps)
          | _ => seek next (path ++ [name]) steps
      | _ => .error (t.noDirectory path)

/-- A walk on which no more than `links` links are followed. -/
def lookup : ℕ → List Name → List (Step Name) → Except FileError (List Name)
  | 0 => t.seek fun _ _ => .error .loop
  | links + 1 => t.seek (lookup links)

/-- Where a path leads; there need not be anything. -/
def follow (links : ℕ) (path : List Name) : Except FileError (List Name) :=
  t.lookup links [] (path.map .into)

/-! ### Paths without links -/

variable {t} {path : List Name} {name : Name} {links depth : ℕ}

theorem linkFree_nil : t.LinkFree [] := by
  intro prior hprior target h
  rw [List.prefix_nil.mp hprior, t.top] at h
  cases h

theorem LinkFree.above {path' : List Name} (h : t.LinkFree path) (hp : path' <+: path) :
    t.LinkFree path' := fun prior hprior => h prior (hprior.trans hp)

theorem LinkFree.concat (h : t.LinkFree path)
    (hname : ∀ target, t.node (path ++ [name]) ≠ some (.link target)) :
    t.LinkFree (path ++ [name]) := by
  intro prior hprior
  rcases List.prefix_concat_iff.mp hprior with rfl | hprior
  · exact hname
  · exact h prior hprior

/-- A directory is in directories. -/
theorem dir_above {path' : List Name} (h : t.node path = some .dir) (hp : path' <+: path) :
    t.node path' = some .dir := by
  obtain ⟨names, rfl⟩ := hp
  induction names using List.reverseRecOn with
  | nil => rwa [List.append_nil] at h
  | append_singleton names name ih =>
      rw [← List.append_assoc] at h
      exact ih (t.parent _ name (by rw [h]; exact Option.some_ne_none _))

theorem linkFree_walk {enter : List Name → Target Name → Option (Walked Name)}
    (henter : ∀ link target r, t.LinkFree link.dropLast → enter link target = some (.settled r) →
      t.LinkFree r)
    {steps : List (Step Name)} {r : List Name} (h : t.LinkFree path)
    (hwalk : t.walk enter path steps = some (.settled r)) : t.LinkFree r := by
  induction steps generalizing path with
  | nil =>
      obtain rfl := Walked.settled.inj (Option.some.inj hwalk)
      exact h
  | cons step steps ih =>
      cases step with
      | up => exact ih (h.above (List.dropLast_prefix _)) hwalk
      | into name =>
          rw [walk] at hwalk
          split at hwalk
          · split at hwalk
            · rename_i hentered
              refine ih (henter _ _ _ ?_ hentered) hwalk
              rwa [List.dropLast_concat]
            · cases hwalk
            · cases hwalk
          · rename_i hnode
            exact ih (h.concat fun target htarget => hnode target htarget) hwalk

section RealPath

variable [DecidableEq Name]

/-- **What a program comes to has no link on its way**, where it does not give up. -/
theorem linkFree_of_settled {opened : List (List Name)} {steps : List (Step Name)} {r : List Name}
    (h : t.LinkFree path) (hr : t.joinRealPath depth opened path steps = some (.settled r)) :
    t.LinkFree r := by
  induction depth generalizing opened path steps r with
  | zero =>
      refine linkFree_walk (fun link target r _ hentered => ?_) h hr
      unfold enter at hentered
      split_ifs at hentered
      cases hentered
  | succ depth ih =>
      refine linkFree_walk (fun link target r hlink hentered => ?_) h hr
      unfold enter at hentered
      split_ifs at hentered with hopened
      · cases hentered
      · exact ih linkFree_nil hentered
      · exact ih hlink hentered

end RealPath

theorem walk_of_linkFree {enter : List Name → Target Name → Option (Walked Name)}
    {names : List Name} (h : t.LinkFree (path ++ names)) :
    t.walk enter path (names.map .into) = some (.settled (path ++ names)) := by
  induction names generalizing path with
  | nil => rw [List.map_nil, walk, List.append_nil]
  | cons name names ih =>
      rw [← List.singleton_append, ← List.append_assoc] at h ⊢
      rw [List.map_append, List.map_singleton, List.singleton_append, walk]
      split
      · rename_i target htarget
        exact absurd htarget (h _ (List.prefix_append _ _) target)
      · exact ih h

/-- **A path without links leads to itself.** -/
theorem realPath_of_linkFree [DecidableEq Name] (h : t.LinkFree path) :
    t.realPath depth (path.map .into) = some (.settled path) := by
  unfold realPath
  cases depth with
  | zero => exact walk_of_linkFree h
  | succ depth => exact walk_of_linkFree h

theorem eq_of_seek {next : List Name → List (Step Name) → Except FileError (List Name)}
    {names r : List Name} (h : t.LinkFree (path ++ names))
    (hseek : t.seek next path (names.map .into) = .ok r) : r = path ++ names := by
  induction names generalizing path with
  | nil => rw [List.append_nil, Except.ok.inj hseek]
  | cons name names ih =>
      rw [← List.singleton_append, ← List.append_assoc] at h ⊢
      rw [List.map_cons, seek] at hseek
      split at hseek
      · split at hseek
        · rename_i target htarget
          exact absurd htarget (h _ (List.prefix_append _ _) target)
        · exact ih h hseek
      · cases hseek

/-- **The system goes along a path without links to that path**, if it does not stop. -/
theorem eq_of_follow {r : List Name} (h : t.LinkFree path) (hfollow : t.follow links path = .ok r) :
    r = path := by
  unfold follow at hfollow
  cases links with
  | zero => exact eq_of_seek h hfollow
  | succ links => exact eq_of_seek h hfollow

/-- Where only directories are on the way, it stops only if one of them is missing. -/
theorem seek_of_way [DecidableEq Name] [DecidableEq Data]
    {next : List Name → List (Step Name) → Except FileError (List Name)} {names : List Name}
    (h : t.LinkFree (path ++ names))
    (hway : ∀ q, q <+: path ++ names → q ≠ path ++ names → t.node q = none ∨ t.node q = some .dir) :
    t.seek next path (names.map .into) =
      if names = [] ∨ t.node (path ++ names).dropLast = some .dir then .ok (path ++ names)
      else .error .notFound := by
  induction names generalizing path with
  | nil => rw [if_pos (Or.inl rfl), List.append_nil]; rfl
  | cons name names ih =>
      have hshort : path <+: (path ++ name :: names).dropLast := by
        rw [List.dropLast_append_of_ne_nil (List.cons_ne_nil _ _)]
        exact List.prefix_append _ _
      have hne : path ≠ path ++ name :: names := fun heq =>
        absurd (List.append_right_eq_self.mp heq.symm) (List.cons_ne_nil _ _)
      rcases hway path (List.prefix_append _ _) hne with hnone | hdir
      · have hmissing : ¬ (name :: names = [] ∨
            t.node (path ++ name :: names).dropLast = some .dir) := by
          rintro (hnil | hdir)
          · cases hnil
          · cases hnone.symm.trans (dir_above hdir hshort)
        rw [if_neg hmissing, List.map_cons, seek, hnone]
        simp only [noDirectory, hnone, Option.isNone_none, if_true]
      · rw [List.map_cons, seek, hdir]
        have hpath : path ++ name :: names = path ++ [name] ++ names := by
          rw [List.append_assoc, List.singleton_append]
        rw [hpath] at h hway ⊢
        dsimp only
        split
        · rename_i target htarget
          exact absurd htarget (h _ (List.prefix_append _ _) target)
        · rw [ih h hway]
          refine if_congr ?_ rfl rfl
          simp only [reduceCtorEq, false_or]
          constructor
          · rintro (rfl | hparent)
            · rwa [List.append_nil, List.dropLast_concat]
            · exact hparent
          · exact Or.inr

/-! ### Changes -/

/-- Puts a node into a directory, or takes one out of it; a directory stays. -/
def set [DecidableEq Name] (t : FileTree Name Data) (path : List Name) (name : Name)
    (node : Option (Node Name Data)) (hdir : t.node path = some .dir)
    (hleaf : t.node (path ++ [name]) ≠ some .dir) : FileTree Name Data where
  node := Function.update t.node (path ++ [name]) node
  top := by
    rw [Function.update_of_ne (List.append_ne_nil_of_right_ne_nil _ (List.cons_ne_nil _ _)).symm]
    exact t.top
  parent path' name' h := by
    have hdir' : t.node path' = some .dir := by
      by_cases hsame : path' ++ [name'] = path ++ [name]
      · rw [List.append_inj_left' hsame rfl]
        exact hdir
      · rw [Function.update_of_ne hsame] at h
        exact t.parent path' name' h
    rw [Function.update_of_ne, hdir']
    rintro rfl
    exact hleaf hdir'

variable [DecidableEq Name]

@[simp] theorem node_set {node : Option (Node Name Data)} {hdir : t.node path = some .dir}
    {hleaf : t.node (path ++ [name]) ≠ some .dir} {path' : List Name} :
    (t.set path name node hdir hleaf).node path' =
      if path' = path ++ [name] then node else t.node path' := by
  exact Function.update_apply ..

/-! ### Calls -/

variable [DecidableEq Data] (t) (links)

/-- The directory that a path leads to. -/
def directory (links : ℕ) (path : List Name) :
    Except FileError { path : List Name // t.node path = some .dir } :=
  match t.follow links path with
  | .error e => .error e
  | .ok path =>
      if h : t.node path = some .dir then .ok ⟨path, h⟩ else .error (t.noDirectory path)

/-- `path.mkdir(parents=True, exist_ok=True)`: what is missing is made, from the top down. -/
def makeDirs (t : FileTree Name Data) (path : List Name) :
    List Name → Except FileError (FileTree Name Data)
  | [] => (t.directory links path).map fun _ => t
  | name :: names =>
      match t.directory links path with
      | .error e => .error e
      | .ok dir =>
          if h : t.node (dir.1 ++ [name]) = none then
            (t.set dir.1 name (some .dir) dir.2 (by simp [h])).makeDirs (path ++ [name]) names
          else t.makeDirs (path ++ [name]) names

/-- Puts a file where no directory is. -/
def place (path : List Name) (data : Data) : Except FileError (FileTree Name Data) :=
  match path.getLast? with
  | none => .error .isADirectory
  | some name =>
      if hdir : t.node path.dropLast = some .dir then
        if hleaf : t.node (path.dropLast ++ [name]) = some .dir then .error .isADirectory
        else .ok (t.set path.dropLast name (some (.file data)) hdir hleaf)
      else .error .notFound

/-- `path.open("wb")`, all the data written. -/
def write (path : List Name) (data : Data) : Except FileError (FileTree Name Data) :=
  match t.follow links path with
  | .error e => .error e
  | .ok path => t.place path data

/-- `path.read_bytes()`. -/
def read (path : List Name) : Except FileError Data :=
  match t.follow links path with
  | .error e => .error e
  | .ok path =>
      match t.node path with
      | some (.file data) => .ok data
      | some .dir => .error .isADirectory
      | some (.link _) => .error .loop
      | none => .error .notFound

/-- `path.unlink(missing_ok=True)`: a link at the path is not followed. -/
def unlink (path : List Name) : Except FileError (FileTree Name Data) :=
  match path.getLast? with
  | none => .error .isADirectory
  | some name =>
      match t.directory links path.dropLast with
      | .error .notFound => .ok t
      | .error e => .error e
      | .ok dir =>
          if h : t.node (dir.1 ++ [name]) = some .dir then .error .isADirectory
          else if t.node (dir.1 ++ [name]) = none then .ok t
          else .ok (t.set dir.1 name none dir.2 h)

/-! ### What calls change -/

variable {t links} {t' : FileTree Name Data} {names : List Name} {data : Data}

theorem follow_of_way (h : t.LinkFree path)
    (hway : ∀ q, q <+: path → q ≠ path → t.node q = none ∨ t.node q = some .dir) :
    t.follow links path =
      if t.node path.dropLast = some .dir then .ok path else .error .notFound := by
  have hseek : t.follow links path =
      if path = [] ∨ t.node path.dropLast = some .dir then .ok path else .error .notFound := by
    unfold follow
    cases links with
    | zero => exact seek_of_way h hway
    | succ links => exact seek_of_way h hway
  rw [hseek]
  refine if_congr (or_iff_right_of_imp ?_) rfl rfl
  rintro rfl
  exact t.top

theorem eq_of_directory (h : t.LinkFree path) {dir : { path // t.node path = some .dir }}
    (hdirectory : t.directory links path = .ok dir) : dir.1 = path := by
  unfold directory at hdirectory
  split at hdirectory
  · cases hdirectory
  · rename_i r hfollow
    split_ifs at hdirectory with hdir
    obtain rfl := Except.ok.inj hdirectory
    exact eq_of_follow h hfollow

theorem directory_of_dir (h : t.node path = some .dir) :
    t.directory links path = .ok ⟨path, h⟩ := by
  have hway : ∀ q, q <+: path → t.node q = some .dir := fun q hq => dir_above h hq
  have hfree : t.LinkFree path := by
    intro q hq target htarget
    cases (hway q hq).symm.trans htarget
  have hfollow : t.follow links path = .ok path := by
    rw [follow_of_way hfree fun q hq _ => Or.inr (hway q hq)]
    exact if_pos (hway _ (List.dropLast_prefix _))
  rw [directory, hfollow]
  exact dif_pos h

theorem directory_of_missing (hnone : t.node path = none)
    (hway : ∀ q, q <+: path → t.node q = none ∨ t.node q = some .dir) :
    t.directory links path = .error .notFound := by
  have hfree : t.LinkFree path := by
    intro q hq target htarget
    rcases hway q hq with hq | hq
    · cases hq.symm.trans htarget
    · cases hq.symm.trans htarget
  rw [directory, follow_of_way hfree fun q hq _ => hway q hq]
  split
  · rename_i e he
    split_ifs at he
    obtain rfl := Except.error.inj he
    rfl
  · rename_i r hr
    split_ifs at hr
    obtain rfl := Except.ok.inj hr
    rw [dif_neg (by rw [hnone]; exact (Option.some_ne_none _).symm), noDirectory, hnone]
    rfl

/-- Directories are made where nothing was, on the way to a path. -/
def Grows (t t' : FileTree Name Data) (path : List Name) : Prop :=
  ∀ q, t'.node q = t.node q ∨ (t.node q = none ∧ t'.node q = some .dir ∧ q <+: path)

omit [DecidableEq Name] [DecidableEq Data] in
theorem Grows.linkFree {q : List Name} (h : Grows t t' path) (hq : t.LinkFree q) :
    t'.LinkFree q := by
  intro prior hprior target htarget
  rcases h prior with hsame | ⟨-, hdir, -⟩
  · exact hq prior hprior target (hsame.symm.trans htarget)
  · rw [hdir] at htarget
    cases htarget

/-- What `makeDirs` has made. -/
theorem makeDirs_spec (hfree : t.LinkFree (path ++ names))
    (h : t.makeDirs links path names = .ok t') :
    Grows t t' (path ++ names) ∧ t'.node (path ++ names) = some .dir := by
  induction names generalizing t path with
  | nil =>
      rw [List.append_nil] at hfree ⊢
      rw [makeDirs] at h
      cases hdirectory : t.directory links path with
      | error e => rw [hdirectory] at h; cases h
      | ok dir =>
          rw [hdirectory] at h
          obtain rfl := Except.ok.inj h
          rw [← eq_of_directory hfree hdirectory]
          exact ⟨fun q => Or.inl rfl, dir.2⟩
  | cons name names ih =>
      have hpath : path ++ name :: names = path ++ [name] ++ names := by
        rw [List.append_assoc, List.singleton_append]
      rw [hpath] at hfree ⊢
      rw [makeDirs] at h
      split at h
      · cases h
      · rename_i dir hdirectory
        obtain ⟨dir, hdir⟩ := dir
        obtain rfl : dir = path := eq_of_directory
          (hfree.above ((List.prefix_append _ _).trans (List.prefix_append _ _))) hdirectory
        split_ifs at h with hnone
        · have hset : Grows t (t.set dir name (some .dir) hdir (by simp [hnone]))
              (dir ++ [name] ++ names) := by
            intro q
            rw [node_set]
            split
            · rename_i heq
              rw [heq]
              exact Or.inr ⟨hnone, rfl, List.prefix_append _ _⟩
            · exact Or.inl rfl
          obtain ⟨hgrows, hend⟩ := ih (hset.linkFree hfree) h
          refine ⟨fun q => ?_, hend⟩
          rcases hgrows q with hsame | ⟨hq, hq', hprefix⟩
          · rw [hsame]
            exact hset q
          · rcases hset q with hsame | ⟨-, hdir', -⟩
            · exact Or.inr ⟨hsame ▸ hq, hq', hprefix⟩
            · rw [hdir'] at hq
              cases hq
        · exact ih hfree h

/-- `makeDirs` succeeds where no file or link is on the way. -/
theorem exists_makeDirs (hdir : t.node path = some .dir)
    (hway : ∀ q, q <+: path ++ names → t.node q = none ∨ t.node q = some .dir) :
    ∃ t', t.makeDirs links path names = .ok t' := by
  induction names generalizing t path with
  | nil =>
      rw [makeDirs, directory_of_dir hdir]
      exact ⟨t, rfl⟩
  | cons name names ih =>
      have hpath : path ++ name :: names = path ++ [name] ++ names := by
        rw [List.append_assoc, List.singleton_append]
      rw [hpath] at hway
      rw [makeDirs, directory_of_dir hdir]
      dsimp only
      split
      · refine ih (by rw [node_set, if_pos rfl]) fun q hq => ?_
        rw [node_set]
        split
        · exact Or.inr rfl
        · exact hway q hq
      · rename_i hsome
        exact ih ((hway _ (List.prefix_append _ _)).resolve_left hsome) hway

/-- What a file has changed: the one path. -/
theorem place_spec (h : t.place path data = .ok t') :
    ∀ q, t'.node q = if q = path then some (.file data) else t.node q := by
  unfold place at h
  split at h
  · cases h
  · rename_i name hlast
    have hpath : path.dropLast ++ [name] = path := by
      obtain ⟨front, rfl⟩ := List.getLast?_eq_some_iff.mp hlast
      rw [List.dropLast_concat]
    split_ifs at h
    obtain rfl := Except.ok.inj h
    intro q
    rw [node_set, hpath]

/-- What is written to a path without links is written there. -/
theorem write_spec (hfree : t.LinkFree path) (h : t.write links path data = .ok t') :
    ∀ q, t'.node q = if q = path then some (.file data) else t.node q := by
  unfold write at h
  split at h
  · cases h
  · rename_i r hfollow
    rw [eq_of_follow hfree hfollow] at h
    exact place_spec h

/-- A file may be put into a directory, over a file or nothing. -/
theorem exists_write {name : Name} (hdir : t.node path = some .dir)
    (hleaf : t.node (path ++ [name]) = none ∨ ∃ data, t.node (path ++ [name]) = some (.file data)) :
    ∃ t', t.write links (path ++ [name]) data = .ok t' := by
  have hway : ∀ q, q <+: path ++ [name] → q ≠ path ++ [name] → t.node q = some .dir := by
    intro q hq hne
    exact dir_above hdir ((List.prefix_concat_iff.mp hq).resolve_left hne)
  have hfree : t.LinkFree (path ++ [name]) := by
    refine LinkFree.concat (fun q hq target htarget => ?_) fun target htarget => ?_
    · cases (dir_above hdir hq).symm.trans htarget
    · rcases hleaf with hnone | ⟨data, hfile⟩
      · cases hnone.symm.trans htarget
      · cases hfile.symm.trans htarget
  have hdir' : ¬ t.node (path ++ [name]) = some .dir := by
    rintro hdir'
    rcases hleaf with hnone | ⟨data, hfile⟩
    · cases hnone.symm.trans hdir'
    · cases hfile.symm.trans hdir'
  rw [write, follow_of_way hfree fun q hq hne => Or.inr (hway q hq hne), List.dropLast_concat,
    if_pos hdir]
  dsimp only
  unfold place
  rw [List.getLast?_concat, List.dropLast_concat]
  dsimp only
  rw [dif_pos hdir, dif_neg hdir']
  exact ⟨_, rfl⟩

/-- After `unlink` nothing is at the path, and the rest is as it was. -/
theorem unlink_spec (hfree : t.LinkFree path) (h : t.unlink links path = .ok t') :
    ∀ q, t'.node q = if q = path then none else t.node q := by
  have hmissing : t.node path = none → ∀ q, t.node q = if q = path then none else t.node q := by
    intro hnone q
    split
    · rename_i heq
      rw [heq, hnone]
    · rfl
  unfold unlink at h
  split at h
  · cases h
  · rename_i name hlast
    have hpath : path.dropLast ++ [name] = path := by
      obtain ⟨front, rfl⟩ := List.getLast?_eq_some_iff.mp hlast
      rw [List.dropLast_concat]
    split at h
    · rename_i hdirectory
      obtain rfl := Except.ok.inj h
      refine hmissing (by_contra fun hsome => ?_)
      rw [directory_of_dir (t.parent path.dropLast name (by rwa [hpath]))] at hdirectory
      cases hdirectory
    · cases h
    · rename_i dir hdirectory
      obtain ⟨dir, hdir⟩ := dir
      obtain rfl : dir = path.dropLast :=
        eq_of_directory (hfree.above (List.dropLast_prefix _)) hdirectory
      split_ifs at h with hleaf hnone
      · obtain rfl := Except.ok.inj h
        exact hmissing (hpath ▸ hnone)
      · obtain rfl := Except.ok.inj h
        intro q
        rw [node_set, hpath]

/-- A file or nothing can be taken away, where only directories are on the way. -/
theorem exists_unlink (hne : path ≠ [])
    (hway : ∀ q, q <+: path → q ≠ path → t.node q = none ∨ t.node q = some .dir)
    (hleaf : t.node path ≠ some .dir) : ∃ t', t.unlink links path = .ok t' := by
  have hlast := List.dropLast_append_getLast hne
  have hshort : path.dropLast ≠ path := by
    intro heq
    have hlength := congrArg List.length heq
    have hpos := List.length_pos_iff.mpr hne
    rw [List.length_dropLast] at hlength
    omega
  unfold unlink
  rw [List.getLast?_eq_some_getLast hne]
  dsimp only
  rcases hway _ (List.dropLast_prefix _) hshort with hnone | hdir
  · rw [directory_of_missing hnone fun q hq => hway q (hq.trans (List.dropLast_prefix _)) ?_]
    · exact ⟨t, rfl⟩
    · rintro rfl
      exact hshort (hq.eq_of_length_le (by rw [List.length_dropLast]; omega)).symm
  · rw [directory_of_dir hdir]
    dsimp only
    rw [dif_neg (by rwa [hlast])]
    split
    · exact ⟨t, rfl⟩
    · exact ⟨_, rfl⟩

end FileTree
end Storage
end EvidenceLab
