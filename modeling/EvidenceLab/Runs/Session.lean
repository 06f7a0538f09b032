/-
# Database sessions

A session keeps its changes to itself until a commit makes them the database's.
A program over a session is a computation that may raise; what each call of the
database answers is given to the program from outside, so a program is a function
of these answers and of the data it finds.

A commit that raises may have been carried out or not: the connection can be lost,
or the task cancelled, while the answer is on its way.

`wp program Q R` is the weakest precondition of a program: `Q` holds of what it
returns and of the state then, or `R` of what it raises.  Every operation has one
equation for it, so a goal about a program unfolds into one about its data.
-/

import Mathlib.Control.Basic

namespace EvidenceLab
namespace Runs

variable {ε D ρ α β : Type}

/-- What the database holds, and the same with the changes of the session. -/
structure Txn (D : Type) where
  committed : D
  working : D

/-- The answer to a commit: it is done, or it raises without or with having been done. -/
inductive CommitReply (ε : Type)
  | done
  | lost (e : ε)
  | landed (e : ε)

/-- The changes of the session are in the database. -/
def CommitReply.Lands : CommitReply ε → Prop
  | done => True
  | lost _ => False
  | landed _ => True

instance : DecidablePred (CommitReply.Lands (ε := ε))
  | .done => .isTrue trivial
  | .lost _ => .isFalse id
  | .landed _ => .isTrue trivial

/-- What the commit raises. -/
def CommitReply.raised : CommitReply ε → Option ε
  | done => none
  | lost e => some e
  | landed e => some e

@[simp] theorem CommitReply.lands_done : (done : CommitReply ε).Lands := trivial
@[simp] theorem CommitReply.not_lands_lost (e : ε) : ¬ (lost e).Lands := id
@[simp] theorem CommitReply.lands_landed (e : ε) : (landed e).Lands := trivial
@[simp] theorem CommitReply.raised_done : (done : CommitReply ε).raised = none := rfl
@[simp] theorem CommitReply.raised_lost (e : ε) : (lost e).raised = some e := rfl
@[simp] theorem CommitReply.raised_landed (e : ε) : (landed e).raised = some e := rfl

/-- A commit that raises nothing is carried out. -/
theorem CommitReply.lands_of_raised {answer : CommitReply ε} (h : answer.raised = none) :
    answer.Lands := by
  cases answer with
  | done => exact lands_done
  | lost e => cases h
  | landed e => cases h

/-- Programs over a session: they return or raise, and leave a state. -/
def Session (ε D α : Type) := Txn D → Except ε α × Txn D

/-- The outcome of a call that answers with nothing, or raises. -/
def reply : Option ε → Except ε Unit
  | none => .ok ()
  | some e => .error e

namespace Session

instance : Monad (Session ε D) where
  pure a := fun t => (.ok a, t)
  bind program next := fun t =>
    match program t with
    | (.ok a, t') => next a t'
    | (.error e, t') => (.error e, t')

/-! ### Operations -/

/-- Raises. -/
def raise (e : ε) : Session ε D α := fun t => (.error e, t)

/-- A call outside the database that answers with a value or raises. -/
def ask (reply : Except ε α) : Session ε D α := fun t => (reply, t)

/-- A call that may raise, and answers with nothing else. -/
def await (reply : Option ε) : Session ε D Unit :=
  fun t => (match reply with | none => .ok () | some e => .error e, t)

/-- What the session sees of the data. -/
def current : Session ε D D := fun t => (.ok t.working, t)

/-- A change that stays in the session. -/
def change (f : D → D) : Session ε D Unit := fun t => (.ok (), { t with working := f t.working })

/-- Commits the changes of the session. -/
def commit (reply : CommitReply ε) : Session ε D Unit := fun t =>
  match reply with
  | .done => (.ok (), { t with committed := t.working })
  | .lost e => (.error e, t)
  | .landed e => (.error e, { t with committed := t.working })

/-- Drops the changes of the session. -/
def rollback (reply : Option ε) : Session ε D Unit := fun t =>
  match reply with
  | none => (.ok (), { t with working := t.committed })
  | some e => (.error e, t)

/-- Runs a program, and the handler in the state it leaves when it raises. -/
def handling (program : Session ε D α) (handler : ε → Session ε D α) : Session ε D α := fun t =>
  match program t with
  | (.ok a, t') => (.ok a, t')
  | (.error e, t') => handler e t'

/-- Runs a program, and then another whether or not it raises; what that one raises is
raised instead. -/
def ensuring (program : Session ε D α) (final : Session ε D Unit) : Session ε D α := fun t =>
  match program t with
  | (.ok a, t') => (final >>= fun _ => pure a) t'
  | (.error e, t') => (final >>= fun _ => raise e) t'

/-- The answers to `amend`. -/
structure AmendReplies (ε : Type) where
  rollback : Option ε
  lookup : Option ε
  commit : CommitReply ε

/-- The amendment gets to its commit, and that is carried out. -/
def AmendReplies.Recorded (replies : AmendReplies ε) : Prop :=
  replies.rollback = none ∧ replies.lookup = none ∧ replies.commit.Lands

/-- Drops the changes of the session, reads a row again and, if it is there, changes it
and commits the change. -/
def amend (replies : AmendReplies ε) (row : D → Option ρ) (f : D → D) : Session ε D Unit := do
  rollback replies.rollback
  await replies.lookup
  match row (← current) with
  | none => return ()
  | some _ =>
      change f
      commit replies.commit

/-- Runs a program in a session of its own, which is closed at its end: what it did
not commit is gone. -/
def perform (program : Session ε D α) (d : D) : Except ε α × D :=
  let r := program ⟨d, d⟩
  (r.1, r.2.committed)

/-! ### Weakest preconditions -/

/-- The weakest precondition of a program for what it returns and what it raises. -/
def wp (program : Session ε D α) (Q : α → Txn D → Prop) (R : ε → Txn D → Prop) (t : Txn D) : Prop :=
  match program t with
  | (.ok a, t') => Q a t'
  | (.error e, t') => R e t'

variable {Q Q' : α → Txn D → Prop} {R R' : ε → Txn D → Prop} {t : Txn D}

theorem wp_of_ok {program : Session ε D α} {a : α} {t' : Txn D} (h : program t = (.ok a, t')) :
    wp program Q R t ↔ Q a t' := by
  rw [wp, h]

theorem wp_of_error {program : Session ε D α} {e : ε} {t' : Txn D}
    (h : program t = (.error e, t')) : wp program Q R t ↔ R e t' := by
  rw [wp, h]

/-- A program that is run returns or raises. -/
theorem ends (program : Session ε D α) (t : Txn D) :
    (∃ a t', program t = (.ok a, t')) ∨ ∃ e t', program t = (.error e, t') := by
  rcases h : program t with ⟨e | a, t'⟩
  · exact Or.inr ⟨e, t', rfl⟩
  · exact Or.inl ⟨a, t', rfl⟩

/-- What holds of a program's end holds of its end in a session of its own. -/
theorem perform_of_wp {program : Session ε D α} {d : D} (h : wp program Q R ⟨d, d⟩) :
    (∃ a t, perform program d = (.ok a, t.committed) ∧ Q a t) ∨
      ∃ e t, perform program d = (.error e, t.committed) ∧ R e t := by
  rcases ends program ⟨d, d⟩ with ⟨a, t, hp⟩ | ⟨e, t, hp⟩
  · exact Or.inl ⟨a, t, by rw [perform, hp], (wp_of_ok hp).mp h⟩
  · exact Or.inr ⟨e, t, by rw [perform, hp], (wp_of_error hp).mp h⟩

/-- What holds of the committed data however a program ends holds of what it leaves. -/
theorem committed_of_wp {program : Session ε D α} {d : D} {P : D → Prop}
    (h : wp program (fun _ t => P t.committed) (fun _ t => P t.committed) ⟨d, d⟩) :
    P (perform program d).2 := by
  rcases perform_of_wp h with ⟨a, t, hp, hP⟩ | ⟨e, t, hp, hP⟩
  · rw [hp]
    exact hP
  · rw [hp]
    exact hP

/-- Postconditions may be weakened. -/
theorem wp_mono {program : Session ε D α} (h : wp program Q R t) (hQ : ∀ a t, Q a t → Q' a t)
    (hR : ∀ e t, R e t → R' e t) : wp program Q' R' t := by
  rcases ends program t with ⟨a, t', hp⟩ | ⟨e, t', hp⟩
  · exact (wp_of_ok hp).mpr (hQ a t' ((wp_of_ok hp).mp h))
  · exact (wp_of_error hp).mpr (hR e t' ((wp_of_error hp).mp h))

@[simp] theorem wp_pure (a : α) : wp (pure a : Session ε D α) Q R t ↔ Q a t := Iff.rfl

@[simp] theorem wp_raise (e : ε) : wp (raise e : Session ε D α) Q R t ↔ R e t := Iff.rfl

@[simp] theorem wp_bind {program : Session ε D α} {next : α → Session ε D β}
    {Q : β → Txn D → Prop} :
    wp (program >>= next) Q R t ↔ wp program (fun a => wp (next a) Q R) R t := by
  simp only [wp, bind]
  rcases ends program t with ⟨a, t', hp⟩ | ⟨e, t', hp⟩ <;> rw [hp]

@[simp] theorem wp_handling {program : Session ε D α} {handler : ε → Session ε D α} :
    wp (handling program handler) Q R t ↔ wp program Q (fun e => wp (handler e) Q R) t := by
  simp only [wp, handling]
  rcases ends program t with ⟨a, t', hp⟩ | ⟨e, t', hp⟩ <;> rw [hp]

@[simp] theorem wp_ensuring {program : Session ε D α} {final : Session ε D Unit} :
    wp (ensuring program final) Q R t ↔
      wp program (fun a => wp final (fun _ => Q a) R) (fun e => wp final (fun _ => R e) R) t := by
  simp only [wp, ensuring]
  rcases ends program t with ⟨a, t', hp⟩ | ⟨e, t', hp⟩ <;> rw [hp]
  · exact wp_bind
  · exact wp_bind

@[simp] theorem wp_current {Q : D → Txn D → Prop} : wp current Q R t ↔ Q t.working t := Iff.rfl

@[simp] theorem wp_change {Q : Unit → Txn D → Prop} (f : D → D) :
    wp (change f) Q R t ↔ Q () { t with working := f t.working } := Iff.rfl

theorem wp_ask {reply : Except ε α} :
    wp (ask reply) Q R t ↔ (∀ a, reply = .ok a → Q a t) ∧ ∀ e, reply = .error e → R e t := by
  cases reply <;> simp [wp, ask]

theorem wp_await {Q : Unit → Txn D → Prop} {reply : Option ε} :
    wp (await reply) Q R t ↔ (reply = none → Q () t) ∧ ∀ e, reply = some e → R e t := by
  cases reply <;> simp [wp, await]

theorem wp_rollback {Q : Unit → Txn D → Prop} {reply : Option ε} :
    wp (rollback reply) Q R t ↔
      (reply = none → Q () { t with working := t.committed }) ∧ ∀ e, reply = some e → R e t := by
  cases reply <;> simp [wp, rollback]

/-- A commit that returns has landed; one that raises may have. -/
theorem wp_commit {Q : Unit → Txn D → Prop} {reply : CommitReply ε} :
    wp (commit reply) Q R t ↔
      (reply.raised = none → reply.Lands → Q () { t with committed := t.working }) ∧
      ∀ e, reply.raised = some e →
        R e (if reply.Lands then { t with committed := t.working } else t) := by
  cases reply <;> simp [wp, commit]

/-- A row that is there is amended and committed, or the program raises; what was
committed is as it was unless the amendment is recorded. -/
theorem wp_amend {replies : AmendReplies ε} {row : D → Option ρ} {f : D → D} {r : ρ}
    (hrow : row t.committed = some r) :
    wp (amend replies row f)
      (fun _ t' => replies.Recorded ∧ t' = ⟨f t.committed, f t.committed⟩)
      (fun _ t' => (replies.Recorded ∧ t'.committed = f t.committed) ∨
        (¬ replies.Recorded ∧ t'.committed = t.committed)) t := by
  simp only [amend, wp_bind, wp_rollback, wp_await, wp_current, hrow]
  constructor
  · intro hroll
    constructor
    · intro hlook
      simp only [wp_change, wp_commit]
      refine ⟨fun _ hlands => ⟨⟨hroll, hlook, hlands⟩, trivial⟩, ?_⟩
      intro e _
      by_cases hlands : replies.commit.Lands
      · rw [if_pos hlands]
        exact Or.inl ⟨⟨hroll, hlook, hlands⟩, rfl⟩
      · rw [if_neg hlands]
        exact Or.inr ⟨fun h => hlands h.2.2, rfl⟩
    · intro e hlook
      refine Or.inr ⟨?_, trivial⟩
      rintro ⟨-, h, -⟩
      cases hlook.symm.trans h
  · intro e hroll
    refine Or.inr ⟨?_, trivial⟩
    rintro ⟨h, -⟩
    cases hroll.symm.trans h

end Session
end Runs
end EvidenceLab
