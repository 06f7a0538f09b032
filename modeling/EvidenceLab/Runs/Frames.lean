/-
# What a program leaves alone

A program over a session keeps a property of the data if it holds, at its end, of what is
committed and of what the session sees, whichever way it ends.  There is one rule for each
operation, so a program keeps what each of its changes keeps.  Unlike a weakest precondition
this says nothing of where the program has got to: it is the rule for the columns that a
program does not write.
-/

import EvidenceLab.Runs.Session

namespace EvidenceLab
namespace Runs
namespace Session

variable {ε D ρ α β : Type} {I : D → Prop}

/-- The property holds of what is committed and of what the session sees. -/
def Both (I : D → Prop) (t : Txn D) : Prop := I t.committed ∧ I t.working

/-- **The program keeps the property**, however it ends. -/
def Preserves (I : D → Prop) (program : Session ε D α) : Prop :=
  ∀ t, Both I t → Both I (program t).2

theorem preserves_pure (a : α) : Preserves I (pure a : Session ε D α) := fun _ => id

theorem preserves_raise (e : ε) : Preserves I (raise e : Session ε D α) := fun _ => id

theorem preserves_ask (reply : Except ε α) : Preserves I (ask reply : Session ε D α) :=
  fun _ => id

theorem preserves_await (reply : Option ε) : Preserves I (await reply : Session ε D Unit) :=
  fun _ => id

theorem preserves_current : Preserves I (current : Session ε D D) := fun _ => id

theorem preserves_change {f : D → D} (h : ∀ d, I d → I (f d)) :
    Preserves I (change f : Session ε D Unit) := fun _ ht => ⟨ht.1, h _ ht.2⟩

theorem preserves_commit (reply : CommitReply ε) : Preserves I (commit reply : Session ε D Unit) :=
  fun t ht => by
    cases reply with
    | done => exact ⟨ht.2, ht.2⟩
    | lost e => exact ht
    | landed e => exact ⟨ht.2, ht.2⟩

theorem preserves_rollback (reply : Option ε) : Preserves I (rollback reply : Session ε D Unit) :=
  fun t ht => by
    cases reply with
    | none => exact ⟨ht.1, ht.1⟩
    | some e => exact ht

theorem Preserves.bind {program : Session ε D α} {next : α → Session ε D β}
    (h : Preserves I program) (hnext : ∀ a, Preserves I (next a)) :
    Preserves I (program >>= next) := by
  intro t ht
  have hfirst := h t ht
  rcases ends program t with ⟨a, t', hp⟩ | ⟨e, t', hp⟩
  · rw [hp] at hfirst
    have hrun : (program >>= next) t = next a t' := by simp only [Bind.bind, hp]
    rw [hrun]
    exact hnext a t' hfirst
  · rw [hp] at hfirst
    have hrun : (program >>= next) t = (.error e, t') := by simp only [Bind.bind, hp]
    rw [hrun]
    exact hfirst

theorem Preserves.ite {program program' : Session ε D α} {c : Prop} [Decidable c]
    (h : Preserves I program) (h' : Preserves I program') :
    Preserves I (if c then program else program') := by
  split
  · exact h
  · exact h'

theorem Preserves.handling {program : Session ε D α} {handler : ε → Session ε D α}
    (h : Preserves I program) (hhandler : ∀ e, Preserves I (handler e)) :
    Preserves I (handling program handler) := by
  intro t ht
  have hfirst := h t ht
  rcases ends program t with ⟨a, t', hp⟩ | ⟨e, t', hp⟩
  · rw [hp] at hfirst
    simp only [Session.handling, hp]
    exact hfirst
  · rw [hp] at hfirst
    simp only [Session.handling, hp]
    exact hhandler e t' hfirst

theorem Preserves.ensuring {program : Session ε D α} {final : Session ε D Unit}
    (h : Preserves I program) (hfinal : Preserves I final) :
    Preserves I (ensuring program final) := by
  intro t ht
  have hfirst := h t ht
  rcases ends program t with ⟨a, t', hp⟩ | ⟨e, t', hp⟩
  · rw [hp] at hfirst
    simp only [Session.ensuring, hp]
    exact (hfinal.bind fun _ => preserves_pure a) t' hfirst
  · rw [hp] at hfirst
    simp only [Session.ensuring, hp]
    exact (hfinal.bind fun _ => preserves_raise e) t' hfirst

theorem preserves_amend (replies : AmendReplies ε) (row : D → Option ρ) {f : D → D}
    (h : ∀ d, I d → I (f d)) : Preserves I (amend replies row f : Session ε D Unit) := by
  refine (preserves_rollback _).bind fun _ => (preserves_await _).bind fun _ => ?_
  refine preserves_current.bind fun d => ?_
  split
  · exact preserves_pure _
  · exact (preserves_change h).bind fun _ => preserves_commit _

/-- What is committed after an amendment: what was, or that amended. -/
theorem wp_amend_committed {replies : AmendReplies ε} {row : D → Option ρ} {f : D → D} {t : Txn D}
    (h : I t.committed) (hf : I (f t.committed)) :
    wp (amend replies row f) (fun _ t => I t.committed) (fun _ t => I t.committed) t := by
  simp only [amend, wp_bind, wp_rollback, wp_await, wp_current]
  refine ⟨fun _ => ⟨fun _ => ?_, fun _ _ => h⟩, fun _ _ => h⟩
  split
  · exact h
  · simp only [wp_bind, wp_change, wp_commit]
    refine ⟨fun _ _ => hf, fun _ _ => ?_⟩
    split
    · exact hf
    · exact h

/-- **What a program keeps holds of what it leaves.** -/
theorem Preserves.perform {program : Session ε D α} (h : Preserves I program) {d : D} (hd : I d) :
    I (perform program d).2 := (h ⟨d, d⟩ ⟨hd, hd⟩).1

end Session
end Runs
end EvidenceLab
