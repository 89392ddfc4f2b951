import Primer.Proofs.Frame

/-! The limit on nesting. An execution that its limit does not cut short is the same under
every larger limit: it says and traces the same, leaves the same scope and ends the same
way. -/
namespace Primer

open Outcome

namespace Outcome

/-- Cut short, because statements nested deeper than the limit. -/
def TooDeep (o : Outcome) : Prop := o.failure = some .tooDeep

theorem tooDeep_andThen {o : Outcome} {next : Scope → Outcome} :
    (o.andThen next).TooDeep ↔ o.TooDeep ∨ o.failure = none ∧ (next o.scope).TooDeep :=
  failure_andThen

theorem tooDeep_stamp {o : Outcome} {offset : Datum} : (o.stamp offset).TooDeep ↔ o.TooDeep := by
  unfold stamp TooDeep
  split
  · rename_i diagnostic
    simp [diagnostic]
  · rfl

theorem not_tooDeep_traced (verbosity level : Nat) (text : Unit → Except Fault String) (s : Scope) :
    ¬ (traced verbosity level text s).TooDeep := by
  unfold traced
  split
  · cases text () <;> nofun
  · nofun

/-- The second outcome is the first one, unless that was cut short. -/
def Lasts (o p : Outcome) : Prop := o.TooDeep ∨ p = o

theorem Lasts.refl (o : Outcome) : Lasts o o := .inr rfl

theorem Lasts.scope {o p : Outcome} (lasts : Lasts o p) (ended : o.failure = none) :
    o.scope = p.scope := by
  rcases lasts with deep | rfl
  · cases deep.symm.trans ended
  · rfl

theorem Lasts.andThen {o p : Outcome} {next next' : Scope → Outcome} (first : Lasts o p)
    (rest : o.failure = none → p.failure = none → Lasts (next o.scope) (next' p.scope)) :
    Lasts (o.andThen next) (p.andThen next') := by
  rcases first with deep | rfl
  · exact .inl (tooDeep_andThen.mpr (.inl deep))
  · cases ended : p.failure with
    | some f =>
      right
      simp only [Outcome.andThen, ended]
    | none =>
      rcases rest ended ended with deep | same
      · exact .inl (tooDeep_andThen.mpr (.inr ⟨ended, deep⟩))
      · right
        simp only [Outcome.andThen, ended, same]

theorem Lasts.leave {o p : Outcome} (lasts : Lasts o p) : Lasts o.leave p.leave :=
  lasts.imp id (congrArg Outcome.leave)

theorem Lasts.stamp {o p : Outcome} (lasts : Lasts o p) (offset : Datum) :
    Lasts (o.stamp offset) (p.stamp offset) :=
  lasts.imp tooDeep_stamp.mpr (congrArg (Outcome.stamp · offset))

end Outcome

theorem lasts_congruence (verbosity : Nat) :
    Congruence verbosity verbosity (fun _ => True) (fun _ => True) (fun _ => True)
      (fun _ o p => Lasts o p) where
  runs _ _ _ := trivial
  child _ := trivial
  done _ := .refl _
  fail _ _ _ _ := .refl _
  say _ _ := .refl _
  set _ _ _ := .refl _
  executes _ _ := .refl _
  traces _ _ _ _ := .refl _
  ends lasts ended _ := ⟨lasts.scope ended, trivial⟩
  andThen := .andThen
  leave _ := .leave
  stamp offset lasts := lasts.stamp offset

theorem execute_lasts (verbosity : Nat) {limit more : Nat} (le : limit ≤ more) (node : Node)
    (s : Scope) : Lasts (execute verbosity limit node s) (execute verbosity more node s) := by
  induction limit generalizing more node s with
  | zero => exact .inl rfl
  | succ limit ih =>
    cases more with
    | zero => omega
    | succ more =>
      have nested := ih (Nat.le_of_succ_le_succ le)
      exact executeWith_congruence (lasts_congruence verbosity) (fun n s _ _ => nested n s) trivial
        trivial

/-- Statements that their limit does not cut short are the same under every larger one. -/
theorem runAll_stable {verbosity limit more : Nat} {nodes : List Node} {s : Scope}
    (ends : ¬ (runAll (execute verbosity limit) nodes s).TooDeep) (le : limit ≤ more) :
    runAll (execute verbosity more) nodes s = runAll (execute verbosity limit) nodes s :=
  (runAll_congruence (lasts_congruence verbosity) (fun n s _ _ => execute_lasts verbosity le n s)
    trivial fun _ _ => trivial).resolve_left ends

end Primer
