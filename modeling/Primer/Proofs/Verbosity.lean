import Primer.Proofs.Reach

/-! Runs at two levels of verbosity. Main statement: a run that traces less says the same
and ends the same way, and its trace is the part of the other trace that belongs to its
level. It may differ only where the run that traces more comes to a message that cannot
be written, and ends there with a fault. -/
namespace Primer

open Outcome

/-- Whether an event shows at a level of verbosity. -/
def Event.shows (verbosity : Nat) : Event → Bool
  | .line _ => true
  | .trace level _ => decide (level ≤ verbosity)

namespace Outcome

/-- An outcome without the messages that belong to higher levels. -/
def upTo (verbosity : Nat) (o : Outcome) : Outcome :=
  ⟨o.events.filter (Event.shows verbosity), o.scope, o.failure⟩

/-- The first outcome is the part of the second that shows, unless that ended with a fault. -/
def Quiets (verbosity : Nat) (o p : Outcome) : Prop := o = p.upTo verbosity ∨ p.Faulted

variable {i : Nat}

theorem quiets_fail (s : Scope) (f : Failure) : Quiets i (fail s f) (fail s f) := .inl rfl

theorem quiets_done (s : Scope) : Quiets i (done s) (done s) := .inl rfl

theorem quiets_say (s : Scope) (text : String) : Quiets i (Outcome.say s text) (Outcome.say s text) :=
  .inl rfl

theorem Quiets.scope {o p : Outcome} (quiets : Quiets i o p) (ended : p.failure = none) :
    o.scope = p.scope := by
  rcases quiets with rfl | ⟨f, failed⟩
  · rfl
  · cases failed.symm.trans ended

theorem Quiets.andThen {o p : Outcome} {next next' : Scope → Outcome} (first : Quiets i o p)
    (rest : o.failure = none → p.failure = none → Quiets i (next o.scope) (next' p.scope)) :
    Quiets i (o.andThen next) (p.andThen next') := by
  rcases first with rfl | faulted
  · -- hiding messages changes neither the scope nor the failure, so both go on or neither does
    cases ended : p.failure with
    | some f =>
      left
      simp only [Outcome.andThen, upTo, ended]
    | none =>
      rcases rest ended ended with same | faulted
      · left
        simp only [upTo] at same
        simp only [Outcome.andThen, upTo, ended, same, List.filter_append]
      · exact .inr (faulted_andThen.mpr (.inr ⟨ended, faulted⟩))
  · exact .inr (faulted_andThen.mpr (.inl faulted))

theorem quiets_traced {j : Nat} (le : i ≤ j) (level : Nat) (text : Unit → Except Fault String)
    (s : Scope) : Quiets i (traced i level text s) (traced j level text s) := by
  unfold traced
  by_cases traces : level ≤ j
  · rw [if_pos traces]
    cases written : text () with
    | error f => exact .inr ⟨f, rfl⟩
    | ok message =>
      left
      by_cases low : level ≤ i
      · simp [attempt, upTo, Event.shows, low]
      · simp [attempt, upTo, Event.shows, low, done]
  · have silent : ¬ level ≤ i := fun low => traces (Nat.le_trans low le)
    rw [if_neg traces, if_neg silent]
    exact quiets_done s

theorem Quiets.leave {o p : Outcome} (quiets : Quiets i o p) : Quiets i o.leave p.leave := by
  rcases quiets with rfl | faulted
  · exact .inl rfl
  · exact .inr (faulted_leave.mpr faulted)

theorem Quiets.stamp {o p : Outcome} (quiets : Quiets i o p) (offset : Datum) :
    Quiets i (o.stamp offset) (p.stamp offset) := by
  rcases quiets with rfl | faulted
  · left
    unfold Outcome.stamp
    simp only [upTo]
    split <;> simp_all
  · exact .inr (faulted_stamp.mpr faulted)

end Outcome

theorem quiets_congruence {i j : Nat} (le : i ≤ j) :
    Congruence i j (fun _ => True) (fun _ => True) (fun _ => True) (fun _ o p => Quiets i o p) where
  runs _ _ _ := trivial
  child _ := trivial
  done {s} _ := quiets_done s
  fail {_ _ t f} _ _ _ _ := quiets_fail t f
  say {s} line _ := quiets_say s line
  set _ _ _ := quiets_done _
  executes {_ s} _ _ := quiets_traced le 1 _ s
  traces {_ _ t level _} _ _ _ _ := quiets_traced le level _ t
  ends quiets _ ended := ⟨quiets.scope ended, trivial⟩
  andThen := .andThen
  leave _ := .leave
  stamp offset quiets := quiets.stamp offset

theorem runAll_quiets {i j : Nat} (le : i ≤ j) (limit : Nat) (nodes : List Node) (s : Scope) :
    Quiets i (runAll (execute i limit) nodes s) (runAll (execute j limit) nodes s) := by
  have nested := execute_congruence (quiets_congruence le) (fun s _ => quiets_fail s _) limit
  exact runAll_congruence (quiets_congruence le) nested trivial fun _ _ => trivial

/-- A program says the same and ends the same way whether more or less is traced, unless
tracing more ends it with a fault. -/
theorem runNode_quiets {i j : Nat} (le : i ≤ j) (limit : Nat) (program : Node) :
    Quiets i (runNode i limit program).outcome (runNode j limit program).outcome := by
  cases program with
  | program body =>
    simp only [runNode]
    cases functionTable body with
    | error f => exact quiets_fail _ _
    | ok functions => exact runAll_quiets le limit body (globalScope functions)
  | _ => exact quiets_fail _ _

end Primer
