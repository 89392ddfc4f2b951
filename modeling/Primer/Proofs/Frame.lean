import Primer.Proofs.Lockstep

/-! What an execution may change. A statement writes to the variables of its own
frame only: the frames around it and all functions stay as they are, however the
execution ends. A block or a call does not even write there. -/
namespace Primer

/-- A scope that differs from another at most in the variables of the own frame. -/
structure Confined (before after : Scope) : Prop where
  parents : after.parents = before.parents
  functions : after.frame.functions = before.frame.functions

namespace Confined

theorem refl (s : Scope) : Confined s s := ⟨rfl, rfl⟩

theorem trans {s t u : Scope} (first : Confined s t) (second : Confined t u) : Confined s u :=
  ⟨second.parents.trans first.parents, second.functions.trans first.functions⟩

theorem set (s : Scope) (k : Key) (v name : Datum) : Confined s (s.set k v name) := ⟨rfl, rfl⟩

theorem function? {s t : Scope} (kept : Confined s t) (k : Key) : t.function? k = s.function? k := by
  simp only [Scope.function?, Scope.frames, List.findSome?_cons, kept.parents, kept.functions]

/-- What is bound inside a new scope is gone once it is left. -/
theorem leave_eq {s t : Scope} (inside : Confined s.child t) : t.leave = s := by
  have around : t.parents = s.frame :: s.parents := inside.parents
  simp only [Scope.leave, around]

end Confined

namespace Outcome

theorem failure_andThen {o : Outcome} {next : Scope → Outcome} {f : Failure} :
    (o.andThen next).failure = some f ↔
      o.failure = some f ∨ o.failure = none ∧ (next o.scope).failure = some f := by
  unfold andThen
  cases ended : o.failure <;> simp [ended]

theorem failure_andThen_none {o : Outcome} {next : Scope → Outcome} :
    (o.andThen next).failure = none ↔ o.failure = none ∧ (next o.scope).failure = none := by
  unfold andThen
  cases ended : o.failure <;> simp [ended]

theorem andThen_confined {o : Outcome} {s : Scope} {next : Scope → Outcome}
    (first : Confined s o.scope) (rest : ∀ t, Confined t (next t).scope) :
    Confined s (o.andThen next).scope := by
  unfold andThen
  cases o.failure with
  | some f => exact first
  | none => exact first.trans (rest o.scope)

theorem attempt_confined {r : Except Fault α} {s t : Scope} {next : α → Outcome}
    (start : Confined s t) (rest : ∀ a, Confined s (next a).scope) :
    Confined s (attempt r t next).scope := by
  cases r with
  | ok a => exact rest a
  | error f => exact start

end Outcome

open Outcome

/-- No execution needs to know anything of its statement or scope to keep to the own frame. -/
theorem confined_invariant (verbosity : Nat) :
    Invariant verbosity (fun _ => True) (fun _ => True) (fun _ => True)
      (fun s o => Confined s o.scope) where
  runs _ _ _ := trivial
  child _ := trivial
  done {s} _ := .refl s
  fail {_ _ t _} _ _ _ _ := .refl t
  say {s} _ _ := .refl s
  set {_ s key value name} _ _ _ := .set s key value name
  executes {_ s} _ _ := by
    rw [scope_traced]
    exact .refl s
  traces {_ _ t _ _} _ _ _ _ := by
    rw [scope_traced]
    exact .refl t
  ends _ _ := trivial
  andThen {_ o _} first rest := by
    unfold andThen
    cases ended : o.failure with
    | some f => exact first
    | none => exact first.trans (rest ended)
  leave {s o} _ inside := by
    have back : o.leave.scope = s := inside.leave_eq
    rw [back]
    exact .refl s
  stamp offset kept := by
    rw [scope_stamp]
    exact kept

/-- An executor of nested statements that keeps to their own frames. -/
def ConfinedRun (run : Executor) : Prop := ∀ node s, Confined s (run node s).scope

theorem execute_confined (verbosity limit : Nat) : ConfinedRun (execute verbosity limit) :=
  fun _ _ => execute_invariant (confined_invariant verbosity) (fun s _ => .refl s) limit trivial trivial

section Confinement
variable {run : Executor} (nested : ConfinedRun run)
include nested

theorem runAll_confined (nodes : List Node) (s : Scope) : Confined s (runAll run nodes s).scope :=
  runAll_invariant (confined_invariant 0) (fun n s _ _ => nested n s) trivial fun _ _ => trivial

theorem runTimes_confined (body : Node) (n : Nat) (s : Scope) :
    Confined s (runTimes (run body) n s).scope :=
  runTimes_invariant (confined_invariant 0) (fun n s _ _ => nested n s) trivial trivial n

theorem bindParams_confined (caller : Scope) (pairs : List (Datum × Datum)) (s : Scope) :
    Confined s (bindParams run caller pairs s).scope :=
  bindParams_invariant (confined_invariant 0) (fun n s _ _ => nested n s) trivial pairs
    (fun _ _ _ _ s _ => .refl s) fun _ _ _ _ => trivial

theorem perform_confined (verbosity : Nat) (node : Node) (s : Scope) :
    Confined s (perform verbosity run node s).scope :=
  perform_invariant (confined_invariant verbosity) (fun n s _ _ => nested n s) trivial trivial

end Confinement

theorem block_scope {run : Executor} (nested : ConfinedRun run) (nodes : List Node)
    (s : Scope) : (runAll run nodes s.child).leave.scope = s :=
  (runAll_confined nested nodes s.child).leave_eq

theorem enter_scope {run : Executor} (nested : ConfinedRun run) (d : Definition)
    (args : List Datum) (s : Scope) : (enter run d args s).scope = s := by
  have params := bindParams_confined nested s (d.params.zip args) s.child
  exact (andThen_confined params (nested d.body)).leave_eq

theorem failNaming_scope (name : Datum) (s : Scope) (problem : String → Problem) :
    (failNaming name s problem).scope = s := by
  unfold failNaming attempt
  cases name.display <;> rfl

theorem andThen_scope {o : Outcome} {s : Scope} {next : Scope → Outcome} (first : o.scope = s)
    (rest : (next s).scope = s) : (o.andThen next).scope = s := by
  unfold andThen
  cases o.failure with
  | some f => exact first
  | none => rw [first]; exact rest

theorem runCall_scope (verbosity : Nat) {run : Executor} (nested : ConfinedRun run)
    (name : Datum) (args : List Datum) (s : Scope) :
    (runCall verbosity run name args s).scope = s := by
  unfold runCall
  cases name.key with
  | error f => rfl
  | ok key =>
    change (callFound verbosity run name args s (s.function? key)).scope = s
    cases s.function? key with
    | none => exact failNaming_scope ..
    | some d =>
      simp only [callFound]
      split
      · exact andThen_scope (scope_traced ..) (enter_scope nested d args s)
      · exact failNaming_scope ..

/-- Statements that run in a new scope, which is left when they end. -/
def Node.opensScope : Node → Bool
  | .block .. | .call .. => true
  | _ => false

theorem perform_opensScope (verbosity : Nat) {run : Executor} (nested : ConfinedRun run)
    {node : Node} (opens : node.opensScope = true) (s : Scope) :
    (perform verbosity run node s).scope = s := by
  cases node with
  | block nodes offset => exact block_scope nested nodes s
  | call name args offset => exact runCall_scope verbosity nested name args s
  | _ => cases opens

/-- However an execution ends, the frames around its scope and all functions are as
before, and after a block or a call so are the variables of the scope itself. -/
theorem execute_frame (verbosity limit : Nat) (node : Node) (s : Scope) :
    (execute verbosity limit node s).scope.parents = s.parents ∧
    (execute verbosity limit node s).scope.frame.functions = s.frame.functions ∧
    (node.opensScope = true →
      (execute verbosity limit node s).scope.frame.values = s.frame.values) := by
  have kept := execute_confined verbosity limit node s
  refine ⟨kept.parents, kept.functions, fun opens => ?_⟩
  cases limit with
  | zero => rfl
  | succ limit =>
    have nested := execute_confined verbosity limit
    have back : (executeWith verbosity (execute verbosity limit) node s).scope = s := by
      unfold executeWith
      rw [scope_stamp]
      exact andThen_scope (scope_traced ..) (perform_opensScope verbosity nested opens s)
    change (executeWith verbosity (execute verbosity limit) node s).scope.frame.values = _
    rw [back]

end Primer
