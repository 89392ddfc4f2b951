import Primer.Proofs.Agreement
import Primer.Proofs.Failures

/-! The global variables of a run. Every body of a loop, a conditional or a function is a
block, so that of the statements directly in a program only the assignments bind names
in the global frame. Main statement: what a run leaves there is what its top-level
assignments alone leave there, up to the statement at which the run fails. -/
namespace Primer

open Outcome

def Node.isAssign : Node → Bool
  | .assign .. => true
  | _ => false

/-- An executor that leaves the scope of every statement but an assignment as it was. -/
def KeepsScope (run : Executor) : Prop :=
  ∀ ⦃node s⦄, node.WellFormed → node.isAssign = false → (run node s).scope = s

theorem attempt_scope {r : Except Fault α} {s : Scope} {next : α → Outcome}
    (rest : ∀ a, (next a).scope = s) : (attempt r s next).scope = s := by
  cases r with
  | ok a => exact rest a
  | error f => rfl

theorem block_not_assign {node : Node} (isBlock : node.isBlock = true) : node.isAssign = false := by
  cases node with
  | block => rfl
  | _ => cases isBlock

theorem alternative_not_assign {node : Node} (alternative : node.isAlternative = true) :
    node.isAssign = false := by
  cases node with
  | block | branch => rfl
  | _ => cases alternative

theorem runTimes_scope {run : Scope → Outcome} (kept : ∀ s, (run s).scope = s) (n : Nat) (s : Scope) :
    (runTimes run n s).scope = s := by
  induction n with
  | zero => rfl
  | succ n ih => exact andThen_scope (kept s) ih

section Kept
variable {run : Executor} (nested : KeepsScope run) (verbosity : Nat) (s : Scope)
include nested

theorem branch_scope {condition : Datum} {yes no : Node} {o : Datum} (isBlock : yes.isBlock = true)
    (formed : yes.WellFormed)
    (other : no = .missing ∨ no.isAlternative = true ∧ no.WellFormed) :
    (perform verbosity run (.branch condition yes no o) s).scope = s := by
  refine attempt_scope fun truth => andThen_scope (scope_traced ..) ?_
  cases truth with
  | true => exact nested formed (block_not_assign isBlock)
  | false =>
    rcases other with rfl | ⟨alternative, otherFormed⟩
    · rfl
    · cases no with
      | missing => rfl
      | _ => exact nested otherFormed (alternative_not_assign alternative)

theorem perform_scope (confined : ConfinedRun run) {node : Node} (formed : node.WellFormed)
    (other : node.isAssign = false) : (perform verbosity run node s).scope = s := by
  cases formed with
  | say => exact attempt_scope fun _ => rfl
  | @math op ns =>
    simp only [perform]
    cases op.apply ns with
    | ok n => exact attempt_scope fun _ => rfl
    | error p => rfl
  | block => exact block_scope confined _ s
  | loop _ isBlock body =>
    exact runTimes_scope (fun t => nested body (block_not_assign isBlock)) _ s
  | define => rfl
  | call => exact runCall_scope verbosity confined _ _ s
  | branch _ isBlock yes => exact branch_scope nested verbosity s isBlock yes (.inl rfl)
  | branchElse _ isBlock yes alternative no =>
    exact branch_scope nested verbosity s isBlock yes (.inr ⟨alternative, no⟩)
  | assign => cases other

end Kept

/-- No well-formed statement but an assignment changes the scope it is executed in. -/
theorem execute_keepsScope (verbosity limit : Nat) : KeepsScope (execute verbosity limit) := by
  induction limit with
  | zero => exact fun node s formed other => rfl
  | succ limit ih =>
    intro node s formed other
    have confined := execute_confined verbosity limit
    simp only [execute, executeWith, scope_stamp]
    exact andThen_scope (scope_traced ..) (perform_scope ih verbosity s confined formed other)

/-- Two scopes without frames around them and with the same variables. Their functions
may differ. -/
structure SameVariables (s t : Scope) : Prop where
  values : s.frame.values = t.frame.values
  left : s.parents = []
  right : t.parents = []

theorem SameVariables.get {s t : Scope} (same : SameVariables s t) (k : Key) : s.get k = t.get k := by
  simp only [Scope.get, Scope.frames, same.values, same.left, same.right, List.findSome?_cons]

theorem SameVariables.set {s t : Scope} (same : SameVariables s t) (k : Key) (v name : Datum) :
    SameVariables (s.set k v name) (t.set k v name) := by
  refine ⟨?_, same.left, same.right⟩
  simp only [Scope.set, same.values]

theorem failure_stamp_none {o : Outcome} {offset : Datum} :
    (o.stamp offset).failure = none ↔ o.failure = none := by
  unfold stamp
  split
  · rename_i failed
    simp [failed]
  · rfl

/-- An assignment binds its name, or it fails before that, whatever the scope. -/
theorem execute_assign (verbosity limit : Nat) (name : List Char) {value : Datum}
    (isValue : value.IsValue) (o : Datum) :
    (∀ s : Scope, s.Valid → (execute verbosity limit (.assign (textOf name) value o) s).Ends
        (s.set (.text (String.ofList name)) (s.assigned value) (textOf name))) ∨
    ∀ s : Scope, (execute verbosity limit (.assign (textOf name) value o) s).failure ≠ none ∧
      (execute verbosity limit (.assign (textOf name) value o) s).scope = s := by
  cases limit with
  | zero => exact .inr fun s => ⟨nofun, rfl⟩
  | succ limit =>
    simp only [execute, executeWith, failure_stamp_none, scope_stamp, Ends, ne_eq]
    let shown : Unit → Except Fault String := fun _ => executeText (.assign (textOf name) value o)
    have trace : ∀ s, (traced verbosity 1 shown s).Faulted ↔ 1 ≤ verbosity ∧ ∃ f, shown () = .error f :=
      fun s => faulted_traced
    by_cases faulted : 1 ≤ verbosity ∧ ∃ f, shown () = .error f
    · refine .inr fun s => ?_
      obtain ⟨f, failed⟩ := (trace s).mpr faulted
      rw [andThen, failed]
      refine ⟨fun ended => ?_, scope_traced ..⟩
      cases failed.symm.trans ended
    · refine .inl fun s valid => ?_
      have ended := traced_ends (mt (trace s).mp faulted)
      have bound := Scope.assigned_isValue valid isValue
      refine ends_andThen.mpr ⟨ended.1, ?_⟩
      rw [ended.2]
      refine ⟨runBinding_ends verbosity "set" name bound s, ?_⟩
      simp only [perform, runBinding, key_textOf, attempt, scope_traced]

/-- The assignments alone, executed in a scope with the same variables. -/
theorem runAll_assigned {verbosity limit : Nat} {nodes : List Node}
    (formed : ∀ n ∈ nodes, n.WellFormed) {s t : Scope} (same : SameVariables s t) (valid : s.Valid)
    (validOther : t.Valid) {u : Scope} (ends : (runAll (execute verbosity limit) nodes s).Ends u) :
    ∃ w, (runAll (execute verbosity limit) (nodes.filter Node.isAssign) t).Ends w ∧
      SameVariables u w := by
  induction nodes generalizing s t with
  | nil =>
    obtain ⟨-, rfl⟩ := ends
    exact ⟨t, ⟨rfl, rfl⟩, same⟩
  | cons node nodes ih =>
    obtain ⟨first, others⟩ := List.forall_mem_cons.mp formed
    obtain ⟨ended, ends⟩ := ends_andThen.mp ends
    cases isAssign : node.isAssign with
    | false =>
      rw [execute_keepsScope verbosity limit first isAssign] at ends
      rw [List.filter_cons_of_neg (by simp [isAssign])]
      exact ih others same valid validOther ends
    | true =>
      rw [List.filter_cons_of_pos isAssign]
      cases first with
      | @assign name value o named isValue =>
        rcases execute_assign verbosity limit name isValue (atOffset o) with binds | fails
        · obtain ⟨-, scope⟩ := binds s valid
          obtain ⟨endedOther, scopeOther⟩ := binds t validOther
          rw [scope] at ends
          have bound := Scope.assigned_isValue valid isValue
          rw [← Scope.assigned_congr same.get value] at scopeOther
          have later := ih others (same.set _ _ _) (Scope.valid_set valid _ bound _)
            (Scope.valid_set validOther _ bound _) ends
          obtain ⟨w, endsOther, sameLater⟩ := later
          refine ⟨w, ends_andThen.mpr ⟨endedOther, ?_⟩, sameLater⟩
          rw [scopeOther]
          exact endsOther
        · exact absurd ended (fails s).1
      | _ => cases isAssign

/-- Statements fail in one of them, and the scope is left as that one leaves it. -/
theorem runAll_failure {run : Executor} {nodes : List Node} {s : Scope} {f : Failure}
    (failed : (runAll run nodes s).failure = some f) :
    ∃ before node after t, nodes = before ++ node :: after ∧ (runAll run before s).Ends t ∧
      (run node t).failure = some f ∧ (runAll run nodes s).scope = (run node t).scope := by
  induction nodes generalizing s with
  | nil => cases failed
  | cons node nodes ih =>
    rw [runAll] at failed ⊢
    cases first : (run node s).failure with
    | some g =>
      rw [andThen, first] at failed ⊢
      exact ⟨[], node, nodes, s, rfl, ⟨rfl, rfl⟩, first.trans (first.symm.trans failed), rfl⟩
    | none =>
      rw [andThen, first] at failed ⊢
      obtain ⟨before, last, after, t, rfl, ends, fails, scope⟩ := ih failed
      exact ⟨node :: before, last, after, t, rfl, ends_andThen.mpr ⟨first, ends⟩, fails, scope⟩

theorem execute_failed_scope {verbosity limit : Nat} {node : Node} (formed : node.WellFormed)
    {s : Scope} (valid : s.Valid) (failed : (execute verbosity limit node s).failure ≠ none) :
    (execute verbosity limit node s).scope = s := by
  cases isAssign : node.isAssign with
  | false => exact execute_keepsScope verbosity limit formed isAssign
  | true =>
    cases formed with
    | @assign name value o named isValue =>
      rcases execute_assign verbosity limit name isValue (atOffset o) with binds | fails
      · exact absurd (binds s valid).1 failed
      · exact (fails s).2
    | _ => cases isAssign

/-- The assignments among some statements, executed in an empty scope. -/
def runAssignments (verbosity limit : Nat) (nodes : List Node) : Outcome :=
  runAll (execute verbosity limit) (nodes.filter Node.isAssign) .root

theorem root_valid : Scope.root.Valid := Scope.valid_cons.mpr ⟨⟨nofun, nofun⟩, nofun⟩

/-- The global variables that a run leaves are those that its top-level assignments leave
in an empty scope; a run that fails has come to those before the statement it fails in. -/
theorem runSource_globals {source : List Char} {body : List Node}
    (accepted : parse source = .ok (.program body)) (verbosity limit : Nat) :
    ((runSource verbosity limit source).failure = none →
      ∃ t, (runAssignments verbosity limit body).Ends t ∧
        (runSource verbosity limit source).globals.frame.values = t.frame.values) ∧
    ∀ failure, (runSource verbosity limit source).failure = some failure →
      ∃ functions before node after s t, functionTable body = .ok functions ∧
        body = before ++ node :: after ∧
        (runAll (execute verbosity limit) before (globalScope functions)).Ends s ∧
        (execute verbosity limit node s).failure = some failure ∧
        (runAssignments verbosity limit before).Ends t ∧
        (runSource verbosity limit source).globals.frame.values = t.frame.values := by
  obtain ⟨_, functions, same, formed, table, valid, ran⟩ := runSource_accepted accepted verbosity limit
  cases same
  have start : SameVariables (globalScope functions) .root := ⟨rfl, rfl, rfl⟩
  have before : ∀ {nodes u}, (∀ n ∈ nodes, n.WellFormed) →
      (runAll (execute verbosity limit) nodes (globalScope functions)).Ends u →
      ∃ t, (runAssignments verbosity limit nodes).Ends t ∧ u.frame.values = t.frame.values := by
    intro nodes u formed ends
    obtain ⟨t, assigned, same⟩ := runAll_assigned formed start valid root_valid ends
    exact ⟨t, assigned, same.values⟩
  simp only [Run.failure, Run.globals, ran]
  constructor
  · intro ended
    exact before formed ⟨ended, rfl⟩
  · intro failure failed
    obtain ⟨first, node, after, s, rfl, ends, fails, scope⟩ := runAll_failure failed
    rw [List.forall_mem_append] at formed
    obtain ⟨t, assigned, values⟩ := before formed.1 ends
    have reached := ends.2 ▸ runAll_valid (execute_valid verbosity limit) valid formed.1
    have kept : (execute verbosity limit node s).scope = s :=
      execute_failed_scope (formed.2 node List.mem_cons_self) reached (by simp [fails])
    refine ⟨functions, first, node, after, s, t, table, rfl, ends, fails, assigned, ?_⟩
    rw [scope, kept, values]

/-- A loop that binds a name of its own, between assignments, and a call that fails. -/
def assigningSample : List Char :=
  "set x = 1\nrepeat 2 \x7bset y = 2\x7d\nset z = $x\ncall f\nset w = 3".toList

theorem runSource_globals_assigningSample :
    ∃ body failure before node after t, parse assigningSample = .ok (.program body) ∧
      (runSource 0 9 assigningSample).failure = some failure ∧ body = before ++ node :: after ∧
      (runAssignments 0 9 before).Ends t ∧
      (runSource 0 9 assigningSample).globals.frame.values = t.frame.values ∧
      t.frame.values.map Prod.fst = [.text "x", .text "z"] := by
  obtain ⟨body, accepted⟩ := parse_of_isOk (show (parse assigningSample).isOk = true by decide +kernel)
  have fails : (runSource 0 9 assigningSample).failure.isSome = true := by decide +kernel
  obtain ⟨failure, failed⟩ := Option.isSome_iff_exists.mp fails
  obtain ⟨_, before, node, after, s, t, _, split, _, _, assigned, values⟩ :=
    (runSource_globals accepted 0 9).2 failure failed
  refine ⟨body, failure, before, node, after, t, accepted, failed, split, assigned, values, ?_⟩
  rw [← values]
  decide +kernel

end Primer
