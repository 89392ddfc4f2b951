import Primer.Proofs.Reach

/-! The scopes that exist while a program runs. A run is followed from moment to moment:
when a statement starts and ends, when it opens a scope, and through the statements and
declarations that are executed inside it. At each moment statements are executed in one
scope, and the scopes that exist are that one and those around it. -/
namespace Primer

open Outcome

def Scope.Encloses (outer inner : Scope) : Prop := outer.frames <:+ inner.frames

/-- Statements that open a scope: blocks, and calls of functions that take their arguments. -/
inductive OpensScope : Node → Scope → Prop
  | block {nodes : List Node} {o : Datum} {s : Scope} : OpensScope (.block nodes o) s
  | call {name o : Datum} {args : List Datum} {s : Scope} {key : Key} {d : Definition} :
      name.key = .ok key → s.function? key = some d → d.params.length = args.length →
      OpensScope (.call name args o) s

/-- A statement that is executed in a scope, under a limit, comes to a moment in another one. -/
inductive Passes (verbosity : Nat) : Nat → Node → Scope → Scope → Prop
  | start {limit : Nat} {node : Node} {s : Scope} : Passes verbosity limit node s s
  | opened {limit : Nat} {node : Node} {s : Scope} : OpensScope node s →
      Passes verbosity (limit + 1) node s s.child
  | parameter {limit : Nat} {name o : Datum} {args : List Datum} {s t u : Scope} {key : Key}
      {d : Definition} {before after : List (Datum × Datum)} {param arg value : Datum} :
      name.key = .ok key → s.function? key = some d → d.params.length = args.length →
      d.params.zip args = before ++ (param, arg) :: after →
      (bindParams (execute verbosity limit) s before s.child).Ends t → s.argument arg = .ok value →
      Passes verbosity limit (.declare param value .null) t u →
      Passes verbosity (limit + 1) (.call name args o) s u
  | entered {limit : Nat} {node inner : Node} {s t u : Scope} :
      Enters (execute verbosity limit) node s inner t → Passes verbosity limit inner t u →
      Passes verbosity (limit + 1) node s u
  | finish {limit : Nat} {node : Node} {s : Scope} :
      Passes verbosity limit node s (execute verbosity limit node s).scope

inductive RunPasses (verbosity limit : Nat) (body : List Node) : Scope → Prop
  | start {functions : Table Definition} : functionTable body = .ok functions →
      RunPasses verbosity limit body (globalScope functions)
  | statement {functions : Table Definition} {before after : List Node} {node : Node} {s u : Scope} :
      functionTable body = .ok functions → body = before ++ node :: after →
      (runAll (execute verbosity limit) before (globalScope functions)).Ends s →
      Passes verbosity limit node s u → RunPasses verbosity limit body u

/-- A run of a program comes to a statement in a scope, the statements nested in it being
executed under a limit. -/
inductive RunReaches (verbosity limit : Nat) (body : List Node) (last : Nat) (final : Node)
    (t : Scope) : Prop
  | statement {functions : Table Definition} {before after : List Node} {node : Node} {s : Scope} :
      functionTable body = .ok functions → body = before ++ node :: after →
      (runAll (execute verbosity limit) before (globalScope functions)).Ends s →
      Reaches verbosity limit node s last final t → RunReaches verbosity limit body last final t

theorem runAll_last (run : Executor) (nodes : List Node) (s : Scope) :
    (runAll run nodes s).scope = s ∨
    ∃ before node after t, nodes = before ++ node :: after ∧ (runAll run before s).Ends t ∧
      (runAll run nodes s).scope = (run node t).scope := by
  induction nodes generalizing s with
  | nil => exact .inl rfl
  | cons first nodes ih =>
    have here : ∃ before node after t, first :: nodes = before ++ node :: after ∧
        (runAll run before s).Ends t ∧ (run first s).scope = (run node t).scope :=
      ⟨[], first, nodes, s, rfl, ⟨rfl, rfl⟩, rfl⟩
    rw [runAll, andThen]
    cases ended : (run first s).failure with
    | some f => exact .inr here
    | none =>
      rcases ih (run first s).scope with back | ⟨before, node, after, t, split, ends, same⟩
      · refine .inr ?_
        rw [back]
        exact here
      · exact .inr ⟨first :: before, node, after, t, congrArg _ split,
          ends_andThen.mpr ⟨ended, ends⟩, same⟩

theorem Reaches.passes {verbosity limit last : Nat} {node final : Node} {s t : Scope}
    (reaches : Reaches verbosity limit node s last final t) :
    Passes verbosity limit node s t ∧
      Passes verbosity limit node s (execute verbosity (last + 1) final t).scope := by
  induction reaches with
  | refl => exact ⟨.start, .finish⟩
  | step enters _ ih => exact ⟨.entered enters ih.1, .entered enters ih.2⟩

/-- The scopes of a run itself are moments of it: the first and the last one, and those in which
the statements that it reaches, at the top or nested, start and end. -/
theorem runNode_passes (verbosity limit : Nat) {body : List Node} {functions : Table Definition}
    (table : functionTable body = .ok functions) :
    RunPasses verbosity limit body (globalScope functions) ∧
    RunPasses verbosity limit body (runNode verbosity limit (.program body)).globals ∧
    ∀ last node s, RunReaches verbosity limit body last node s →
      RunPasses verbosity limit body s ∧
        RunPasses verbosity limit body (execute verbosity (last + 1) node s).scope := by
  refine ⟨.start table, ?_, ?_⟩
  · simp only [Run.globals, runNode, table]
    rcases runAll_last (execute verbosity limit) body (globalScope functions) with
      back | ⟨before, node, after, s, split, ends, same⟩
    · rw [back]
      exact .start table
    · rw [same]
      exact .statement table split ends .finish
  · rintro last node s ⟨found, split, ends, reaches⟩
    exact ⟨.statement found split ends reaches.passes.1, .statement found split ends reaches.passes.2⟩

section Invariants
variable {P : Scope → Prop} (child : ∀ s, P s → P s.child)
  (confined : ∀ s t, Confined s t → P s → P t) {verbosity limit : Nat}
include child confined

theorem Enters.keeps {node inner : Node} {s t : Scope}
    (enters : Enters (execute verbosity limit) node s inner t) (holds : P s) : P t := by
  have nested := execute_confined verbosity limit
  cases enters with
  | statement ends =>
    exact ends.2 ▸ confined _ _ (runAll_confined nested _ s.child) (child s holds)
  | round _ ends => exact ends.2 ▸ confined _ _ (runTimes_confined nested inner _ s) holds
  | body _ _ _ ends =>
    exact ends.2 ▸ confined _ _ (bindParams_confined nested s _ s.child) (child s holds)
  | yes | no => exact holds

/-- What holds of a scope holds at every moment of an execution in it, if opening a scope
and binding variables keep it. -/
theorem Passes.keeps {node : Node} {s u : Scope} (passes : Passes verbosity limit node s u)
    (holds : P s) : P u := by
  induction passes with
  | start => exact holds
  | opened _ => exact child _ holds
  | parameter _ _ _ _ ends _ _ ih =>
    apply ih
    have nested := execute_confined verbosity
    exact ends.2 ▸ confined _ _ (bindParams_confined (nested _) _ _ _) (child _ holds)
  | entered enters _ ih => exact ih (enters.keeps child confined holds)
  | finish => exact confined _ _ (execute_confined verbosity _ _ _) holds

theorem RunPasses.keeps {body : List Node} {u : Scope} (passes : RunPasses verbosity limit body u)
    (holds : ∀ functions, functionTable body = .ok functions → P (globalScope functions)) : P u := by
  cases passes with
  | start table => exact holds _ table
  | statement table _ ends passes =>
    apply passes.keeps child confined
    have nested := execute_confined verbosity limit
    exact ends.2 ▸ confined _ _ (runAll_confined nested _ _) (holds _ table)

end Invariants
end Primer
