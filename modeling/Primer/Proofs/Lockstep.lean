import Mathlib.Data.List.Forall2
import Primer.Execution

/-! Executions in step with each other. What a statement does itself is said once: how it fails,
what it binds and traces, and which statements it runs. Main statements: what all of these
keep related stays related through two whole executions (`execute_lockstep`), and what they keep
holds of a whole execution (`execute_invariant`). -/
namespace Primer

open Outcome

namespace Scope

section Lookups
variable {s t : Scope} (same : ∀ k, s.get k = t.get k)
include same

theorem substitute_congr (name : List Char) : s.substitute name = t.substitute name := by
  simp only [substitute, same]

theorem expand_congr (name : Option (List Char)) (message : List Char) :
    s.expand name message = t.expand name message := by
  induction message generalizing name with
  | nil =>
    cases name with
    | none => rfl
    | some name => exact substitute_congr same name
  | cons c message ih =>
    cases name with
    | none => simp only [expand, ih]
    | some name => simp only [expand, ih, substitute_congr same]

theorem interpolate_congr (message : String) : s.interpolate message = t.interpolate message := by
  simp only [interpolate, expand_congr same]

theorem resolve_congr (operand : List Char) : s.resolve operand = t.resolve operand := by
  simp only [resolve, same]

theorem argument_congr (d : Datum) : s.argument d = t.argument d := by
  cases d with
  | text operand => exact resolve_congr same operand.toList
  | _ => rfl

theorem test_congr (condition : Datum) : s.test condition = t.test condition := by
  cases condition with
  | text c => simp only [test, holds, Condition.eval, resolve_congr same]
  | _ => rfl

theorem assigned_congr (value : Datum) : s.assigned value = t.assigned value := by
  simp only [assigned, same]

end Lookups
end Scope

namespace Outcome

@[simp] theorem scope_stamp (o : Outcome) (offset : Datum) : (o.stamp offset).scope = o.scope := by
  unfold stamp
  split <;> rfl

@[simp] theorem scope_traced (verbosity level : Nat) (text : Unit → Except Fault String)
    (s : Scope) : (traced verbosity level text s).scope = s := by
  unfold traced attempt
  split
  · cases text () <;> rfl
  · rfl

end Outcome

namespace Node

/-- The failures of a statement that are its own, not those of the statements it runs. -/
inductive FailsWith : Node → Scope → Failure → Prop
  | notText {d o : Datum} {s : Scope} : (∀ m, d ≠ .text m) →
      FailsWith (.say d o) s (.fault (.messageNotText d.sort))
  | message {m : String} {o : Datum} {s : Scope} {f : Fault} : s.interpolate m = .error f →
      FailsWith (.say (.text m) o) s (.fault f)
  | operation {op : Operator} {operands : List Int} {keyword o : Datum} {s : Scope} {p : Problem} :
      op.apply operands = .error p → FailsWith (.math op operands keyword o) s (.ofProblem p)
  | result {op : Operator} {operands : List Int} {keyword o : Datum} {s : Scope} {n : Int}
      {f : Fault} : op.apply operands = .ok n → resultLine op keyword n = .error f →
      FailsWith (.math op operands keyword o) s (.fault f)
  | callee {name o : Datum} {args : List Datum} {s : Scope} {f : Fault} :
      name.key = .error f ∨ name.display = .error f → FailsWith (.call name args o) s (.fault f)
  | undefined {name o : Datum} {args : List Datum} {s : Scope} {key : Key} {shown : String} :
      name.key = .ok key → s.function? key = none → name.display = .ok shown →
      FailsWith (.call name args o) s (.ofProblem (.undefinedFunction shown))
  | arity {name o : Datum} {args : List Datum} {s : Scope} {key : Key} {d : Definition}
      {shown : String} : name.key = .ok key → s.function? key = some d →
      d.params.length ≠ args.length → name.display = .ok shown →
      FailsWith (.call name args o) s
        (.ofProblem (.arityMismatch shown d.params.length args.length))
  | argument {name o arg : Datum} {args : List Datum} {s : Scope} {f : Fault} :
      arg ∈ args → s.argument arg = .error f → FailsWith (.call name args o) s (.fault f)
  | condition {condition o : Datum} {yes no : Node} {s : Scope} {f : Fault} :
      s.test condition = .error f → FailsWith (.branch condition yes no o) s (.fault f)
  | declared {name value o : Datum} {s : Scope} {f : Fault} : name.key = .error f →
      FailsWith (.declare name value o) s (.fault f)
  | assigned {name value o : Datum} {s : Scope} {f : Fault} : name.key = .error f →
      FailsWith (.assign name value o) s (.fault f)
  | missing {s : Scope} : FailsWith .missing s (.fault (.notAStatement Node.missing.kind))
  | program {body : List Node} {s : Scope} :
      FailsWith (.program body) s (.fault (.notAStatement (Node.program body).kind))

theorem FailsWith.cause {node : Node} {s : Scope} {failure : Failure}
    (fails : node.FailsWith s failure) :
    (∃ f, failure = .fault f) ∨ ∃ p, failure = .ofProblem p := by
  cases fails with
  | operation | undefined | arity => exact .inr ⟨_, rfl⟩
  | _ => exact .inl ⟨_, rfl⟩

theorem FailsWith.not_tooDeep {node : Node} {s : Scope} : ¬ node.FailsWith s .tooDeep := nofun

inductive Binds : Node → Scope → Key → Datum → Datum → Prop
  | declare {name value o : Datum} {s : Scope} {key : Key} : name.key = .ok key →
      Binds (.declare name value o) s key value name
  | assign {name value o : Datum} {s : Scope} {key : Key} : name.key = .ok key →
      Binds (.assign name value o) s key (s.assigned value) name

/-- The messages that a statement traces after that of its own execution, with their levels. -/
inductive Traces : Node → Scope → Nat → Except Fault String → Prop
  | call {name o : Datum} {args : List Datum} {s : Scope} :
      Traces (.call name args o) s 2 (callText name args)
  | test {condition o : Datum} {yes no : Node} {s : Scope} {truth : Bool} :
      s.test condition = .ok truth → Traces (.branch condition yes no o) s 3 (testText condition truth)
  | declare {name value o : Datum} {s : Scope} :
      Traces (.declare name value o) s 2 (bindingText "declare" name value)
  | assign {name value o : Datum} {s : Scope} :
      Traces (.assign name value o) s 2 (bindingText "set" name (s.assigned value))

/-- The statements that a statement may run in a scope. A call also declares its parameters. -/
inductive Runs : Node → Scope → Node → Prop
  | statement {nodes : List Node} {node : Node} {o : Datum} {s : Scope} : node ∈ nodes →
      Runs (.block nodes o) s node
  | round {count : Int} {body : Node} {o : Datum} {s : Scope} : Runs (.loop count body o) s body
  | yes {condition o : Datum} {yes no : Node} {s : Scope} : Runs (.branch condition yes no o) s yes
  | no {condition o : Datum} {yes no : Node} {s : Scope} : no ≠ .missing →
      Runs (.branch condition yes no o) s no
  | body {name o : Datum} {args : List Datum} {s : Scope} {key : Key} {d : Definition} :
      name.key = .ok key → s.function? key = some d → Runs (.call name args o) s d.body
  | parameter {name o param arg value : Datum} {args : List Datum} {s : Scope} {key : Key}
      {d : Definition} : name.key = .ok key → s.function? key = some d →
      (param, arg) ∈ d.params.zip args → s.argument arg = .ok value →
      Runs (.call name args o) s (.declare param value .null)

/-- Two statements of one kind, with related statements in them. Nothing is said of their
offsets, and the results of two operators can be written or fail alike. -/
inductive Parallel (inner : Node → Node → Prop) : Node → Node → Prop
  | say {message o o' : Datum} : Parallel inner (.say message o) (.say message o')
  | math {op : Operator} {operands : List Int} {keyword keyword' o o' : Datum} :
      (∀ n f, resultLine op keyword n = .error f ↔ resultLine op keyword' n = .error f) →
      Parallel inner (.math op operands keyword o) (.math op operands keyword' o')
  | block {nodes nodes' : List Node} {o o' : Datum} : List.Forall₂ inner nodes nodes' →
      Parallel inner (.block nodes o) (.block nodes' o')
  | loop {count : Int} {body body' : Node} {o o' : Datum} : inner body body' →
      Parallel inner (.loop count body o) (.loop count body' o')
  | define {name name' : Datum} {params params' : List Datum} {body body' : Node} {o o' : Datum} :
      Parallel inner (.define name params body o) (.define name' params' body' o')
  | call {name : Datum} {args : List Datum} {o o' : Datum} :
      Parallel inner (.call name args o) (.call name args o')
  | declare {name value o o' : Datum} : Parallel inner (.declare name value o) (.declare name value o')
  | branch {condition o o' : Datum} {yes yes' no no' : Node} : inner yes yes' →
      (no = .missing ↔ no' = .missing) → (no ≠ .missing → inner no no') →
      Parallel inner (.branch condition yes no o) (.branch condition yes' no' o')
  | assign {name value o o' : Datum} : Parallel inner (.assign name value o) (.assign name value o')
  | missing : Parallel inner .missing .missing
  | program {body body' : List Node} : Parallel inner (.program body) (.program body')

theorem Parallel.self {inner : Node → Node → Prop} {node : Node} {s : Scope}
    (runs : ∀ m, node.Runs s m → inner m m) : node.Parallel inner node := by
  cases node with
  | math op operands keyword o => exact .math fun _ _ => Iff.rfl
  | block nodes o => exact .block (List.forall₂_same.mpr fun m member => runs m (.statement member))
  | loop count body o => exact .loop (runs body .round)
  | branch condition yes no o =>
    exact .branch (runs yes .yes) Iff.rfl fun present => runs no (.no present)
  | say => exact .say
  | define => exact .define
  | call => exact .call
  | declare => exact .declare
  | assign => exact .assign
  | missing => exact .missing
  | program => exact .program

end Node

/-- What two executions, one at either level of verbosity, keep related: statements, and those
that are nested in them; scopes; and outcomes, for the scopes that were started in. Whatever a
statement does in itself keeps outcomes related, and so does everything that is done with the
outcomes of nested statements. -/
structure Lockstep (i j : Nat) (outer inner : Node → Node → Prop) (scopes : Scope → Scope → Prop)
    (outcomes : Scope → Scope → Outcome → Outcome → Prop) : Prop where
  parallel {n n' : Node} {s t : Scope} : outer n n' → scopes s t → n.Parallel inner n'
  get {s t : Scope} : scopes s t → ∀ k, s.get k = t.get k
  child {s t : Scope} : scopes s t → scopes s.child t.child
  function? {name o : Datum} {args : List Datum} {n' : Node} {s t : Scope} {key : Key} :
    outer (.call name args o) n' → scopes s t → name.key = .ok key →
    Option.Rel (fun d e => d.params = e.params ∧ inner d.body e.body) (s.function? key) (t.function? key)
  parameter {name o param arg value : Datum} {args : List Datum} {n' : Node} {s t : Scope} {key : Key}
    {d : Definition} : outer (.call name args o) n' → scopes s t → name.key = .ok key →
    s.function? key = some d → (param, arg) ∈ d.params.zip args → s.argument arg = .ok value →
    inner (.declare param value .null) (.declare param value .null)
  done {s t : Scope} : scopes s t → outcomes s t (done s) (done t)
  fail {n n' : Node} {s t s' t' : Scope} {f : Failure} : outer n n' → scopes s t → n.FailsWith s f →
    scopes s' t' → outcomes s' t' (fail s' f) (fail t' f)
  say {s t : Scope} (line : String) : scopes s t → outcomes s t (say s line) (say t line)
  result {op : Operator} {operands : List Int} {keyword keyword' o o' : Datum} {s t : Scope} {n : Int}
    {line line' : String} :
    outer (.math op operands keyword o) (.math op operands keyword' o') → scopes s t →
    op.apply operands = .ok n → resultLine op keyword n = .ok line →
    resultLine op keyword' n = .ok line' → outcomes s t (Outcome.say s line) (Outcome.say t line')
  set {n n' : Node} {s t : Scope} {key : Key} {value name : Datum} : outer n n' → scopes s t →
    n.Binds s key value name → outcomes s t (.done (s.set key value name)) (.done (t.set key value name))
  executes {n n' : Node} {s t : Scope} : outer n n' → scopes s t →
    outcomes s t (traced i 1 (fun _ => executeText n) s) (traced j 1 (fun _ => executeText n') t)
  traces {n n' : Node} {s t s' t' : Scope} {level : Nat} {text : Except Fault String} : outer n n' →
    scopes s t → n.Traces s level text → scopes s' t' →
    outcomes s' t' (traced i level (fun _ => text) s') (traced j level (fun _ => text) t')
  ends {s t : Scope} {o p : Outcome} : outcomes s t o p → o.failure = none → p.failure = none →
    scopes o.scope p.scope
  andThen {s t : Scope} {o p : Outcome} {next next' : Scope → Outcome} : outcomes s t o p →
    (o.failure = none → p.failure = none →
      outcomes o.scope p.scope (next o.scope) (next' p.scope)) →
    outcomes s t (o.andThen next) (p.andThen next')
  leave {s t : Scope} {o p : Outcome} : scopes s t → outcomes s.child t.child o p →
    outcomes s t o.leave p.leave
  stamp {n n' : Node} {s t : Scope} {o p : Outcome} : outer n n' → outcomes s t o p →
    outcomes s t (o.stamp n.offset) (p.stamp n'.offset)

theorem attempt_both {outcomes : Outcome → Outcome → Prop} {r : Except Fault α} {s t : Scope}
    {next next' : α → Outcome}
    (failed : ∀ f, r = .error f → outcomes (fail s (.fault f)) (fail t (.fault f)))
    (rest : ∀ a, r = .ok a → outcomes (next a) (next' a)) :
    outcomes (attempt r s next) (attempt r t next') := by
  cases r with
  | ok a => exact rest a rfl
  | error f => exact failed f rfl

theorem perform_branch (verbosity : Nat) (run : Executor) (condition : Datum) (yes : Node)
    {no : Node} (present : no ≠ .missing) (o : Datum) (s : Scope) :
    perform verbosity run (.branch condition yes no o) s =
      attempt (s.test condition) s fun truth =>
        (traced verbosity 3 (fun _ => testText condition truth) s).andThen fun s =>
          if truth then run yes s else run no s := by
  cases no with
  | missing => exact absurd rfl present
  | _ => rfl

section Relations
variable {i j : Nat} {outer inner : Node → Node → Prop} {scopes : Scope → Scope → Prop}
  {outcomes : Scope → Scope → Outcome → Outcome → Prop}
  (lock : Lockstep i j outer inner scopes outcomes) {run run' : Executor}
  (nested : ∀ ⦃n n' s t⦄, inner n n' → scopes s t → outcomes s t (run n s) (run' n' t))
  {s t : Scope} (starts : scopes s t)
include lock nested starts

theorem runAll_lockstep {nodes nodes' : List Node} (all : List.Forall₂ inner nodes nodes') :
    outcomes s t (runAll run nodes s) (runAll run' nodes' t) := by
  induction all generalizing s t with
  | nil => exact lock.done starts
  | cons first _ ih =>
    have here := nested first starts
    exact lock.andThen here fun ended ended' => ih (lock.ends here ended ended')

theorem runTimes_lockstep {body body' : Node} (related : inner body body') (n : Nat) :
    outcomes s t (runTimes (run body) n s) (runTimes (run' body') n t) := by
  induction n generalizing s t with
  | zero => exact lock.done starts
  | succ n ih =>
    have here := nested related starts
    exact lock.andThen here fun ended ended' => ih (lock.ends here ended ended')

theorem bindParams_lockstep {caller caller' : Scope} (same : ∀ k, caller.get k = caller'.get k)
    (pairs : List (Datum × Datum))
    (failed : ∀ pair ∈ pairs, ∀ f, caller.argument pair.2 = .error f → ∀ ⦃s t⦄, scopes s t →
      outcomes s t (fail s (.fault f)) (fail t (.fault f)))
    (declares : ∀ pair ∈ pairs, ∀ value, caller.argument pair.2 = .ok value →
      inner (.declare pair.1 value .null) (.declare pair.1 value .null)) :
    outcomes s t (bindParams run caller pairs s) (bindParams run' caller' pairs t) := by
  induction pairs generalizing s t with
  | nil => exact lock.done starts
  | cons pair pairs ih =>
    obtain ⟨unresolved, others⟩ := List.forall_mem_cons.mp failed
    obtain ⟨declared, later⟩ := List.forall_mem_cons.mp declares
    simp only [bindParams, ← Scope.argument_congr same]
    refine attempt_both (fun f error => unresolved f error starts) fun value resolved => ?_
    have here := nested (declared value resolved) starts
    exact lock.andThen here fun ended ended' => ih (lock.ends here ended ended') others later

omit nested in
theorem failNaming_lockstep {name o : Datum} {args : List Datum} {n' : Node}
    (related : outer (.call name args o) n') {problem : String → Problem}
    (fails : ∀ shown, name.display = .ok shown →
      Node.FailsWith (.call name args o) s (.ofProblem (problem shown))) :
    outcomes s t (failNaming name s problem) (failNaming name t problem) :=
  attempt_both (fun _ error => lock.fail related starts (.callee (.inr error)) starts)
    fun shown display => lock.fail related starts (fails shown display) starts

theorem runCall_lockstep {name o : Datum} {args : List Datum} {n' : Node}
    (related : outer (.call name args o) n') :
    outcomes s t (runCall i run name args s) (runCall j run' name args t) := by
  refine attempt_both (fun _ error => lock.fail related starts (.callee (.inl error)) starts)
    fun key named => ?_
  have rel := lock.function? related starts named
  have undefined (none : s.function? key = none) {shown} (display : name.display = .ok shown) :
      Node.FailsWith (.call name args o) s _ := .undefined named none display
  have arity {d} (found : s.function? key = some d) (differ : d.params.length ≠ args.length) {shown}
      (display : name.display = .ok shown) : Node.FailsWith (.call name args o) s _ :=
    .arity named found differ display
  have declares {d} (found : s.function? key = some d) {param arg value : Datum}
      (inside : (param, arg) ∈ d.params.zip args) (resolved : s.argument arg = .ok value) :=
    lock.parameter related starts named found inside resolved
  generalize s.function? key = found, t.function? key = found' at rel undefined arity declares
  cases rel with
  | none => exact failNaming_lockstep lock starts related fun _ => undefined rfl
  | @some d e both =>
    obtain ⟨params, body⟩ := both
    simp only [callFound, ← params]
    split
    · refine lock.andThen (lock.traces related starts .call starts) fun _ _ => ?_
      rw [scope_traced, scope_traced, enter, enter, ← params]
      -- the parameters are bound and the body is run one frame further in, which is left then
      have bound := bindParams_lockstep lock nested (lock.child starts) (lock.get starts)
        (d.params.zip args)
        (fun pair inside f error _ _ within =>
          lock.fail related starts (.argument (List.of_mem_zip inside).2 error) within)
        (fun pair inside value resolved => declares rfl inside resolved)
      exact lock.leave starts (lock.andThen bound fun ended ended' =>
        nested body (lock.ends bound ended ended'))
    · rename_i differ
      exact failNaming_lockstep lock starts related fun _ => arity rfl differ

omit nested in
theorem runBinding_lockstep {n n' : Node} (related : outer n n') {verb : String} {name value : Datum}
    (failed : ∀ f, name.key = .error f → n.FailsWith s (.fault f))
    (binds : ∀ key, name.key = .ok key → n.Binds s key value name)
    (traces : n.Traces s 2 (bindingText verb name value)) :
    outcomes s t (runBinding i verb name value s) (runBinding j verb name value t) := by
  refine attempt_both (fun f error => lock.fail related starts (failed f error) starts)
    fun key named => ?_
  have bound := lock.set related starts (binds key named)
  have within := lock.ends bound rfl rfl
  exact lock.andThen bound fun _ _ => lock.traces related starts traces within

theorem branch_lockstep {condition o o' : Datum} {yes yes' no no' : Node}
    (related : outer (.branch condition yes no o) (.branch condition yes' no' o'))
    (first : inner yes yes') (both : no = .missing ↔ no' = .missing)
    (second : no ≠ .missing → inner no no') :
    outcomes s t (perform i run (.branch condition yes no o) s)
      (perform j run' (.branch condition yes' no' o') t) := by
  have error (f : Fault) (failed : s.test condition = .error f) :=
    lock.fail related starts (.condition failed) starts
  have message {truth : Bool} (tested : s.test condition = .ok truth) :=
    lock.traces related starts (.test tested) starts
  by_cases absent : no = .missing
  · cases absent
    cases both.mp rfl
    simp only [perform, ← Scope.test_congr (lock.get starts)]
    refine attempt_both error fun truth tested => lock.andThen (message tested) fun _ _ => ?_
    rw [scope_traced, scope_traced]
    cases truth with
    | true => exact nested first starts
    | false => exact lock.done starts
  · rw [perform_branch _ _ _ _ absent, perform_branch _ _ _ _ (mt both.mpr absent),
      ← Scope.test_congr (lock.get starts)]
    refine attempt_both error fun truth tested => lock.andThen (message tested) fun _ _ => ?_
    rw [scope_traced, scope_traced]
    cases truth with
    | true => exact nested first starts
    | false => exact nested (second absent) starts

omit nested in
theorem math_lockstep {op : Operator} {operands : List Int} {keyword keyword' o o' : Datum}
    (related : outer (.math op operands keyword o) (.math op operands keyword' o'))
    (alike : ∀ n f, resultLine op keyword n = .error f ↔ resultLine op keyword' n = .error f) :
    outcomes s t (perform i run (.math op operands keyword o) s)
      (perform j run' (.math op operands keyword' o') t) := by
  simp only [perform]
  cases applied : op.apply operands with
  | error p => exact lock.fail related starts (.operation applied) starts
  | ok n =>
    cases written : resultLine op keyword n with
    | error f =>
      simp only [written, (alike n f).mp written, attempt]
      exact lock.fail related starts (.result applied written) starts
    | ok line =>
      cases written' : resultLine op keyword' n with
      | error f => cases ((alike n f).mpr written').symm.trans written
      | ok line' =>
        simp only [written, written', attempt]
        exact lock.result related starts applied written written'

theorem perform_lockstep {n n' : Node} (related : outer n n') :
    outcomes s t (perform i run n s) (perform j run' n' t) := by
  have get := lock.get starts
  cases lock.parallel related starts with
  | @say message =>
    cases message with
    | text m =>
      simp only [perform, ← Scope.interpolate_congr get]
      exact attempt_both (fun _ error => lock.fail related starts (.message error) starts)
        fun line _ => lock.say line starts
    | _ => exact lock.fail related starts (.notText nofun) starts
  | math alike => exact math_lockstep lock starts related alike
  | block all => exact lock.leave starts (runAll_lockstep lock nested (lock.child starts) all)
  | @loop count _ _ _ _ body => exact runTimes_lockstep lock nested starts body count.toNat
  | define => exact lock.done starts
  | call => exact runCall_lockstep lock nested starts related
  | declare =>
    exact runBinding_lockstep lock starts related (fun _ => .declared) (fun _ => .declare) .declare
  | branch yes both no => exact branch_lockstep lock nested starts related yes both no
  | assign =>
    simp only [perform, ← Scope.assigned_congr get]
    exact runBinding_lockstep lock starts related (fun _ => .assigned) (fun _ => .assign) .assign
  | missing => exact lock.fail related starts .missing starts
  | program => exact lock.fail related starts .program starts

theorem executeWith_lockstep {n n' : Node} (related : outer n n') :
    outcomes s t (executeWith i run n s) (executeWith j run' n' t) := by
  refine lock.stamp related (lock.andThen (lock.executes related starts) fun _ _ => ?_)
  rw [scope_traced, scope_traced]
  exact perform_lockstep lock nested starts related

end Relations

theorem execute_lockstep {i j : Nat} {nodes : Node → Node → Prop} {scopes : Scope → Scope → Prop}
    {outcomes : Scope → Scope → Outcome → Outcome → Prop}
    (lock : Lockstep i j nodes nodes scopes outcomes)
    (cut : ∀ ⦃s t⦄, scopes s t → outcomes s t (fail s .tooDeep) (fail t .tooDeep)) (limit : Nat)
    ⦃n n' : Node⦄ ⦃s t : Scope⦄ (related : nodes n n') (starts : scopes s t) :
    outcomes s t (execute i limit n s) (execute j limit n' t) := by
  induction limit generalizing n n' s t with
  | zero => exact cut starts
  | succ limit ih => exact executeWith_lockstep lock ih starts related

/-- What holds between two executions of the same statement in the same scope, which meet some
conditions. -/
structure Congruence (i j : Nat) (outer inner : Node → Prop) (scopes : Scope → Prop)
    (outcomes : Scope → Outcome → Outcome → Prop) : Prop where
  runs {n m : Node} {s : Scope} : outer n → scopes s → n.Runs s m → inner m
  child {s : Scope} : scopes s → scopes s.child
  done {s : Scope} : scopes s → outcomes s (done s) (done s)
  fail {n : Node} {s t : Scope} {f : Failure} : outer n → scopes s → n.FailsWith s f → scopes t →
    outcomes t (fail t f) (fail t f)
  say {s : Scope} (line : String) : scopes s → outcomes s (say s line) (say s line)
  set {n : Node} {s : Scope} {key : Key} {value name : Datum} : outer n → scopes s →
    n.Binds s key value name → outcomes s (.done (s.set key value name)) (.done (s.set key value name))
  executes {n : Node} {s : Scope} : outer n → scopes s →
    outcomes s (traced i 1 (fun _ => executeText n) s) (traced j 1 (fun _ => executeText n) s)
  traces {n : Node} {s t : Scope} {level : Nat} {text : Except Fault String} : outer n → scopes s →
    n.Traces s level text → scopes t →
    outcomes t (traced i level (fun _ => text) t) (traced j level (fun _ => text) t)
  ends {s : Scope} {o p : Outcome} : outcomes s o p → o.failure = none → p.failure = none →
    o.scope = p.scope ∧ scopes o.scope
  andThen {s : Scope} {o p : Outcome} {next next' : Scope → Outcome} : outcomes s o p →
    (o.failure = none → p.failure = none → outcomes o.scope (next o.scope) (next' p.scope)) →
    outcomes s (o.andThen next) (p.andThen next')
  leave {s : Scope} {o p : Outcome} : scopes s → outcomes s.child o p → outcomes s o.leave p.leave
  stamp {s : Scope} {o p : Outcome} (offset : Datum) : outcomes s o p →
    outcomes s (o.stamp offset) (p.stamp offset)

theorem Congruence.lockstep {i j : Nat} {outer inner : Node → Prop} {scopes : Scope → Prop}
    {outcomes : Scope → Outcome → Outcome → Prop}
    (cong : Congruence i j outer inner scopes outcomes) :
    Lockstep i j (fun n n' => n = n' ∧ outer n) (fun n n' => n = n' ∧ inner n)
      (fun s t => s = t ∧ scopes s) (fun s _ => outcomes s) where
  parallel := by
    rintro n _ s _ ⟨rfl, kept⟩ ⟨-, starts⟩
    exact .self (s := s) fun m runs => ⟨rfl, cong.runs kept starts runs⟩
  get := by
    rintro s _ ⟨rfl, -⟩ k
    rfl
  child := by
    rintro s _ ⟨rfl, starts⟩
    exact ⟨rfl, cong.child starts⟩
  function? := by
    rintro name o args _ s _ key ⟨rfl, kept⟩ ⟨rfl, starts⟩ named
    cases found : s.function? key with
    | none => exact .none
    | some d => exact .some ⟨rfl, rfl, cong.runs kept starts (.body named found)⟩
  parameter := by
    rintro name o param arg value args _ s _ key d ⟨rfl, kept⟩ ⟨rfl, starts⟩ named found inside resolved
    exact ⟨rfl, cong.runs kept starts (.parameter named found inside resolved)⟩
  done := by
    rintro s _ ⟨rfl, starts⟩
    exact cong.done starts
  fail := by
    rintro n _ s _ t _ f ⟨rfl, kept⟩ ⟨rfl, starts⟩ fails ⟨rfl, within⟩
    exact cong.fail kept starts fails within
  say := by
    rintro s _ line ⟨rfl, starts⟩
    exact cong.say line starts
  result := by
    rintro op operands keyword _ o _ s _ n line _ ⟨⟨⟩, -⟩ ⟨rfl, starts⟩ - written written'
    cases written.symm.trans written'
    exact cong.say line starts
  set := by
    rintro n _ s _ key value name ⟨rfl, kept⟩ ⟨rfl, starts⟩ binds
    exact cong.set kept starts binds
  executes := by
    rintro n _ s _ ⟨rfl, kept⟩ ⟨rfl, starts⟩
    exact cong.executes kept starts
  traces := by
    rintro n _ s _ t _ level text ⟨rfl, kept⟩ ⟨rfl, starts⟩ traces ⟨rfl, within⟩
    exact cong.traces kept starts traces within
  ends := cong.ends
  andThen := cong.andThen
  leave := by
    rintro s _ o p ⟨rfl, starts⟩ inside
    exact cong.leave starts inside
  stamp := by
    rintro n _ s _ o p ⟨rfl, -⟩ related
    exact cong.stamp _ related

section Congruences
variable {i j : Nat} {outer inner : Node → Prop} {scopes : Scope → Prop}
  {outcomes : Scope → Outcome → Outcome → Prop}

theorem nested_same {run run' : Executor}
    (nested : ∀ ⦃n s⦄, inner n → scopes s → outcomes s (run n s) (run' n s)) :
    ∀ ⦃n n' : Node⦄ ⦃s t : Scope⦄, n = n' ∧ inner n → s = t ∧ scopes s →
      outcomes s (run n s) (run' n' t) := by
  rintro n _ s _ ⟨rfl, kept⟩ ⟨rfl, starts⟩
  exact nested kept starts

variable (cong : Congruence i j outer inner scopes outcomes) {run run' : Executor}
  (nested : ∀ ⦃n s⦄, inner n → scopes s → outcomes s (run n s) (run' n s))
  {s : Scope} (starts : scopes s)
include cong nested starts

theorem runAll_congruence {nodes : List Node} (all : ∀ n ∈ nodes, inner n) :
    outcomes s (runAll run nodes s) (runAll run' nodes s) :=
  runAll_lockstep cong.lockstep (nested_same nested) ⟨rfl, starts⟩
    (List.forall₂_same.mpr fun n member => ⟨rfl, all n member⟩)

theorem runTimes_congruence {body : Node} (kept : inner body) (n : Nat) :
    outcomes s (runTimes (run body) n s) (runTimes (run' body) n s) :=
  runTimes_lockstep cong.lockstep (nested_same nested) ⟨rfl, starts⟩ ⟨rfl, kept⟩ n

theorem bindParams_congruence {caller : Scope} (pairs : List (Datum × Datum))
    (failed : ∀ pair ∈ pairs, ∀ f, caller.argument pair.2 = .error f → ∀ ⦃s⦄, scopes s →
      outcomes s (fail s (.fault f)) (fail s (.fault f)))
    (declares : ∀ pair ∈ pairs, ∀ value, caller.argument pair.2 = .ok value →
      inner (.declare pair.1 value .null)) :
    outcomes s (bindParams run caller pairs s) (bindParams run' caller pairs s) := by
  refine bindParams_lockstep cong.lockstep (nested_same nested) ⟨rfl, starts⟩ (fun _ => rfl) pairs
    ?_ fun pair inside value resolved => ⟨rfl, declares pair inside value resolved⟩
  rintro pair inside f error s _ ⟨rfl, within⟩
  exact failed pair inside f error within

theorem perform_congruence {node : Node} (kept : outer node) :
    outcomes s (perform i run node s) (perform j run' node s) :=
  perform_lockstep cong.lockstep (nested_same nested) ⟨rfl, starts⟩ ⟨rfl, kept⟩

theorem executeWith_congruence {node : Node} (kept : outer node) :
    outcomes s (executeWith i run node s) (executeWith j run' node s) :=
  executeWith_lockstep cong.lockstep (nested_same nested) ⟨rfl, starts⟩ ⟨rfl, kept⟩

end Congruences

theorem execute_congruence {i j : Nat} {nodes : Node → Prop} {scopes : Scope → Prop}
    {outcomes : Scope → Outcome → Outcome → Prop} (cong : Congruence i j nodes nodes scopes outcomes)
    (cut : ∀ ⦃s⦄, scopes s → outcomes s (fail s .tooDeep) (fail s .tooDeep)) (limit : Nat) ⦃n : Node⦄
    ⦃s : Scope⦄ (kept : nodes n) (starts : scopes s) :
    outcomes s (execute i limit n s) (execute j limit n s) := by
  induction limit generalizing n s with
  | zero => exact cut starts
  | succ limit ih => exact executeWith_congruence cong ih starts kept

/-- What holds of one execution of a statement in a scope, which meet some conditions. -/
structure Invariant (verbosity : Nat) (outer inner : Node → Prop) (scopes : Scope → Prop)
    (outcomes : Scope → Outcome → Prop) : Prop where
  runs {n m : Node} {s : Scope} : outer n → scopes s → n.Runs s m → inner m
  child {s : Scope} : scopes s → scopes s.child
  done {s : Scope} : scopes s → outcomes s (done s)
  fail {n : Node} {s t : Scope} {f : Failure} : outer n → scopes s → n.FailsWith s f → scopes t →
    outcomes t (fail t f)
  say {s : Scope} (line : String) : scopes s → outcomes s (say s line)
  set {n : Node} {s : Scope} {key : Key} {value name : Datum} : outer n → scopes s →
    n.Binds s key value name → outcomes s (.done (s.set key value name))
  executes {n : Node} {s : Scope} : outer n → scopes s →
    outcomes s (traced verbosity 1 (fun _ => executeText n) s)
  traces {n : Node} {s t : Scope} {level : Nat} {text : Except Fault String} : outer n → scopes s →
    n.Traces s level text → scopes t → outcomes t (traced verbosity level (fun _ => text) t)
  ends {s : Scope} {o : Outcome} : outcomes s o → o.failure = none → scopes o.scope
  andThen {s : Scope} {o : Outcome} {next : Scope → Outcome} : outcomes s o →
    (o.failure = none → outcomes o.scope (next o.scope)) → outcomes s (o.andThen next)
  leave {s : Scope} {o : Outcome} : scopes s → outcomes s.child o → outcomes s o.leave
  stamp {s : Scope} {o : Outcome} (offset : Datum) : outcomes s o → outcomes s (o.stamp offset)

section Invariants
variable {verbosity : Nat} {outer inner : Node → Prop} {scopes : Scope → Prop}
  {outcomes : Scope → Outcome → Prop} (inv : Invariant verbosity outer inner scopes outcomes)

include inv in
theorem Invariant.congruence :
    Congruence verbosity verbosity outer inner scopes (fun s o p => o = p ∧ outcomes s o) where
  runs := inv.runs
  child := inv.child
  done starts := ⟨rfl, inv.done starts⟩
  fail kept starts fails within := ⟨rfl, inv.fail kept starts fails within⟩
  say line starts := ⟨rfl, inv.say line starts⟩
  set kept starts binds := ⟨rfl, inv.set kept starts binds⟩
  executes kept starts := ⟨rfl, inv.executes kept starts⟩
  traces kept starts traces within := ⟨rfl, inv.traces kept starts traces within⟩
  ends := by
    rintro s o _ ⟨rfl, holds⟩ ended -
    exact ⟨rfl, inv.ends holds ended⟩
  andThen := by
    rintro s o _ next next' ⟨rfl, holds⟩ rest
    refine ⟨?_, inv.andThen holds fun ended => (rest ended ended).2⟩
    cases ended : o.failure with
    | some f => simp only [Outcome.andThen, ended]
    | none => simp only [Outcome.andThen, ended, (rest ended ended).1]
  leave := by
    rintro s o _ starts ⟨rfl, holds⟩
    exact ⟨rfl, inv.leave starts holds⟩
  stamp := by
    rintro s o _ offset ⟨rfl, holds⟩
    exact ⟨rfl, inv.stamp offset holds⟩

theorem nested_once {run : Executor}
    (nested : ∀ ⦃n s⦄, inner n → scopes s → outcomes s (run n s)) :
    ∀ ⦃n : Node⦄ ⦃s : Scope⦄, inner n → scopes s → run n s = run n s ∧ outcomes s (run n s) :=
  fun _ _ kept starts => ⟨rfl, nested kept starts⟩

variable {run : Executor} (nested : ∀ ⦃n s⦄, inner n → scopes s → outcomes s (run n s))
  {s : Scope} (starts : scopes s)
include inv nested starts

theorem runAll_invariant {nodes : List Node} (all : ∀ n ∈ nodes, inner n) :
    outcomes s (runAll run nodes s) :=
  (runAll_congruence inv.congruence (nested_once nested) starts all).2

theorem runTimes_invariant {body : Node} (kept : inner body) (n : Nat) :
    outcomes s (runTimes (run body) n s) :=
  (runTimes_congruence inv.congruence (nested_once nested) starts kept n).2

theorem bindParams_invariant {caller : Scope} (pairs : List (Datum × Datum))
    (failed : ∀ pair ∈ pairs, ∀ f, caller.argument pair.2 = .error f → ∀ ⦃s⦄, scopes s →
      outcomes s (fail s (.fault f)))
    (declares : ∀ pair ∈ pairs, ∀ value, caller.argument pair.2 = .ok value →
      inner (.declare pair.1 value .null)) :
    outcomes s (bindParams run caller pairs s) :=
  (bindParams_congruence inv.congruence (nested_once nested) starts pairs
    (fun pair inside f error _ within => ⟨rfl, failed pair inside f error within⟩) declares).2

theorem perform_invariant {node : Node} (kept : outer node) :
    outcomes s (perform verbosity run node s) :=
  (perform_congruence inv.congruence (nested_once nested) starts kept).2

theorem executeWith_invariant {node : Node} (kept : outer node) :
    outcomes s (executeWith verbosity run node s) :=
  (executeWith_congruence inv.congruence (nested_once nested) starts kept).2

end Invariants

theorem execute_invariant {verbosity : Nat} {nodes : Node → Prop} {scopes : Scope → Prop}
    {outcomes : Scope → Outcome → Prop} (inv : Invariant verbosity nodes nodes scopes outcomes)
    (cut : ∀ ⦃s⦄, scopes s → outcomes s (fail s .tooDeep)) (limit : Nat) ⦃n : Node⦄ ⦃s : Scope⦄
    (kept : nodes n) (starts : scopes s) : outcomes s (execute verbosity limit n s) := by
  induction limit generalizing n s with
  | zero => exact cut starts
  | succ limit ih => exact executeWith_invariant inv ih starts kept

end Primer
