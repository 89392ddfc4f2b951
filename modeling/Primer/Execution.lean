import Primer.Arithmetic
import Primer.Condition
import Primer.Report
import Primer.Interpolation

/-! Execution of statements. A statement is given a scope and yields the lines it
says, in order with its trace, the scope as it leaves it and how it ended; a
failure keeps what was said and bound before it. Nesting is bounded: each
executor takes the executor of nested statements as an argument. -/
namespace Primer

inductive Event
  | line (text : String)
  /-- A trace message, shown from a level of verbosity on. -/
  | trace (level : Nat) (text : String)
  deriving DecidableEq, Repr

structure Outcome where
  events : List Event
  scope : Scope
  failure : Option Failure
  deriving Repr

namespace Outcome

def done (s : Scope) : Outcome := ⟨[], s, none⟩
def fail (s : Scope) (f : Failure) : Outcome := ⟨[], s, some f⟩
def say (s : Scope) (text : String) : Outcome := ⟨[.line text], s, none⟩

/-- Goes on from where an outcome ended, unless it failed. -/
def andThen (o : Outcome) (next : Scope → Outcome) : Outcome :=
  match o.failure with
  | some _ => o
  | none =>
    let p := next o.scope
    ⟨o.events ++ p.events, p.scope, p.failure⟩

/-- Goes back to the scope around the one an outcome ended in. -/
def leave (o : Outcome) : Outcome := { o with scope := o.scope.leave }

/-- Gives an offset to a diagnostic that has none. -/
def stamp (o : Outcome) (offset : Datum) : Outcome :=
  match o.failure with
  | some (.diagnostic ⟨p, .null, context⟩) =>
    { o with failure := some (.diagnostic ⟨p, offset, context⟩) }
  | _ => o

/-- Goes on with a result, unless it is a fault. -/
def attempt (r : Except Fault α) (s : Scope) (next : α → Outcome) : Outcome :=
  match r with
  | .ok a => next a
  | .error f => fail s (.fault f)

/-- Traces a message. It is only put together when it is shown. -/
def traced (verbosity level : Nat) (text : Unit → Except Fault String) (s : Scope) : Outcome :=
  if level ≤ verbosity then attempt (text ()) s fun t => ⟨[.trace level t], s, none⟩ else done s

end Outcome

open Outcome

abbrev Executor := Node → Scope → Outcome

def runAll (run : Executor) : List Node → Scope → Outcome
  | [], s => done s
  | node :: nodes, s => (run node s).andThen (runAll run nodes)

def runTimes (run : Scope → Outcome) : Nat → Scope → Outcome
  | 0, s => done s
  | n + 1, s => (run s).andThen (runTimes run n)

/-- Data that counts as no keyword. -/
def Datum.isVoid : Datum → Bool
  | .null => true
  | .bool b => !b
  | .int n => decide (n = 0)
  | .float x => x.isZero
  | .text s => s.isEmpty
  | .list items => items.isEmpty
  | .record fields => fields.isEmpty

def resultLine (op : Operator) (keyword : Datum) (n : Int) : Except Fault String := do
  let label ← if keyword.isVoid then .ok op.name else keyword.display
  let number ← writeWhole n
  return "Result of " ++ label ++ ": " ++ number

def bindingText (verb : String) (name value : Datum) : Except Fault String := do
  return verb ++ " " ++ (← name.display) ++ ": " ++ value.typeName ++ " = " ++ (← value.inspect)

/-- The texts of arguments, the first of them being argument number `index`. -/
def argumentTexts : Nat → List Datum → Except Fault (List String)
  | _, [] => .ok []
  | index, .text s :: args => do return s :: (← argumentTexts (index + 1) args)
  | index, d :: _ => .error (.argumentNotText index d.sort)

def callText (name : Datum) (args : List Datum) : Except Fault String := do
  return "call " ++ (← name.display) ++ "(" ++ ", ".intercalate (← argumentTexts 0 args) ++ ")"

def Scope.argument (s : Scope) (d : Datum) : Except Fault Datum :=
  match d with
  | .text operand => s.resolve operand.toList
  | d => .error (.operandNotText d.sort)

/-- Declares parameters in a scope, their arguments being resolved in the scope
of the call. -/
def bindParams (run : Executor) (caller : Scope) : List (Datum × Datum) → Scope → Outcome
  | [], s => done s
  | (param, arg) :: rest, s =>
    attempt (caller.argument arg) s fun value =>
      (run (.declare param value .null) s).andThen (bindParams run caller rest)

/-- Runs the body of a function in a new scope inside the caller's. -/
def enter (run : Executor) (d : Definition) (args : List Datum) (s : Scope) : Outcome :=
  ((bindParams run s (d.params.zip args) s.child).andThen (run d.body)).leave

def failNaming (name : Datum) (s : Scope) (problem : String → Problem) : Outcome :=
  attempt name.display s fun shown => fail s (.ofProblem (problem shown))

def callFound (verbosity : Nat) (run : Executor) (name : Datum) (args : List Datum) (s : Scope) :
    Option Definition → Outcome
  | none => failNaming name s .undefinedFunction
  | some d =>
    if d.params.length = args.length then
      (traced verbosity 2 (fun _ => callText name args) s).andThen (enter run d args)
    else failNaming name s (.arityMismatch · d.params.length args.length)

def runCall (verbosity : Nat) (run : Executor) (name : Datum) (args : List Datum) (s : Scope) :
    Outcome :=
  attempt name.key s fun key => callFound verbosity run name args s (s.function? key)

/-- The truth of a condition, which must be text. -/
def Scope.test (s : Scope) (condition : Datum) : Except Fault Bool :=
  match condition with
  | .text c => s.holds c.toList
  | .list items => .error (.notAName (Datum.list items).sort)
  | .record fields => .error (.notAName (Datum.record fields).sort)
  | d => .error (.conditionNotText d.sort)

def testText (condition : Datum) (truth : Bool) : Except Fault String := do
  return "if condition " ++ (← condition.inspect) ++ " -> " ++ (if truth then "True" else "False")

/-- The value that is assigned: a text that is a dollar sign and a bound name
stands for the value of the name. -/
def Scope.assigned (s : Scope) (value : Datum) : Datum :=
  match value with
  | .text t =>
    match t.toList with
    | '$' :: name =>
      match s.get (.text (String.ofList name)) with
      | .null => value
      | bound => bound
    | _ => value
  | _ => value

def runBinding (verbosity : Nat) (verb : String) (name value : Datum) (s : Scope) : Outcome :=
  attempt name.key s fun key =>
    traced verbosity 2 (fun _ => bindingText verb name value) (s.set key value name)

/-- What a statement does, given an executor of the statements nested in it. -/
def perform (verbosity : Nat) (run : Executor) (node : Node) (s : Scope) : Outcome :=
  match node with
  | .say (.text message) _ => attempt (s.interpolate message) s (Outcome.say s)
  | .say d _ => fail s (.fault (.messageNotText d.sort))
  | .math op operands keyword _ =>
    match op.apply operands with
    | .ok n => attempt (resultLine op keyword n) s (Outcome.say s)
    | .error p => fail s (.ofProblem p)
  | .block statements _ => (runAll run statements s.child).leave
  | .loop count body _ => runTimes (run body) count.toNat s
  | .define .. => done s
  | .call name args _ => runCall verbosity run name args s
  | .declare name value _ => runBinding verbosity "declare" name value s
  | .branch condition yes no _ =>
    attempt (s.test condition) s fun truth =>
      (traced verbosity 3 (fun _ => testText condition truth) s).andThen fun s =>
        if truth then run yes s
        else match no with
          | .missing => done s
          | no => run no s
  | .assign name value _ => runBinding verbosity "set" name (s.assigned value) s
  | .missing | .program _ => fail s (.fault (.notAStatement node.kind))

def executeText (node : Node) : Except Fault String := do
  return "execute " ++ node.kind ++ " at offset " ++ (← node.offset.display)

/-- Traces a statement and performs it; a diagnostic without an offset gets that
of the statement. -/
def executeWith (verbosity : Nat) (run : Executor) : Executor := fun node s =>
  ((traced verbosity 1 (fun _ => executeText node) s).andThen (perform verbosity run node)).stamp
    node.offset

/-- Executes a statement with at most `limit` statements nested in each other. -/
def execute (verbosity : Nat) : Nat → Executor
  | 0 => fun _ s => fail s .tooDeep
  | limit + 1 => executeWith verbosity (execute verbosity limit)

end Primer
