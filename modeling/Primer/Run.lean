import Primer.Execution
import Primer.Parser

/-! Runs of whole programs. All functions of a program are defined before its
first statement is executed, wherever they stand. -/
namespace Primer

/-- Statements nested deeper than this count as endless recursion. -/
def nestingLimit : Nat := 1000

structure Run where
  /-- Whether the first statement was reached. -/
  started : Bool
  outcome : Outcome
  deriving Repr

namespace Run

def events (r : Run) : List Event := r.outcome.events
def failure (r : Run) : Option Failure := r.outcome.failure
def globals (r : Run) : Scope := r.outcome.scope

def lines (r : Run) : List String :=
  r.events.filterMap fun | .line text => some text | .trace .. => none

def messages (r : Run) : List String :=
  r.events.filterMap fun | .line _ => none | .trace _ text => some text

def refused (f : Failure) : Run := ⟨false, .fail .root f⟩

end Run

def globalScope (functions : Table Definition) : Scope := ⟨⟨[], functions⟩, []⟩

def runNode (verbosity limit : Nat) (program : Node) : Run :=
  match program with
  | .program body =>
    match functionTable body with
    | .ok functions => ⟨true, runAll (execute verbosity limit) body (globalScope functions)⟩
    | .error f => .refused (.fault f)
  | node => .refused (.fault (.notAProgram node.kind))

def runSource (verbosity limit : Nat) (source : List Char) : Run :=
  match parse source with
  | .ok program => runNode verbosity limit program
  | .error f => .refused f

/-- Runs a program after others. A source that cannot be read leaves the global
scope of the run before it. -/
def runNext (limit : Nat) (globals : Scope) (source : List Char) : Run :=
  match parse source with
  | .ok program => runNode 0 limit program
  | .error f => ⟨false, .fail globals f⟩

def unifyNewlines : List Char → List Char
  | [] => []
  | '\r' :: '\n' :: cs => '\n' :: unifyNewlines cs
  | c :: cs => (if c = '\r' then '\n' else c) :: unifyNewlines cs

end Primer
