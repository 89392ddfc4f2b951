import Primer.Datum.Value
import Primer.Report
import Primer.Scope

/-! Conditions: free text, split at its first comparison operator into operands
that are resolved in a scope. -/
namespace Primer

inductive Comparison
  | equal | different | atMost | atLeast | less | greater
  deriving DecidableEq, Repr

namespace Comparison

def sign : Comparison → String
  | equal => "=="
  | different => "!="
  | atMost => "<="
  | atLeast => ">="
  | less => "<"
  | greater => ">"

def all : List Comparison := [equal, different, atMost, atLeast, less, greater]

def ofSign? (sign : String) : Option Comparison := all.find? fun c => decide (c.sign = sign)

/-- The comparison a text starts with, and the text after it. A sign of two
characters is never read as its first one. -/
def read? : List Char → Option (Comparison × List Char)
  | '=' :: '=' :: rest => some (equal, rest)
  | '!' :: '=' :: rest => some (different, rest)
  | '<' :: '=' :: rest => some (atMost, rest)
  | '>' :: '=' :: rest => some (atLeast, rest)
  | '<' :: rest => some (less, rest)
  | '>' :: rest => some (greater, rest)
  | _ => none

/-- How two ranks compare. Equality is not decided by rank. -/
def holds : Comparison → Int → Int → Bool
  | equal, a, b => decide (a = b)
  | different, a, b => decide (a ≠ b)
  | atMost, a, b => decide (a ≤ b)
  | atLeast, a, b => decide (a ≥ b)
  | less, a, b => decide (a < b)
  | greater, a, b => decide (a > b)

end Comparison

/-- Equality of values: of the same sort and the same. -/
def Datum.equals (a b : Datum) : Bool := decide (a.sort = b.sort) && a.same b

/-- Compares two values. Ordering goes by rank, the left one taken first. -/
def Comparison.apply (c : Comparison) (left right : Datum) : Except Fault Bool :=
  match c with
  | .equal => .ok (left.equals right)
  | .different => .ok (!left.equals right)
  | c => do
    let a ← left.rank
    let b ← right.rank
    return c.holds a b

/-- Compares by a sign. The ranks are taken before an unknown sign is reported. -/
def compareBySign (sign : String) (left right : Datum) : Except Failure Bool :=
  match Comparison.ofSign? sign with
  | some c => (c.apply left right).mapError .fault
  | none => do
    let _ ← left.rank.mapError Failure.fault
    let _ ← right.rank.mapError Failure.fault
    throw (.ofProblem (.unknownComparison sign))

/-- A text up to its first comparison, and the comparison with the text after it. -/
def splitComparison : List Char → List Char × Option (Comparison × List Char)
  | [] => ([], none)
  | c :: cs =>
    match Comparison.read? (c :: cs) with
    | some found => ([], some found)
    | none => let (left, found) := splitComparison cs; (c :: left, found)

/-- One operand, or two with a comparison between them. -/
structure Condition where
  left : List Char
  right : Option (Comparison × List Char)
  deriving DecidableEq, Repr

def Condition.parse (s : List Char) : Condition :=
  let (left, found) := splitComparison (trim s)
  ⟨trim left, found.map fun (c, right) => (c, trim right)⟩

/-- The value of operand text: a bound name, with or without a dollar sign, else
a literal. -/
def Scope.resolve (s : Scope) (operand : List Char) : Except Fault Datum :=
  let name := dropDollar operand
  match s.get (.text (String.ofList name)) with
  | .null => literal name
  | value => .ok value

def Condition.eval (c : Condition) (s : Scope) : Except Fault Bool := do
  let left ← s.resolve c.left
  match c.right with
  | none => return left.truthy
  | some (comparison, right) => comparison.apply left (← s.resolve right)

def Scope.holds (s : Scope) (condition : List Char) : Except Fault Bool :=
  (Condition.parse condition).eval s

end Primer
