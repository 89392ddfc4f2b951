import Primer.Operator
import Primer.Text.Quoted

/-! The diagnostics of the language, by cause. The wording of a diagnostic is a
function of its cause and stands here only. -/
namespace Primer

/-- The documented kinds of diagnostics. -/
inductive Kind
  | malformed | unknownCommand | undefinedFunction | arityMismatch | divisionByZero
  | unknownOperation | arithmeticOverflow
  deriving DecidableEq, Repr

def Kind.name : Kind → String
  | malformed => "SyntaxError"
  | unknownCommand => "UnknownCommandError"
  | undefinedFunction => "UndefinedFunctionError"
  | arityMismatch => "ArityMismatchError"
  | divisionByZero => "DivisionByZeroError"
  | unknownOperation => "UnknownOperationError"
  | arithmeticOverflow => "ArithmeticOverflowError"

inductive Problem
  | strayClose
  | noCommand (found : String)
  | unknownCommand (word : String)
  | unclosedBlock
  | missingBlock (what : String)
  | unclosedList (what : String)
  | emptyEntry (what : String)
  | unnamedFunction
  | missingBody (function : String)
  | unnamedParameter (function : String)
  | unnamedCall
  | badCount (text : String)
  | missingBranch
  | missingCondition
  | missingEquals
  | missingVariable
  | unclosedOperands (op : Operator)
  | badOperand (op : Operator) (token : String)
  | noOperands (op : Operator)
  | undefinedFunction (name : String)
  | arityMismatch (name : String) (expected given : Nat)
  | tooFewOperands (op : Operator)
  | divisionByZero
  | moduloByZero
  | zeroToNegative
  | powerTooLarge
  | unknownOperation (name : String)
  | unknownComparison (name : String)
  deriving DecidableEq, Repr

namespace Problem

def kind : Problem → Kind
  | unknownCommand _ => .unknownCommand
  | undefinedFunction _ => .undefinedFunction
  | arityMismatch .. | tooFewOperands _ => .arityMismatch
  | divisionByZero | moduloByZero | zeroToNegative => .divisionByZero
  | powerTooLarge => .arithmeticOverflow
  | unknownOperation _ | unknownComparison _ => .unknownOperation
  | _ => .malformed

def message : Problem → String
  | strayClose => "unexpected '\x7d' without a matching '\x7b'"
  | noCommand found => "expected a command but found " ++ quoted found
  | unknownCommand word =>
    s!"unknown command '{word}'. Valid commands are: say, function, call, repeat, if, set, " ++
      "add(), subtract(), multiply(), divide(), modulo(), power()"
  | unclosedBlock => "unclosed '\x7b': missing '\x7d'"
  | missingBlock what => s!"missing opening brace for {what}"
  | unclosedList what => s!"unclosed parentheses in {what}"
  | emptyEntry what => s!"empty entry in {what}"
  | unnamedFunction => "function definition requires a name"
  | missingBody function => s!"missing body for function '{function}'"
  | unnamedParameter function => s!"empty parameter name in function '{function}'"
  | unnamedCall => "call requires a function name"
  | badCount text => s!"repeat count must be a whole number, got '{text}'"
  | missingBranch => "missing opening brace for if statement"
  | missingCondition => "if statement requires a condition"
  | missingEquals => "set requires '=' to assign a value"
  | missingVariable => "set requires a variable name"
  | unclosedOperands op => s!"unclosed parentheses in math operation '{op.name}'"
  | badOperand op token => s!"'{token}' is not a whole number in '{op.name}'"
  | noOperands op => s!"math operation '{op.name}' requires at least one number"
  | undefinedFunction name => s!"function '{name}' not found"
  | arityMismatch name expected given =>
    s!"function '{name}' expects {expected} parameter(s), but {given} argument(s) were provided"
  | tooFewOperands op =>
    let noun := if op.leastOperands = 1 then "number" else "numbers"
    s!"{op.name} requires at least {op.leastOperands} {noun}"
  | divisionByZero => "Division by zero is not allowed"
  | moduloByZero => "Modulo by zero is not allowed"
  | zeroToNegative => "zero cannot be raised to a negative power"
  | powerTooLarge => "power result is too large"
  | unknownOperation name => s!"unknown operation {name}"
  | unknownComparison name => s!"unknown comparison operator {name}"

end Problem
end Primer
