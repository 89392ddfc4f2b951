import Primer.Text.Quoted

/-! Failures that are not diagnostics of the language: limits of number
conversion, fields of a stored program that hold the wrong sort of data, and
files that cannot be read. They carry no position in a source text. -/
namespace Primer

inductive Fault
  /-- A decimal literal has more digits than may be converted. -/
  | literalTooLong (digits : Nat)
  /-- An integer has more digits than may be written. -/
  | numberTooLong
  /-- An integer is too large to be rounded to double precision. -/
  | numberTooLarge
  | zeroDivisor
  /-- A null statement or a nested program was reached. -/
  | notAStatement (kind : String)
  /-- Something other than a program was run. -/
  | notAProgram (kind : String)
  | conditionNotText (kind : String)
  | operandNotText (kind : String)
  | messageNotText (kind : String)
  | argumentNotText (index : Nat) (kind : String)
  /-- A list or a record stands where a name is needed. -/
  | notAName (kind : String)
  | missingField (field : String)
  | notANode
  | unknownNode (type : String)
  | unknownOperator (shown : String)
  | notWhole (shown : String)
  | notNumeric (kind : String)
  | infiniteNumber
  | undefinedNumber
  | notAList (kind : String)
  | noStoredForm (kind : String)
  /-- A stored program is not well-formed JSON text. -/
  | malformed (problem : String) (line column offset : Nat)
  /-- A file is not UTF-8 text; `last` is the last octet of the faulty sequence. -/
  | undecodable (octet first last : Nat) (reason : String)
  /-- A directory stands where a file is needed. -/
  | notAFile (path : String)
  | nameTooLong (path : String)
  deriving DecidableEq, Repr

/-- What kind of rule a fault breaks. -/
inductive Fault.Family
  | sort | value | field | range | divisor | operation | statement | encoding | fileKind | fileName
  deriving DecidableEq, Repr

namespace Fault

def family : Fault → Family
  | literalTooLong _ | numberTooLong | unknownNode _ | unknownOperator _ | notWhole _
  | undefinedNumber | malformed .. => .value
  | messageNotText _ | argumentNotText .. | notAName _ | notANode | notNumeric _ | notAList _
  | noStoredForm _ => .sort
  | missingField _ => .field
  | numberTooLarge | infiniteNumber => .range
  | zeroDivisor => .divisor
  | notAProgram _ | conditionNotText _ | operandNotText _ => .operation
  | notAStatement _ => .statement
  | undecodable .. => .encoding
  | notAFile _ => .fileKind
  | nameTooLong _ => .fileName

def hexOctet (n : Nat) : String :=
  let digits := Nat.toDigits 16 n
  "0x" ++ String.ofList (List.replicate (2 - digits.length) '0' ++ digits)

def limitText : String := "Exceeds the limit (4300 digits) for integer string conversion"
def limitHint : String := "use sys.set_int_max_str_digits() to increase the limit"

def message : Fault → String
  | literalTooLong digits => limitText ++ s!": value has {digits} digits; " ++ limitHint
  | numberTooLong => limitText ++ "; " ++ limitHint
  | numberTooLarge => "int too large to convert to float"
  | zeroDivisor => "integer division or modulo by zero"
  | notAStatement kind =>
    let path := if kind = "NoneType" then kind else "kinderscript.ast." ++ kind
    s!"execute: unexpected node type <class '{path}'>"
  | notAProgram kind => s!"'{kind}' object has no attribute 'functions'"
  | conditionNotText kind => s!"'{kind}' object has no attribute 'strip'"
  | operandNotText kind => s!"'{kind}' object has no attribute 'removeprefix'"
  | messageNotText kind => s!"expected string or bytes-like object, got '{kind}'"
  | argumentNotText index kind => s!"sequence item {index}: expected str instance, {kind} found"
  | notAName kind => s!"unhashable type: '{kind}'"
  | missingField field => s!"'{field}'"
  | notANode => "Invalid AST object"
  | unknownNode type => s!"Unknown AST node type: {type}"
  | unknownOperator shown => s!"{shown} is not a valid MathOperator"
  | notWhole shown => s!"invalid literal for int() with base 10: {shown}"
  | notNumeric kind =>
    s!"int() argument must be a string, a bytes-like object or a real number, not '{kind}'"
  | infiniteNumber => "cannot convert float infinity to integer"
  | undefinedNumber => "cannot convert float NaN to integer"
  | notAList kind => s!"'{kind}' object is not iterable"
  | noStoredForm kind => s!"Unsupported node for serialization: {kind}"
  | malformed problem line column offset =>
    s!"{problem}: line {line} column {column} (char {offset})"
  | undecodable octet first last reason =>
    if first = last then
      s!"'utf-8' codec can't decode byte {hexOctet octet} in position {first}: {reason}"
    else s!"'utf-8' codec can't decode bytes in position {first}-{last}: {reason}"
  | notAFile path => "[Errno 21] Is a directory: " ++ quoted path
  | nameTooLong path => "[Errno 36] File name too long: " ++ quoted path

end Fault
end Primer
