import Primer.Datum

/-! Data as JSON text over several lines, indented by two. Characters beyond ASCII
stand for themselves. -/
namespace Primer.Json

def escapeChar (c : Char) : List Char :=
  match c with
  | '"' => ['\\', '"']
  | '\\' => ['\\', '\\']
  | '\n' => ['\\', 'n']
  | '\r' => ['\\', 'r']
  | '\t' => ['\\', 't']
  | '\x08' => ['\\', 'b']
  | '\x0c' => ['\\', 'f']
  | c => if c.toNat < 0x20 then '\\' :: 'u' :: hexadecimal 4 c.toNat else [c]

def writeString (s : String) : String :=
  String.ofList ('"' :: s.toList.flatMap escapeChar ++ ['"'])

def writeFloat : Binary64 → String
  | .nan _ => "NaN"
  | .infinite negative => if negative then "-Infinity" else "Infinity"
  | x => x.text

/-- A new line at a depth of nesting. -/
def newLine (depth : Nat) : String := String.ofList ('\n' :: List.replicate (2 * depth) ' ')

mutual

def writeAt (depth : Nat) : Datum → String
  | .null => "null"
  | .bool b => if b then "true" else "false"
  | .int n => toString n
  | .float x => writeFloat x
  | .text s => writeString s
  | .list [] => "[]"
  | .list (d :: ds) =>
    "[" ++ newLine (depth + 1) ++ writeAt (depth + 1) d ++ writeItems (depth + 1) ds ++
      newLine depth ++ "]"
  | .record [] => "\x7b\x7d"
  | .record ((name, d) :: fields) =>
    "\x7b" ++ newLine (depth + 1) ++ writeString name ++ ": " ++ writeAt (depth + 1) d ++
      writeFields (depth + 1) fields ++ newLine depth ++ "\x7d"

def writeItems (depth : Nat) : List Datum → String
  | [] => ""
  | d :: ds => "," ++ newLine depth ++ writeAt depth d ++ writeItems depth ds

def writeFields (depth : Nat) : List (String × Datum) → String
  | [] => ""
  | (name, d) :: fields =>
    "," ++ newLine depth ++ writeString name ++ ": " ++ writeAt depth d ++ writeFields depth fields

end

def write (d : Datum) : String := writeAt 0 d

end Primer.Json
