import Primer.Number.Whole
import Primer.Number.Shortest

/-! The data a program can hold or be stored as. Source text only ever gives
whole numbers and text; the other sorts come from stored programs, whose fields
are kept as given and looked at when they are used. -/
namespace Primer

inductive Datum
  | null
  | bool (b : Bool)
  | int (n : Int)
  | float (x : Binary64)
  | text (s : String)
  | list (items : List Datum)
  | record (fields : List (String × Datum))
  deriving Repr, Inhabited

/-- What a table can be keyed by. Numbers that are equal are one key. -/
inductive Key
  | null
  | int (n : Int)
  | float (x : Binary64)
  | text (s : String)
  deriving DecidableEq, Repr

/-- The plainest datum with a key. -/
def Key.datum : Key → Datum
  | null => .null
  | int n => .int n
  | float x => .float x
  | text s => .text s

namespace Datum

/-- The name of a datum's sort in fault messages. -/
def sort : Datum → String
  | null => "NoneType"
  | bool _ => "bool"
  | int _ => "int"
  | float _ => "float"
  | text _ => "str"
  | list _ => "list"
  | record _ => "dict"

def key : Datum → Except Fault Key
  | null => .ok .null
  | bool b => .ok (.int (if b then 1 else 0))
  | int n => .ok (.int n)
  | float x => .ok (match x.whole? with | some n => .int n | none => .float x)
  | text s => .ok (.text s)
  | d => .error (.notAName d.sort)

mutual

/-- A datum in full, text between quotes. -/
def inspect : Datum → Except Fault String
  | null => .ok "None"
  | bool b => .ok (if b then "True" else "False")
  | int n => writeWhole n
  | float x => .ok x.text
  | text s => .ok (quoted s)
  | list items => do
    let shown ← inspectAll items
    return "[" ++ ", ".intercalate shown ++ "]"
  | record fields => do
    let shown ← inspectFields fields
    return "\x7b" ++ ", ".intercalate shown ++ "\x7d"

def inspectAll : List Datum → Except Fault (List String)
  | [] => .ok []
  | d :: ds => do return (← inspect d) :: (← inspectAll ds)

def inspectFields : List (String × Datum) → Except Fault (List String)
  | [] => .ok []
  | (name, d) :: fields => do
    return (quoted name ++ ": " ++ (← inspect d)) :: (← inspectFields fields)

end

/-- A datum as it is said: text as it is, all else as `inspect` shows it. -/
def display : Datum → Except Fault String
  | text s => .ok s
  | d => d.inspect

/-- The number a truth value or a number stands for. -/
def number? : Datum → Option (Int ⊕ Binary64)
  | bool b => some (.inl (if b then 1 else 0))
  | int n => some (.inl n)
  | float x => some (match x.whole? with | some n => .inl n | none => .inr x)
  | _ => none

def sameNumber : Int ⊕ Binary64 → Int ⊕ Binary64 → Bool
  | .inl m, .inl n => decide (m = n)
  | .inr x, .inr y => x.sameNumber y
  | _, _ => false

/-- Whether two data are one and the same NaN. -/
def sameNan : Datum → Datum → Bool
  | float (.nan i), float (.nan j) => decide (i = j)
  | _, _ => false

mutual

/-- Equality of data: numbers by value whatever their sort, records whatever the
order of their fields. A NaN equals nothing, but a member of a list or of a record
also agrees with itself. -/
def same : Datum → Datum → Bool
  | null, null => true
  | text s, text t => decide (s = t)
  | list as, list bs => sameAll as bs
  | record fs, record gs => decide (fs.length = gs.length) && sameFields fs gs
  | bool b, d => numberIs (bool b) d
  | int n, d => numberIs (int n) d
  | float x, d => numberIs (float x) d
  | _, _ => false
where numberIs (d e : Datum) : Bool :=
  match d.number?, e.number? with
  | some m, some n => sameNumber m n
  | _, _ => false

def sameAll : List Datum → List Datum → Bool
  | [], [] => true
  | a :: as, b :: bs => (sameNan a b || same a b) && sameAll as bs
  | _, _ => false

def sameFields : List (String × Datum) → List (String × Datum) → Bool
  | [], _ => true
  | (name, d) :: fs, gs =>
    (match gs.lookup name with
      | some e => sameNan d e || same d e
      | none => false) && sameFields fs gs

end

/-- Equality of the members of a larger whole. -/
def agrees (d e : Datum) : Bool := sameNan d e || same d e

/-- The members of a datum where a list is expected: a text gives its characters
and a record its field names. -/
def items : Datum → Except Fault (List Datum)
  | list ds => .ok ds
  | text s => .ok (s.toList.map fun c => .text (String.singleton c))
  | record fields => .ok (fields.map fun f => .text f.1)
  | d => .error (.notAList d.sort)

/-- The whole number a datum is read as: text freely written, other numbers
truncated toward zero. -/
def whole : Datum → Except Fault Int
  | bool b => .ok (if b then 1 else 0)
  | int n => .ok n
  | float (.nan _) => .error .undefinedNumber
  | float x => match x.truncate? with
    | some n => .ok n
    | none => .error .infiniteNumber
  | text s => readLoose s
  | d => .error (.notNumeric d.sort)

end Datum
end Primer
