import Primer.Datum

/-! Data as values of the language: literals, truth, and the number a value
counts as when it is ordered. -/
namespace Primer

def unquote (s : List Char) : List Char :=
  match s with
  | '"' :: rest => if rest.getLast? = some '"' then rest.dropLast else s
  | _ => s

/-- A name may be written with a dollar sign before it. -/
def dropDollar : List Char → List Char
  | '$' :: cs => cs
  | cs => cs

/-- A literal is a number if it reads as one, else a quoted text, else the text
itself. -/
def literal (s : List Char) : Except Fault Datum := do
  match ← readWhole s with
  | some n => return .int n
  | none => return .text (String.ofList (unquote s))

namespace Datum

def typeName : Datum → String
  | bool _ | int _ => "Integer"
  | text _ => "Text"
  | d => d.sort

def truthy : Datum → Bool
  | bool b => b
  | int n => decide (n ≠ 0)
  | text s => decide (s.toList ≠ [] ∧ lower s.toList ≠ "false".toList)
  | _ => true

/-- The number a value counts as in an ordering comparison: an integer rounded
to 53 significant bits, and 0 for all but integers and truth values. -/
def rank : Datum → Except Fault Int
  | bool b => .ok (if b then 1 else 0)
  | int n =>
    if n.natAbs < roundingLimit then .ok (signed (decide (n < 0)) (nearest53 n.natAbs))
    else .error .numberTooLarge
  | _ => .ok 0

end Datum
end Primer
