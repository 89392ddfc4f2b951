import Primer.Scope

/-! Messages with variables in them. A dollar sign and the longest run of ASCII
word characters after it name a variable; what is put in is not looked at again. -/
namespace Primer

def isWordChar (c : Char) : Bool :=
  decide ('0' ≤ c ∧ c ≤ '9') || decide ('A' ≤ c ∧ c ≤ 'Z') ||
    decide ('a' ≤ c ∧ c ≤ 'z') || c == '_'

/-- What stands for a dollar sign and a name. An unbound name stays as it is, and
so does a lone dollar sign. -/
def Scope.substitute (s : Scope) (name : List Char) : Except Fault (List Char) :=
  if name.isEmpty then .ok ['$']
  else match s.get (.text (String.ofList name)) with
    | .null => .ok ('$' :: name)
    | value => do return (← value.display).toList

/-- Reads a message from the left, `name` being the word characters since the
last dollar sign if nothing else has come since. -/
def Scope.expand (s : Scope) : Option (List Char) → List Char → Except Fault (List Char)
  | none, [] => .ok []
  | some name, [] => s.substitute name
  | none, c :: cs =>
    if c = '$' then s.expand (some []) cs
    else do return c :: (← s.expand none cs)
  | some name, c :: cs =>
    if isWordChar c then s.expand (some (name ++ [c])) cs
    else do
      let value ← s.substitute name
      if c = '$' then return value ++ (← s.expand (some []) cs)
      else return value ++ c :: (← s.expand none cs)

def Scope.interpolate (s : Scope) (message : String) : Except Fault String := do
  return String.ofList (← s.expand none message.toList)

end Primer
