/-! The arithmetic commands. -/
namespace Primer

inductive Operator
  | add | subtract | multiply | divide | modulo | power
  deriving DecidableEq, Repr

namespace Operator

def all : List Operator := [add, subtract, multiply, divide, modulo, power]

/-- The keyword of an operator, in lower case. -/
def name : Operator → String
  | add => "add"
  | subtract => "subtract"
  | multiply => "multiply"
  | divide => "divide"
  | modulo => "modulo"
  | power => "power"

def ofName? (name : String) : Option Operator := all.find? fun op => decide (op.name = name)

/-- The fewest operands an operator is applied to. -/
def leastOperands : Operator → Nat
  | add => 0
  | subtract | multiply | divide => 1
  | modulo | power => 2

end Operator
end Primer
