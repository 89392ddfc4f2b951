import Primer.Fault
import Primer.Number.Binary64
import Primer.Problem

/-! The arithmetic commands on unbounded integers. Division and remainder
truncate toward zero. Only `power` computes in double precision. -/
namespace Primer

/-- One step of a fold from the left. Powers are not folded on integers. -/
def Operator.step : Operator → Int → Int → Int
  | .add, a, b => a + b
  | .subtract, a, b => a - b
  | .multiply, a, b => a * b
  | .divide, a, b => a.tdiv b
  | .modulo, a, b => a.tmod b
  | .power, a, _ => a

def doubleOf (n : Int) : Except Problem Binary64 :=
  if n.natAbs < roundingLimit then .ok (.ofInt n) else .error .powerTooLarge

/-- Raises to each power in turn. A result that is not finite is too large. -/
def raise (x : Binary64) : List Int → Except Problem Binary64
  | [] => .ok x
  | n :: ns =>
    if x.isZero && decide (n < 0) then .error .zeroToNegative
    else do
      let y ← doubleOf n
      match x.power y with
      | .finite negative m e => raise (.finite negative m e) ns
      | _ => .error .powerTooLarge

namespace Operator

def zeroProblem? : Operator → Option Problem
  | divide => some .divisionByZero
  | modulo => some .moduloByZero
  | _ => none

/-- What an operator gives for operands that are enough and hold no zero divisor. -/
def value (op : Operator) (first : Int) (rest : List Int) : Except Problem Int :=
  match op with
  | power => do
    let x ← doubleOf first
    let y ← raise x rest
    return y.truncate?.getD 0
  | _ => .ok (rest.foldl op.step first)

/-- Applies an operator: the count of the operands is checked first, then the
divisors, then the value is computed. -/
def apply (op : Operator) (operands : List Int) : Except Problem Int :=
  if operands.length < op.leastOperands then .error (.tooFewOperands op)
  else match operands with
    | [] => .ok 0
    | first :: rest =>
      match op.zeroProblem? with
      | some problem => if rest.contains 0 then .error problem else op.value first rest
      | none => op.value first rest

end Operator

/-- Applies the operator of a name, which is case-sensitive. -/
def applyNamed (name : String) (operands : List Int) : Except Problem Int :=
  match Operator.ofName? name with
  | some op => op.apply operands
  | none => .error (.unknownOperation name)

def divide (a b : Int) : Except Fault (Int × Int) :=
  if b = 0 then .error .zeroDivisor else .ok (a.tdiv b, a.tmod b)

end Primer
