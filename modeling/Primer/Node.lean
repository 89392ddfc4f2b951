import Primer.Datum
import Primer.Operator

/-! Programs as trees. A node keeps its fields as they were given: those of a
parsed program are text, numbers and offsets, those of a stored one may be any
data. An offset of null says that the node has no place in a source. -/
namespace Primer

inductive Node
  /-- No node: a null statement, or a conditional without an else-branch. -/
  | missing
  | program (body : List Node)
  | say (message offset : Datum)
  | math (op : Operator) (operands : List Int) (keyword offset : Datum)
  | block (statements : List Node) (offset : Datum)
  | loop (count : Int) (body : Node) (offset : Datum)
  | define (name : Datum) (params : List Datum) (body : Node) (offset : Datum)
  | call (name : Datum) (args : List Datum) (offset : Datum)
  | declare (name value offset : Datum)
  | branch (condition : Datum) (yes no : Node) (offset : Datum)
  | assign (name value offset : Datum)
  deriving Repr, Inhabited

/-- A function definition, taken out of the tree. -/
structure Definition where
  name : Datum
  params : List Datum
  body : Node
  offset : Datum
  deriving Repr, Inhabited

def Definition.node (d : Definition) : Node := .define d.name d.params d.body d.offset

namespace Node

/-- The name of a node's kind, in stored programs, traces and faults. -/
def kind : Node → String
  | missing => "NoneType"
  | program _ => "Program"
  | say .. => "Print"
  | math .. => "MathOp"
  | block .. => "Block"
  | loop .. => "Repeat"
  | define .. => "FunctionDef"
  | call .. => "FunctionCall"
  | declare .. => "VarDecl"
  | branch .. => "If"
  | assign .. => "SetVar"

def offset : Node → Datum
  | missing | program _ => .null
  | say _ o | math _ _ _ o | block _ o | loop _ _ o | define _ _ _ o | call _ _ o
  | declare _ _ o | branch _ _ _ o | assign _ _ o => o

mutual

/-- The definitions in a tree, those nested in a body before the definition
whose body it is. -/
def definitions : Node → List Definition
  | program body => definitionsIn body
  | block statements _ => definitionsIn statements
  | loop _ body _ => definitions body
  | define name params body offset => definitions body ++ [⟨name, params, body, offset⟩]
  | branch _ yes no _ => definitions yes ++ definitions no
  | _ => []

def definitionsIn : List Node → List Definition
  | [] => []
  | node :: nodes => definitions node ++ definitionsIn nodes

end

mutual

/-- Equality of trees, whatever their offsets and the spelling of keywords. -/
def same : Node → Node → Bool
  | missing, missing => true
  | program a, program b => sameIn a b
  | say m _, say m' _ => m.agrees m'
  | math op ns _ _, math op' ns' _ _ => decide (op = op') && decide (ns = ns')
  | block a _, block b _ => sameIn a b
  | loop n a _, loop n' b _ => decide (n = n') && same a b
  | define f ps a _, define g qs b _ => f.agrees g && Datum.sameAll ps qs && same a b
  | call f xs _, call g ys _ => f.agrees g && Datum.sameAll xs ys
  | declare x v _, declare y w _ => x.agrees y && v.agrees w
  | branch c yes no _, branch c' yes' no' _ => c.agrees c' && same yes yes' && same no no'
  | assign x v _, assign y w _ => x.agrees y && v.agrees w
  | _, _ => false

def sameIn : List Node → List Node → Bool
  | [], [] => true
  | a :: as, b :: bs => same a b && sameIn as bs
  | _, _ => false

end
end Node
end Primer
