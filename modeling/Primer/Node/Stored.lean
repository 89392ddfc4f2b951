import Primer.Scope

/-! The stored form of a tree: a record for each node, tagged with its kind. The
functions of a program are not stored, as they are found again in its body. -/
namespace Primer.Node

mutual

def store : Node → Datum
  | missing => .null
  | program body => .record [("type", .text "Program"), ("body", .list (storeAll body))]
  | say message offset =>
    .record [("type", .text "Print"), ("message", message), ("offset", offset)]
  | math op operands keyword offset =>
    .record [("type", .text "MathOp"), ("operator", .text op.name),
      ("operands", .list (operands.map .int)), ("keyword", keyword), ("offset", offset)]
  | block statements offset =>
    .record [("type", .text "Block"), ("statements", .list (storeAll statements)), ("offset", offset)]
  | loop count body offset =>
    .record [("type", .text "Repeat"), ("count", .int count), ("body", store body), ("offset", offset)]
  | define name params body offset =>
    .record [("type", .text "FunctionDef"), ("name", name), ("parameters", .list params),
      ("body", store body), ("offset", offset)]
  | call name args offset =>
    .record [("type", .text "FunctionCall"), ("name", name), ("arguments", .list args),
      ("offset", offset)]
  | declare name value offset =>
    .record [("type", .text "VarDecl"), ("name", name), ("value", value), ("offset", offset)]
  | branch condition yes no offset =>
    .record [("type", .text "If"), ("condition", condition), ("then_branch", store yes),
      ("else_branch", store no), ("offset", offset)]
  | assign name value offset =>
    .record [("type", .text "SetVar"), ("name", name), ("value", value), ("offset", offset)]

def storeAll : List Node → List Datum
  | [] => []
  | node :: nodes => store node :: storeAll nodes

end

/-- The stored form of plain data. Only null, truth values, integers and text
have one. -/
def storePlain : Datum → Except Fault Datum
  | .null => .ok .null
  | .bool b => .ok (.bool b)
  | .int n => .ok (.int n)
  | .text s => .ok (.text s)
  | d => .error (.noStoredForm d.sort)

/-- A field of a record together with its readings as a node and as a list of nodes. -/
structure Field where
  datum : Datum
  node : Except Fault Node
  nodes : Except Fault (List Node)

def need (fields : List (String × Field)) (name : String) : Except Fault Field :=
  match fields.lookup name with
  | some field => .ok field
  | none => .error (.missingField name)

def dataOr (fields : List (String × Field)) (name : String) : Datum :=
  match fields.lookup name with
  | some field => field.datum
  | none => .null

def readOperator (d : Datum) : Except Fault Operator :=
  match d with
  | .text name => match Operator.ofName? name with
    | some op => .ok op
    | none => .error (.unknownOperator (quoted name))
  | d => do throw (.unknownOperator (← d.inspect))

/-- The whole numbers in a datum, in order. -/
def wholes (d : Datum) : Except Fault (List Int) := do
  (← d.items).mapM Datum.whole

/-- A node from the fields of its record, which are looked at in a fixed order. -/
def assemble (fields : List (String × Field)) : Except Fault Node :=
  let offset := dataOr fields "offset"
  match dataOr fields "type" with
  | .text "Program" => do
    let body ← (← need fields "body").nodes
    let _ ← functionTable body
    return program body
  | .text "Print" => do
    return say (← need fields "message").datum offset
  | .text "MathOp" => do
    let op ← readOperator (← need fields "operator").datum
    let operands ← wholes (← need fields "operands").datum
    return math op operands (dataOr fields "keyword") offset
  | .text "Block" => do
    return block (← (← need fields "statements").nodes) offset
  | .text "Repeat" => do
    let count ← (← need fields "count").datum.whole
    return loop count (← (← need fields "body").node) offset
  | .text "FunctionDef" => do
    let name := (← need fields "name").datum
    let params ← (← need fields "parameters").datum.items
    return define name params (← (← need fields "body").node) offset
  | .text "FunctionCall" => do
    let name := (← need fields "name").datum
    return call name (← (← need fields "arguments").datum.items) offset
  | .text "VarDecl" => do
    let name := (← need fields "name").datum
    return declare name (← need fields "value").datum offset
  | .text "If" => do
    let condition := (← need fields "condition").datum
    let yes ← (← need fields "then_branch").node
    let no ← match fields.lookup "else_branch" with
      | some field => field.node
      | none => .ok missing
    return branch condition yes no offset
  | .text "SetVar" => do
    let name := (← need fields "name").datum
    return assign name (← need fields "value").datum offset
  | type => do throw (.unknownNode (← type.display))

mutual

/-- Reads a stored node. -/
def load : Datum → Except Fault Node
  | .null => .ok missing
  | .record fields => assemble (loadFields fields)
  | _ => .error .notANode

/-- Reads a datum where a list of nodes is expected. The members of a text and of
a record are texts, which are no nodes. -/
def loadMembers : Datum → Except Fault (List Node)
  | .list items => loadAll items
  | .text s => if s.isEmpty then .ok [] else .error .notANode
  | .record fields => if fields.isEmpty then .ok [] else .error .notANode
  | d => .error (.notAList d.sort)

def loadAll : List Datum → Except Fault (List Node)
  | [] => .ok []
  | d :: ds => do return (← load d) :: (← loadAll ds)

def loadFields : List (String × Datum) → List (String × Field)
  | [] => []
  | (name, d) :: fields => (name, ⟨d, load d, loadMembers d⟩) :: loadFields fields

end
end Primer.Node
