import Primer.Proofs.Agreement
import Primer.Proofs.Results
import Primer.Run

/-! Trees moved to another place in a source: every offset grows by the same number and
nothing else changes. Main statement: an untraced run of a tree that was moved says the
same, and its diagnostic is moved with it. -/
namespace Primer

open Outcome

/-- An offset moved on. Other data is no offset and stays as it is. -/
def Datum.shift (k : Nat) : Datum → Datum
  | .int n => .int (n + k)
  | d => d

namespace Node
mutual

/-- A tree in which every offset, at any depth, is moved on. -/
def shift (k : Nat) : Node → Node
  | missing => missing
  | program body => program (shiftAll k body)
  | say message o => say message (o.shift k)
  | math op operands keyword o => math op operands keyword (o.shift k)
  | block statements o => block (shiftAll k statements) (o.shift k)
  | loop count body o => loop count (shift k body) (o.shift k)
  | define name params body o => define name params (shift k body) (o.shift k)
  | call name args o => call name args (o.shift k)
  | declare name value o => declare name value (o.shift k)
  | branch condition yes no o => branch condition (shift k yes) (shift k no) (o.shift k)
  | assign name value o => assign name value (o.shift k)

def shiftAll (k : Nat) : List Node → List Node
  | [] => []
  | node :: nodes => shift k node :: shiftAll k nodes

end
end Node

@[simp] theorem shift_atOffset (k pos : Nat) : (atOffset pos).shift k = atOffset (pos + k) := by
  simp [atOffset, Datum.shift]

@[simp] theorem Datum.shift_zero (d : Datum) : d.shift 0 = d := by
  cases d <;> simp [Datum.shift]

namespace Node

mutual

@[simp] theorem shift_zero : (node : Node) → node.shift 0 = node
  | missing => rfl
  | program body => congrArg program (shiftAll_zero body)
  | block statements o => by simp [shift, shiftAll_zero statements]
  | loop count body o => by simp [shift, shift_zero body]
  | define name params body o => by simp [shift, shift_zero body]
  | branch condition yes no o => by simp [shift, shift_zero yes, shift_zero no]
  | say .. | math .. | call .. | declare .. | assign .. => by simp [shift]

@[simp] theorem shiftAll_zero : (nodes : List Node) → shiftAll 0 nodes = nodes
  | [] => rfl
  | node :: nodes => by simp [shiftAll, shift_zero node, shiftAll_zero nodes]

end

@[simp] theorem offset_shift (k : Nat) (node : Node) : (node.shift k).offset = node.offset.shift k := by
  cases node <;> rfl

end Node

def Definition.shift (k : Nat) (d : Definition) : Definition :=
  ⟨d.name, d.params, d.body.shift k, d.offset.shift k⟩

def Table.shift (k : Nat) (t : Table Definition) : Table Definition :=
  t.map fun entry => (entry.1, entry.2.shift k)

def Frame.shift (k : Nat) (f : Frame) : Frame := ⟨f.values, Table.shift k f.functions⟩

def Scope.shift (k : Nat) (s : Scope) : Scope := ⟨s.frame.shift k, s.parents.map (Frame.shift k)⟩

/-- A diagnostic moved on. A context would show the text around the old place, so it has
none; a run makes none. -/
def Diagnostic.shift (k : Nat) (d : Diagnostic) : Diagnostic := ⟨d.problem, d.offset.shift k, none⟩

def Failure.shift (k : Nat) : Failure → Failure
  | .diagnostic d => .diagnostic (d.shift k)
  | f => f

def Outcome.shift (k : Nat) (o : Outcome) : Outcome :=
  ⟨o.events, o.scope.shift k, o.failure.map (Failure.shift k)⟩

namespace Table

theorem find?_shift (k : Nat) (t : Table Definition) (key : Key) :
    (Table.shift k t).find? key = (t.find? key).map (Definition.shift k) := by
  induction t with
  | nil => rfl
  | cons entry rest ih =>
    have step : Table.shift k (entry :: rest) = (entry.1, entry.2.shift k) :: Table.shift k rest := rfl
    simp only [step, find?, ih]
    split <;> rfl

theorem insert_shift (k : Nat) (t : Table Definition) (key : Key) (d : Definition) :
    (Table.shift k t).insert key (d.shift k) = Table.shift k (t.insert key d) := by
  induction t with
  | nil => rfl
  | cons entry rest ih =>
    have step : ∀ entry rest, Table.shift k (entry :: rest) =
        (entry.1, entry.2.shift k) :: Table.shift k rest := fun _ _ => rfl
    simp only [step, insert, ih]
    split <;> rw [step]

end Table

namespace Scope
variable (k : Nat) (s : Scope)

@[simp] theorem get_shift (key : Key) : (s.shift k).get key = s.get key := by
  have frames : (s.shift k).frames = s.frames.map (Frame.shift k) := rfl
  rw [Scope.get, frames, List.findSome?_map]
  rfl

@[simp] theorem function?_shift (key : Key) :
    (s.shift k).function? key = (s.function? key).map (Definition.shift k) := by
  have frames : (s.shift k).frames = s.frames.map (Frame.shift k) := rfl
  have found : (fun f : Frame => f.functions.find? key) ∘ Frame.shift k =
      fun f => (f.functions.find? key).map (Definition.shift k) :=
    funext fun f => Table.find?_shift k f.functions key
  rw [Scope.function?, frames, List.findSome?_map, found, Scope.function?, List.map_findSome?]
  rfl

@[simp] theorem child_shift : (s.shift k).child = s.child.shift k := rfl

theorem leave_shift : (s.shift k).leave = s.leave.shift k := by
  obtain ⟨frame, parents⟩ := s
  cases parents <;> rfl

end Scope

namespace Outcome
variable (k : Nat)

theorem andThen_shift (o : Outcome) {next next' : Scope → Outcome}
    (rest : o.failure = none → next' (o.scope.shift k) = (next o.scope).shift k) :
    (o.shift k).andThen next' = (o.andThen next).shift k := by
  unfold andThen
  cases ended : o.failure with
  | some f => simp [Outcome.shift, ended]
  | none => simp [Outcome.shift, ended, rest ended]

theorem leave_outcome_shift (o : Outcome) : (o.shift k).leave = o.leave.shift k := by
  simp only [leave, Outcome.shift, Scope.leave_shift]

theorem stamp_shift (o : Outcome) (offset : Datum) :
    (o.shift k).stamp (offset.shift k) = (o.stamp offset).shift k := by
  obtain ⟨events, scope, failure⟩ := o
  cases failure with
  | none => rfl
  | some f =>
    cases f with
    | diagnostic d =>
      obtain ⟨p, place, context⟩ := d
      cases place <;> rfl
    | _ => rfl

end Outcome

theorem Node.shiftAll_rel (k : Nat) (nodes : List Node) :
    List.Forall₂ (fun n n' => n' = n.shift k) nodes (Node.shiftAll k nodes) := by
  induction nodes with
  | nil => exact .nil
  | cons node nodes ih => exact .cons rfl ih

theorem Node.parallel_shift (k : Nat) (node : Node) :
    node.Parallel (fun n n' => n' = n.shift k) (node.shift k) := by
  cases node with
  | math => exact .math fun _ _ => Iff.rfl
  | block nodes o => exact .block (shiftAll_rel k nodes)
  | loop => exact .loop rfl
  | branch condition yes no o =>
    have both : no = .missing ↔ no.shift k = .missing := by cases no <;> simp [shift]
    exact .branch rfl both fun _ => rfl
  | say => exact .say
  | define => exact .define
  | call => exact .call
  | declare => exact .declare
  | assign => exact .assign
  | missing => exact .missing
  | program => exact .program

/-- Without a trace, statements that were moved are executed in step with them. -/
theorem shift_lockstep (k : Nat) :
    Lockstep 0 0 (fun n n' => n' = n.shift k) (fun n n' => n' = n.shift k) (fun s t => t = s.shift k)
      (fun _ _ o p => p = o.shift k) where
  parallel := by
    rintro n _ s _ rfl -
    exact n.parallel_shift k
  get := by
    rintro s _ rfl key
    exact (s.get_shift k key).symm
  child := by
    rintro s _ rfl
    exact s.child_shift k
  function? := by
    rintro name o args _ s _ key rfl rfl -
    rw [Scope.function?_shift]
    cases s.function? key with
    | none => exact .none
    | some d => exact .some ⟨rfl, rfl⟩
  -- a declaration has no place in the source, so moving leaves it as it is
  parameter _ _ _ _ _ _ := rfl
  done := by
    rintro s _ rfl
    rfl
  fail := by
    rintro n _ s _ s' _ f rfl rfl fails rfl
    rcases fails.cause with ⟨f, rfl⟩ | ⟨p, rfl⟩ <;> rfl
  say := by
    rintro s _ line rfl
    rfl
  result := by
    rintro op operands keyword _ o _ s _ n line _ ⟨⟩ rfl - written written'
    cases written.symm.trans written'
    rfl
  set := by
    rintro n _ s _ key value name rfl rfl -
    rfl
  executes := by
    rintro n _ s _ rfl rfl
    rfl
  traces := by
    rintro n _ s _ s' _ level text rfl rfl traces rfl
    cases traces <;> rfl
  ends := by
    rintro _ _ o _ rfl - -
    rfl
  andThen := by
    rintro _ _ o _ next next' rfl rest
    exact andThen_shift k o fun ended => rest ended (by simp [Outcome.shift, ended])
  leave := by
    rintro _ _ o _ - rfl
    exact leave_outcome_shift k o
  stamp := by
    rintro n _ _ _ o _ rfl rfl
    rw [Node.offset_shift]
    exact stamp_shift k o n.offset

namespace Node
mutual

theorem definitions_shift (k : Nat) : (node : Node) →
    (node.shift k).definitions = node.definitions.map (Definition.shift k)
  | program body | block body _ => definitionsIn_shift k body
  | loop _ body _ => definitions_shift k body
  | define name params body o => by
    simp [shift, definitions, definitions_shift k body, Definition.shift]
  | branch _ yes no _ => by
    simp [shift, definitions, definitions_shift k yes, definitions_shift k no]
  | missing | say .. | math .. | call .. | declare .. | assign .. => rfl

theorem definitionsIn_shift (k : Nat) : (nodes : List Node) →
    definitionsIn (shiftAll k nodes) = (definitionsIn nodes).map (Definition.shift k)
  | [] => rfl
  | node :: nodes => by
    simp [shiftAll, definitionsIn, definitions_shift k node, definitionsIn_shift k nodes]

end
end Node

theorem functionTable_shift (k : Nat) (body : List Node) :
    functionTable (Node.shiftAll k body) = (functionTable body).map (Table.shift k) := by
  have entered : ∀ (ds : List Definition) (t : Table Definition),
      (ds.map (Definition.shift k)).foldlM (fun t d => do return t.insert (← d.name.key) d)
        (Table.shift k t) =
      (ds.foldlM (fun t d => do return t.insert (← d.name.key) d) t : Except Fault _).map
        (Table.shift k) := by
    intro ds
    induction ds with
    | nil => exact fun t => rfl
    | cons d ds ih =>
      intro t
      simp only [List.map_cons, List.foldlM_cons]
      have name : (d.shift k).name = d.name := rfl
      rw [name]
      cases d.name.key with
      | error f => rfl
      | ok key =>
        simp only [ok_bind, pure_eq_ok]
        rw [Table.insert_shift]
        exact ih _
  rw [functionTable, Node.definitionsIn_shift]
  exact entered (Node.definitionsIn body) []

/-- A program that was moved runs as before, and fails where it was moved to. -/
theorem runNode_shift (k limit : Nat) (body : List Node) :
    (runNode 0 limit (.program (Node.shiftAll k body))).outcome =
      (runNode 0 limit (.program body)).outcome.shift k := by
  have nested := execute_lockstep (shift_lockstep k) (fun s _ same => same ▸ rfl) limit
  simp only [runNode, functionTable_shift]
  cases functionTable body with
  | error f => rfl
  | ok functions =>
    have start : globalScope (Table.shift k functions) = (globalScope functions).shift k := rfl
    exact runAll_lockstep (shift_lockstep k) nested start (Node.shiftAll_rel k body)

end Primer
