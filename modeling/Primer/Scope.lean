import Primer.Node
import Primer.Table

/-! Scopes: a frame of variables and functions and the frames it lies in, the
nearest first. Lookup finds the nearest binding; a write goes to the own frame. -/
namespace Primer

/-- A variable, under the name it was first bound by: names of different sorts
can be one key. -/
structure Variable where
  name : Datum
  value : Datum
  deriving Repr

structure Frame where
  values : Table Variable
  functions : Table Definition
  deriving Repr

def Frame.empty : Frame := ⟨[], []⟩

structure Scope where
  frame : Frame
  parents : List Frame
  deriving Repr

namespace Scope

def root : Scope := ⟨.empty, []⟩

def frames (s : Scope) : List Frame := s.frame :: s.parents

/-- A new scope inside another one. -/
def child (s : Scope) : Scope := ⟨.empty, s.frames⟩

/-- The scope around a scope. A root is left as it is. -/
def leave (s : Scope) : Scope :=
  match s.parents with
  | [] => s
  | frame :: parents => ⟨frame, parents⟩

/-- The value of a name. A name that is unbound has the value null, and so has
one that is bound to null. -/
def get (s : Scope) (k : Key) : Datum :=
  (s.frames.findSome? fun f => (f.values.find? k).map Variable.value).getD .null

/-- Binds a name in the own frame. -/
def set (s : Scope) (k : Key) (v : Datum) (name : Datum := k.datum) : Scope :=
  let first := ((s.frame.values.find? k).map Variable.name).getD name
  { s with frame := { s.frame with values := s.frame.values.insert k ⟨first, v⟩ } }

def function? (s : Scope) (k : Key) : Option Definition :=
  s.frames.findSome? fun f => f.functions.find? k

/-- Defines a function; an earlier one of the name is replaced. -/
def defineAs (s : Scope) (k : Key) (d : Definition) : Scope :=
  { s with frame := { s.frame with functions := s.frame.functions.insert k d } }

def define (s : Scope) (d : Definition) : Except Fault Scope := do
  return s.defineAs (← d.name.key) d

@[simp] theorem leave_child (s : Scope) : s.child.leave = s := rfl

@[simp] theorem get_child (s : Scope) (k : Key) : s.child.get k = s.get k := rfl

@[simp] theorem function?_child (s : Scope) (k : Key) : s.child.function? k = s.function? k := rfl

@[simp] theorem function?_set (s : Scope) (j k : Key) (v name : Datum) :
    (s.set j v name).function? k = s.function? k := rfl

@[simp] theorem get_set_self (s : Scope) (k : Key) (v name : Datum) :
    (s.set k v name).get k = v := by
  simp [get, set, frames, Table.find?_insert_self]

theorem get_set_of_ne (s : Scope) {j k : Key} (other : k ≠ j) (v name : Datum) :
    (s.set k v name).get j = s.get j := by
  simp only [get, set, frames, List.findSome?_cons, Table.find?_insert_of_ne _ other]

end Scope

/-- The functions a list of statements defines at any depth. -/
def functionTable (body : List Node) : Except Fault (Table Definition) :=
  (Node.definitionsIn body).foldlM (fun t d => do return t.insert (← d.name.key) d) []

end Primer
