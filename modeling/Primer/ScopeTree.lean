import Primer.Execution
import Primer.Parser

/-! A growing family of scopes, numbered in the order of creation from the root
on, for working in several of them at once. -/
namespace Primer

/-- Frames, each with the number of the scope around it. -/
structure ScopeTree where
  frames : List (Frame × Option Nat)
  deriving Repr

namespace ScopeTree

def start : ScopeTree := ⟨[(.empty, none)]⟩

/-- The frames from a scope up to the root, at most `bound` of them. -/
def chain (t : ScopeTree) : Nat → Nat → List Frame
  | 0, _ => []
  | bound + 1, i =>
    match t.frames[i]? with
    | none => []
    | some (frame, none) => [frame]
    | some (frame, some parent) => frame :: chain t bound parent

def scope (t : ScopeTree) (i : Nat) : Scope :=
  match t.chain t.frames.length i with
  | [] => .root
  | frame :: parents => ⟨frame, parents⟩

def child (t : ScopeTree) (i : Nat) : Nat × ScopeTree :=
  (t.frames.length, ⟨t.frames ++ [(.empty, some i)]⟩)

def put (t : ScopeTree) (i : Nat) (s : Scope) : ScopeTree :=
  ⟨t.frames.modify i fun entry => (s.frame, entry.2)⟩

/-- Defines the functions that stand directly in a body. -/
def defineAll (t : ScopeTree) (i : Nat) : List Node → Except Fault ScopeTree
  | [] => .ok t
  | .define name params body offset :: nodes => do
    let s ← (t.scope i).define ⟨name, params, body, offset⟩
    (t.put i s).defineAll i nodes
  | _ :: nodes => t.defineAll i nodes

/-- Executes the statements of a body in scope `i`, without defining its functions. -/
def executeAll (t : ScopeTree) (limit i : Nat) (body : List Node) : Outcome × ScopeTree :=
  let outcome := runAll (execute 0 limit) body (t.scope i)
  (outcome, t.put i outcome.scope)

end ScopeTree
end Primer
