import Primer.Proofs.Agreement

/-! Execution with one flat map in place of a chain of frames. The map is passed by
value: a block or a call works on a copy of it, and afterwards the map is as it was.
Main statement: in scopes that agree a statement is executed alike, and as it is with
the flat map. -/
namespace Primer

/-- Enters a table into another one, whose entries of the same keys it replaces. -/
def Table.update (base t : Table α) : Table α := t.foldr (fun entry u => u.insert entry.1 entry.2) base

def Frame.update (base f : Frame) : Frame :=
  ⟨Table.update base.values f.values, Table.update base.functions f.functions⟩

/-- The frames of a chain in one, the nearest first. -/
def Frame.merged : List Frame → Frame
  | [] => .empty
  | f :: frames => (merged frames).update f

/-- The bindings that a scope shows, in a single frame. -/
def Scope.flatten (s : Scope) : Scope := ⟨.merged s.frames, []⟩

/-- Goes back to a map that was copied before. -/
def Outcome.restore (o : Outcome) (s : Scope) : Outcome := { o with scope := s }

open Outcome

namespace Flat

/-- Runs the body of a function on a copy of the caller's map. -/
def enter (run : Executor) (d : Definition) (args : List Datum) (s : Scope) : Outcome :=
  ((bindParams run s (d.params.zip args) s).andThen (run d.body)).restore s

def callFound (verbosity : Nat) (run : Executor) (name : Datum) (args : List Datum) (s : Scope) :
    Option Definition → Outcome
  | none => failNaming name s .undefinedFunction
  | some d =>
    if d.params.length = args.length then
      (traced verbosity 2 (fun _ => callText name args) s).andThen (enter run d args)
    else failNaming name s (.arityMismatch · d.params.length args.length)

def perform (verbosity : Nat) (run : Executor) (node : Node) (s : Scope) : Outcome :=
  match node with
  | .block statements _ => (runAll run statements s).restore s
  | .call name args _ =>
    attempt name.key s fun key => callFound verbosity run name args s (s.function? key)
  -- no other statement opens a frame
  | node => Primer.perform verbosity run node s

def executeWith (verbosity : Nat) (run : Executor) : Executor := fun node s =>
  ((traced verbosity 1 (fun _ => executeText node) s).andThen (perform verbosity run node)).stamp
    node.offset

/-- Executes a statement on a flat map. -/
def execute (verbosity : Nat) : Nat → Executor
  | 0 => fun _ s => fail s .tooDeep
  | limit + 1 => executeWith verbosity (execute verbosity limit)

end Flat

theorem Table.find?_update (base t : Table α) (k : Key) :
    (Table.update base t).find? k = (t.find? k).or (base.find? k) := by
  induction t with
  | nil => rfl
  | cons entry rest ih =>
    obtain ⟨j, a⟩ := entry
    change ((Table.update base rest).insert j a).find? k = _
    by_cases same : j = k
    · subst same
      rw [find?_insert_self]
      simp [find?]
    · rw [find?_insert_of_ne _ same, ih]
      simp [find?, same]

theorem find?_merged_values (frames : List Frame) (k : Key) :
    (Frame.merged frames).values.find? k = frames.findSome? fun f => f.values.find? k := by
  induction frames with
  | nil => rfl
  | cons f frames ih =>
    rw [Frame.merged, Frame.update, Table.find?_update, ih, List.findSome?_cons]
    cases f.values.find? k <;> rfl

theorem find?_merged_functions (frames : List Frame) (k : Key) :
    (Frame.merged frames).functions.find? k = frames.findSome? fun f => f.functions.find? k := by
  induction frames with
  | nil => rfl
  | cons f frames ih =>
    rw [Frame.merged, Frame.update, Table.find?_update, ih, List.findSome?_cons]
    cases f.functions.find? k <;> rfl

/-- A flattened scope answers every lookup as before. -/
theorem Scope.agrees_flatten (s : Scope) : s.Agrees s.flatten := by
  refine ⟨fun k => ?_, fun k => ?_⟩
  · have single : s.flatten.get k =
        (((Frame.merged s.frames).values.find? k).map Variable.value).getD .null := by
      simp [Scope.get, Scope.flatten, Scope.frames]
    rw [single, find?_merged_values, List.map_findSome?]
    rfl
  · have single : s.flatten.function? k = (Frame.merged s.frames).functions.find? k := by
      simp [Scope.function?, Scope.flatten, Scope.frames]
    rw [single, find?_merged_functions]
    rfl

/-- An executor on chains and one on flat maps that treat a statement alike. -/
def Refines (run flat : Executor) : Prop :=
  ∀ ⦃node s t⦄, s.Agrees t → (run node s).Agrees (flat node t)

section Refinement
variable {run flat : Executor} (nested : Refines run flat) {s t : Scope} (agree : s.Agrees t)
include nested agree

theorem runAll_refines (nodes : List Node) : (runAll run nodes s).Agrees (runAll flat nodes t) := by
  induction nodes generalizing s t with
  | nil => exact .done agree
  | cons node nodes ih => exact .andThen (nested agree) fun _ _ later => ih later

theorem runTimes_refines (body : Node) (n : Nat) :
    (runTimes (run body) n s).Agrees (runTimes (flat body) n t) := by
  induction n generalizing s t with
  | zero => exact .done agree
  | succ n ih => exact .andThen (nested agree) fun _ _ later => ih later

theorem bindParams_refines {caller copied : Scope} (callers : caller.Agrees copied)
    (pairs : List (Datum × Datum)) :
    (bindParams run caller pairs s).Agrees (bindParams flat copied pairs t) := by
  induction pairs generalizing s t with
  | nil => exact .done agree
  | cons pair pairs ih =>
    simp only [bindParams, Scope.argument_congr callers.get]
    exact .attempt agree _ fun value => .andThen (nested agree) fun _ _ later => ih later

theorem block_refines (confined : ConfinedRun run) (nodes : List Node) :
    (runAll run nodes s.child).leave.Agrees ((runAll flat nodes t).restore t) := by
  have inside := runAll_refines nested agree.child nodes
  refine ⟨inside.events, inside.failure, ?_⟩
  rw [block_scope confined nodes s]
  exact agree

theorem enter_refines (confined : ConfinedRun run) (d : Definition) (args : List Datum) :
    (enter run d args s).Agrees (Flat.enter flat d args t) := by
  have bound := bindParams_refines nested agree.child agree (d.params.zip args)
  have body : ∀ ⦃s t⦄, s.Agrees t → (run d.body s).Agrees (flat d.body t) :=
    fun _ _ later => nested later
  have inside := bound.andThen body
  refine ⟨inside.events, inside.failure, ?_⟩
  rw [enter_scope confined d args s]
  exact agree

omit nested in
theorem failNaming_agrees (name : Datum) (problem : String → Problem) :
    (failNaming name s problem).Agrees (failNaming name t problem) :=
  .attempt agree _ fun _ => .fail agree _

theorem callFound_refines (confined : ConfinedRun run) (verbosity : Nat) (name : Datum)
    (args : List Datum) (found : Option Definition) :
    (callFound verbosity run name args s found).Agrees
      (Flat.callFound verbosity flat name args t found) := by
  cases found with
  | none => exact failNaming_agrees agree name _
  | some d =>
    simp only [callFound, Flat.callFound]
    split
    · exact .andThen (.traced agree ..) fun _ _ later => enter_refines nested later confined d args
    · exact failNaming_agrees agree name _

theorem branch_refines (verbosity : Nat) (condition : Datum) (yes no : Node) (offset : Datum) :
    (perform verbosity run (.branch condition yes no offset) s).Agrees
      (perform verbosity flat (.branch condition yes no offset) t) := by
  simp only [perform, Scope.test_congr agree.get]
  refine .attempt agree _ fun truth => .andThen (.traced agree ..) fun _ _ later => ?_
  cases truth with
  | true => exact nested later
  | false =>
    cases no with
    | missing => exact .done later
    | _ => exact nested later

omit nested in
theorem runBinding_agrees (verbosity : Nat) (verb : String) (name value : Datum) :
    (runBinding verbosity verb name value s).Agrees (runBinding verbosity verb name value t) :=
  .attempt agree _ fun key => .traced (agree.set key value name) ..

theorem perform_refines (confined : ConfinedRun run) (verbosity : Nat) (node : Node) :
    (perform verbosity run node s).Agrees (Flat.perform verbosity flat node t) := by
  cases node with
  | say message offset =>
    cases message with
    | text m =>
      simp only [perform, Flat.perform, Scope.interpolate_congr agree.get]
      exact .attempt agree _ fun shown => ⟨rfl, rfl, agree⟩
    | _ => exact .fail agree _
  | math op operands keyword offset =>
    simp only [perform, Flat.perform]
    cases op.apply operands with
    | ok n => exact .attempt agree _ fun shown => ⟨rfl, rfl, agree⟩
    | error p => exact .fail agree _
  | block nodes offset => exact block_refines nested agree confined nodes
  | loop count body offset => exact runTimes_refines nested agree body count.toNat
  | define name params body offset => exact .done agree
  | call name args offset =>
    simp only [perform, runCall, Flat.perform, agree.function?]
    exact .attempt agree _ fun key => callFound_refines nested agree confined verbosity name args _
  | declare name value offset => exact runBinding_agrees agree verbosity "declare" name value
  | branch condition yes no offset => exact branch_refines nested agree verbosity condition yes no offset
  | assign name value offset =>
    simp only [perform, Flat.perform, Scope.assigned_congr agree.get]
    exact runBinding_agrees agree verbosity "set" name _
  | missing => exact .fail agree _
  | program body => exact .fail agree _

end Refinement

theorem execute_refines (verbosity limit : Nat) :
    Refines (execute verbosity limit) (Flat.execute verbosity limit) := by
  induction limit with
  | zero => exact fun node s t agree => .fail agree .tooDeep
  | succ limit ih =>
    intro node s t agree
    have confined := execute_confined verbosity limit
    exact .stamp (.andThen (.traced agree ..) fun _ _ later =>
      perform_refines ih later confined verbosity node) node.offset

/-- In scopes that agree a statement is executed alike: both chains refine the flat execution
in the second of them. -/
theorem execute_congr (verbosity limit : Nat) :
    Refines (execute verbosity limit) (execute verbosity limit) := by
  intro node s t agree
  have first : (execute verbosity limit node s).Agrees (Flat.execute verbosity limit node t) :=
    execute_refines verbosity limit agree
  have second : (execute verbosity limit node t).Agrees (Flat.execute verbosity limit node t) :=
    execute_refines verbosity limit (.refl t)
  exact first.trans second.symm

theorem flatPerform_confined (verbosity : Nat) {run : Executor} (nested : ConfinedRun run)
    (node : Node) (s : Scope) : Confined s (Flat.perform verbosity run node s).scope := by
  cases node with
  | block nodes offset => exact .refl s
  | call name args offset =>
    refine attempt_confined (.refl s) fun key => ?_
    cases s.function? key with
    | none => exact attempt_confined (.refl s) fun _ => .refl s
    | some d =>
      simp only [Flat.callFound]
      split
      · refine andThen_confined ?_ fun t => .refl t
        rw [scope_traced]
        exact .refl s
      · exact attempt_confined (.refl s) fun _ => .refl s
  | _ => exact perform_confined nested verbosity _ s

/-- Flat execution opens no frame: a single frame stays one. -/
theorem flatExecute_confined (verbosity limit : Nat) : ConfinedRun (Flat.execute verbosity limit) := by
  induction limit with
  | zero => exact fun _ s => .refl s
  | succ limit ih =>
    intro node s
    simp only [Flat.execute, Flat.executeWith, scope_stamp]
    refine andThen_confined ?_ (flatPerform_confined verbosity ih node)
    rw [scope_traced]
    exact .refl s

/-- In scopes that agree on every lookup a statement says and traces the same, ends the
same way and leaves scopes that agree; and so it does with a single flat map that is
copied at each block and call. -/
theorem execute_agrees (verbosity limit : Nat) (node : Node) {s t : Scope} (agree : s.Agrees t) :
    (execute verbosity limit node s).Agrees (execute verbosity limit node t) ∧
    (execute verbosity limit node s).Agrees (Flat.execute verbosity limit node s.flatten) ∧
    s.flatten.parents = [] ∧ (Flat.execute verbosity limit node s.flatten).scope.parents = [] := by
  -- both chains refine the flat execution in the second of them
  have first : (execute verbosity limit node s).Agrees (Flat.execute verbosity limit node t) :=
    execute_refines verbosity limit agree
  have second : (execute verbosity limit node t).Agrees (Flat.execute verbosity limit node t) :=
    execute_refines verbosity limit (.refl t)
  refine ⟨first.trans second.symm, execute_refines verbosity limit s.agrees_flatten, rfl, ?_⟩
  exact (flatExecute_confined verbosity limit node s.flatten).parents

/-- A name that hides another, one frame further in. -/
def shadowing : Scope :=
  ((Scope.root.set (.text "x") (.int 1)).child.set (.text "x") (.int 2)).child

def unshadowed : Scope := Scope.root.set (.text "x") (.int 2)

theorem shadowing_agrees : shadowing.Agrees unshadowed := by
  refine ⟨fun k => ?_, fun k => rfl⟩
  by_cases same : Key.text "x" = k
  · subst same
    rfl
  · simp only [shadowing, unshadowed, Scope.get_child, Scope.get_set_of_ne _ same]

theorem execute_agrees_shadowing :
    let node : Node := .block [.assign (.text "y") (.text "$x") .null, .say (.text "$y $x") .null] .null
    shadowing.Agrees unshadowed ∧ (execute 3 9 node shadowing).Agrees (execute 3 9 node unshadowed) :=
  ⟨shadowing_agrees, (execute_agrees 3 9 _ shadowing_agrees).1⟩

end Primer
