import Primer.Proofs.Frame
import Primer.Proofs.WellFormed
import Primer.Run

/-! The values that programs compute with. Every variable of a running program holds
text or a number that can be written, and every function it can call is well formed,
so that saying a message, binding a name and tracing cannot fail. -/
namespace Primer

structure Frame.Valid (f : Frame) : Prop where
  values : ∀ x ∈ f.values, x.2.value.IsValue
  functions : ∀ x ∈ f.functions, x.2.node.WellFormed

def Scope.Valid (s : Scope) : Prop := ∀ f ∈ s.frames, f.Valid

namespace Table

theorem mem_of_find? {t : Table α} {k : Key} {a : α} (found : t.find? k = some a) : (k, a) ∈ t := by
  induction t with
  | nil => cases found
  | cons entry rest ih =>
    simp only [find?] at found
    split at found
    · rename_i same
      cases same
      cases found
      exact List.mem_cons_self
    · exact List.mem_cons_of_mem _ (ih found)

theorem mem_insert {t : Table α} {k : Key} {a : α} {x : Key × α} (inside : x ∈ t.insert k a) :
    x = (k, a) ∨ x ∈ t := by
  induction t with
  | nil => exact .inl (List.mem_singleton.mp inside)
  | cons entry rest ih =>
    simp only [insert] at inside
    split at inside
    · rcases List.mem_cons.mp inside with first | later
      · exact .inl first
      · exact .inr (List.mem_cons_of_mem _ later)
    · rcases List.mem_cons.mp inside with first | later
      · exact .inr (first ▸ List.mem_cons_self)
      · exact (ih later).imp_right (List.mem_cons_of_mem _)

end Table

namespace Scope

theorem valid_cons {f : Frame} {parents : List Frame} :
    Valid ⟨f, parents⟩ ↔ f.Valid ∧ ∀ g ∈ parents, g.Valid := List.forall_mem_cons

theorem valid_child {s : Scope} (valid : s.Valid) : s.child.Valid :=
  valid_cons.mpr ⟨⟨by simp [Frame.empty], by simp [Frame.empty]⟩, valid⟩

theorem valid_leave {s : Scope} (valid : s.Valid) : s.leave.Valid := by
  obtain ⟨f, parents⟩ := s
  cases parents with
  | nil => exact valid
  | cons g parents => exact (valid_cons.mp valid).2

theorem valid_set {s : Scope} (valid : s.Valid) (k : Key) {v : Datum} (value : v.IsValue)
    (name : Datum) : (s.set k v name).Valid := by
  obtain ⟨own, others⟩ := valid_cons.mp valid
  refine valid_cons.mpr ⟨⟨fun x inside => ?_, own.functions⟩, others⟩
  rcases Table.mem_insert inside with rfl | old
  · exact value
  · exact own.values x old

theorem get_isValue {s : Scope} (valid : s.Valid) (k : Key) : s.get k = .null ∨ (s.get k).IsValue := by
  unfold get
  cases found : s.frames.findSome? fun f => (f.values.find? k).map Variable.value with
  | none => exact .inl rfl
  | some value =>
    obtain ⟨f, inside, here⟩ := List.exists_of_findSome?_eq_some found
    obtain ⟨x, bound, rfl⟩ := Option.map_eq_some_iff.mp here
    exact .inr ((valid f inside).values _ (Table.mem_of_find? bound))

theorem function?_wellFormed {s : Scope} (valid : s.Valid) {k : Key} {d : Definition}
    (found : s.function? k = some d) : d.node.WellFormed := by
  obtain ⟨f, inside, here⟩ := List.exists_of_findSome?_eq_some found
  exact (valid f inside).functions _ (Table.mem_of_find? here)

theorem resolve_isValue {s : Scope} (valid : s.Valid) {operand : List Char} {value : Datum}
    (resolved : s.resolve operand = .ok value) : value.IsValue := by
  simp only [resolve] at resolved
  split at resolved
  · exact literal_isValue resolved
  · rename_i unbound
    cases resolved
    exact (get_isValue valid _).resolve_left unbound

theorem argument_isValue {s : Scope} (valid : s.Valid) {arg value : Datum}
    (resolved : s.argument arg = .ok value) : value.IsValue := by
  unfold argument at resolved
  split at resolved
  · exact resolve_isValue valid resolved
  · cases resolved

theorem assigned_isValue {s : Scope} (valid : s.Valid) {value : Datum} (isValue : value.IsValue) :
    (s.assigned value).IsValue := by
  unfold assigned
  split
  · split
    · split
      · exact isValue
      · rename_i unbound
        exact (get_isValue valid _).resolve_left unbound
    · exact isValue
  · exact isValue

end Scope

theorem writeWhole_ok {n : Int} (small : n.natAbs < tenTo digitLimit) :
    writeWhole n = .ok (toString n) := if_pos small

theorem Datum.display_int (n : Int) : (Datum.int n).display = writeWhole n := by
  simp only [Datum.display, Datum.inspect]

theorem Datum.IsValue.inspect_ok {value : Datum} (isValue : value.IsValue) :
    ∃ shown, value.inspect = .ok shown := by
  cases value with
  | text s => exact ⟨quoted s, by simp [Datum.inspect]⟩
  | int n => exact ⟨toString n, by simpa [Datum.inspect] using writeWhole_ok isValue⟩
  | _ => cases isValue

theorem Datum.IsValue.display_ok {value : Datum} (isValue : value.IsValue) :
    ∃ shown, value.display = .ok shown := by
  cases value with
  | text s => exact ⟨s, rfl⟩
  | int n => exact isValue.inspect_ok
  | _ => cases isValue

namespace Scope

theorem substitute_ok {s : Scope} (valid : s.Valid) (name : List Char) :
    ∃ shown, s.substitute name = .ok shown := by
  unfold substitute
  split
  · exact ⟨_, rfl⟩
  · split
    · exact ⟨_, rfl⟩
    · rename_i unbound
      obtain ⟨shown, display⟩ := ((get_isValue valid _).resolve_left unbound).display_ok
      exact ⟨shown.toList, by rw [display]; rfl⟩

theorem expand_ok {s : Scope} (valid : s.Valid) (name : Option (List Char)) (message : List Char) :
    ∃ shown, s.expand name message = .ok shown := by
  induction message generalizing name with
  | nil =>
    cases name with
    | none => exact ⟨[], rfl⟩
    | some name => exact substitute_ok valid name
  | cons c message ih =>
    obtain ⟨plain, read⟩ := ih none
    obtain ⟨fresh, named⟩ := ih (some [])
    cases name with
    | none =>
      simp only [expand, read, named, ok_bind]
      split <;> exact ⟨_, rfl⟩
    | some name =>
      obtain ⟨longer, word⟩ := ih (some (name ++ [c]))
      obtain ⟨value, substituted⟩ := substitute_ok valid name
      simp only [expand, read, named, word, substituted, ok_bind]
      split
      · exact ⟨_, rfl⟩
      · split <;> exact ⟨_, rfl⟩

theorem interpolate_ok {s : Scope} (valid : s.Valid) (message : String) :
    ∃ shown, s.interpolate message = .ok shown := by
  obtain ⟨shown, expanded⟩ := expand_ok valid none message.toList
  exact ⟨String.ofList shown, by rw [interpolate, expanded]; rfl⟩

end Scope

theorem bindingText_ok (verb : String) (name : List Char) {value : Datum} (isValue : value.IsValue) :
    ∃ shown, bindingText verb (textOf name) value = .ok shown := by
  obtain ⟨shown, inspected⟩ := isValue.inspect_ok
  exact ⟨_, by simp only [bindingText, textOf, Datum.display, inspected, ok_bind]; rfl⟩

/-- What is executed: statements that were read, and the declarations of parameters. -/
inductive Node.Runnable : Node → Prop
  | statement {node : Node} : node.WellFormed → Runnable node
  | declaration {name : List Char} {value : Datum} : value.IsValue →
      Runnable (.declare (textOf name) value .null)

theorem zip_params_named {d : Definition} (formed : d.node.WellFormed) (args : List Datum) :
    ∀ pair ∈ d.params.zip args, ∃ param, pair.1 = textOf param := by
  intro pair inside
  obtain ⟨params, named⟩ := definition_params formed
  obtain ⟨param, -, same⟩ := List.mem_map.mp (named ▸ (List.of_mem_zip inside).1)
  exact ⟨param, same.symm⟩

theorem Node.Runnable.of_runs {node inner : Node} {s : Scope} (runnable : node.Runnable)
    (valid : s.Valid) (runs : node.Runs s inner) : inner.Runnable := by
  cases runnable with
  | declaration => cases runs
  | statement formed =>
    cases runs with
    | statement member =>
      cases formed with
      | block all => exact .statement (all _ member)
    | round =>
      cases formed with
      | loop _ _ body => exact .statement body
    | yes =>
      cases formed with
      | branch _ _ yes | branchElse _ _ yes => exact .statement yes
    | no present =>
      cases formed with
      | branch => exact absurd rfl present
      | branchElse _ _ _ _ no => exact .statement no
    | body _ found => exact .statement (definition_body (Scope.function?_wellFormed valid found))
    | parameter _ found inside resolved =>
      obtain ⟨param, rfl⟩ := zip_params_named (Scope.function?_wellFormed valid found) _ _ inside
      exact .declaration (Scope.argument_isValue valid resolved)

theorem Node.Runnable.binds_isValue {node : Node} {s : Scope} (runnable : node.Runnable)
    (valid : s.Valid) {key : Key} {value name : Datum} (binds : node.Binds s key value name) :
    value.IsValue := by
  cases binds with
  | declare =>
    cases runnable with
    | declaration isValue => exact isValue
    | statement formed => cases formed
  | assign =>
    cases runnable with
    | statement formed =>
      cases formed with
      | assign _ isValue => exact Scope.assigned_isValue valid isValue

open Outcome

theorem valid_invariant (verbosity : Nat) :
    Invariant verbosity Node.Runnable Node.Runnable Scope.Valid (fun _ o => o.scope.Valid) where
  runs runnable valid := runnable.of_runs valid
  child := Scope.valid_child
  done valid := valid
  fail _ _ _ valid := valid
  say _ valid := valid
  set runnable valid binds := Scope.valid_set valid _ (runnable.binds_isValue valid binds) _
  executes _ valid := by
    rw [scope_traced]
    exact valid
  traces _ _ _ valid := by
    rw [scope_traced]
    exact valid
  ends valid _ := valid
  andThen {_ o _} first rest := by
    unfold andThen
    cases ended : o.failure with
    | some f => exact first
    | none => exact rest ended
  leave _ inside := Scope.valid_leave inside
  stamp offset valid := by
    rw [scope_stamp]
    exact valid

/-- An executor of nested statements that keeps scopes valid. -/
def ValidRun (run : Executor) : Prop :=
  ∀ ⦃node s⦄, node.Runnable → s.Valid → (run node s).scope.Valid

/-- Execution keeps scopes valid, however it ends. -/
theorem execute_valid (verbosity limit : Nat) : ValidRun (execute verbosity limit) :=
  execute_invariant (valid_invariant verbosity) (fun _ valid => valid) limit

section Preservation
variable {run : Executor} (nested : ValidRun run) {s : Scope} (valid : s.Valid)
include nested valid

theorem runAll_valid {nodes : List Node} (formed : ∀ n ∈ nodes, n.WellFormed) :
    (runAll run nodes s).scope.Valid :=
  runAll_invariant (valid_invariant 0) nested valid fun n member => .statement (formed n member)

theorem runTimes_valid {body : Node} (formed : body.WellFormed) (n : Nat) :
    (runTimes (run body) n s).scope.Valid :=
  runTimes_invariant (valid_invariant 0) nested valid (.statement formed) n

theorem bindParams_valid {caller : Scope} (around : caller.Valid) {pairs : List (Datum × Datum)}
    (named : ∀ pair ∈ pairs, ∃ param, pair.1 = textOf param) :
    (bindParams run caller pairs s).scope.Valid := by
  apply bindParams_invariant (valid_invariant 0) nested valid pairs fun _ _ _ _ _ valid => valid
  intro pair inside value resolved
  obtain ⟨param, name⟩ := named pair inside
  rw [name]
  exact .declaration (Scope.argument_isValue around resolved)

end Preservation

theorem mem_functionTable {ds : List Definition} {start table : Table Definition}
    (filled : ds.foldlM (fun t d => do return t.insert (← d.name.key) d) start =
      (.ok table : Except Fault (Table Definition))) :
    ∀ x ∈ table, x.2 ∈ ds ∨ x ∈ start := by
  induction ds generalizing start with
  | nil => cases filled; exact fun x inside => .inr inside
  | cons d ds ih =>
    obtain ⟨next, entered, filled⟩ := bind_eq_ok.mp filled
    obtain ⟨key, _, entered⟩ := bind_eq_ok.mp entered
    cases entered
    intro x inside
    rcases ih filled x inside with defined | old
    · exact .inl (List.mem_cons_of_mem d defined)
    · rcases Table.mem_insert old with rfl | older
      · exact .inl List.mem_cons_self
      · exact .inr older

theorem globalScope_valid {body : List Node} (formed : ∀ n ∈ body, n.WellFormed)
    {functions : Table Definition} (table : functionTable body = .ok functions) :
    (globalScope functions).Valid := by
  refine Scope.valid_cons.mpr ⟨⟨by simp, fun x inside => ?_⟩, by simp⟩
  rcases mem_functionTable table x inside with defined | old
  · exact definitionsIn_wellFormed formed _ defined
  · cases old

end Primer
