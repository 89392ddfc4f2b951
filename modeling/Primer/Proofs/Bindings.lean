import Primer.Proofs.Globals
import Primer.Proofs.Hoisting
import Primer.Proofs.Tracing

/-! The variables of a running program. Names are bound by assignments and by calls, to
literals that were read and to values of other names, and never to results of arithmetic.
Main statement: at every moment every variable holds a value that can be written, so that
saying a message and assigning never fail. -/
namespace Primer

open Node Outcome

section Moments
variable {verbosity limit : Nat}

/-- Some of the parameters of a well-formed function have been bound. -/
theorem bindParams_part_valid {s : Scope} (valid : s.Valid) {d : Definition}
    (formed : d.node.WellFormed) {args : List Datum} {before after : List (Datum × Datum)}
    (split : d.params.zip args = before ++ after) :
    (bindParams (execute verbosity limit) s before s.child).scope.Valid := by
  have named := zip_params_named formed args
  rw [split] at named
  exact bindParams_valid (execute_valid verbosity limit) (Scope.valid_child valid) valid
    fun pair inside => named pair (List.mem_append_left _ inside)

/-- An execution in a valid scope keeps scopes valid at every moment until it ends. -/
theorem Passes.valid {node : Node} {s u : Scope} (passes : Passes verbosity limit node s u)
    (runnable : node.Runnable) (valid : s.Valid) : u.Valid := by
  induction passes with
  | start => exact valid
  | opened _ => exact Scope.valid_child valid
  | parameter _ found _ split ends resolved _ ih =>
    have formed := Scope.function?_wellFormed valid found
    obtain ⟨param, rfl⟩ := zip_params_named formed _ _
      (split ▸ List.mem_append_right _ List.mem_cons_self)
    apply ih (.declaration (Scope.argument_isValue valid resolved))
    exact ends.2 ▸ bindParams_part_valid valid formed split
  | entered enters _ ih =>
    cases runnable with
    | declaration => cases enters
    | statement formed =>
      obtain ⟨inner, inside⟩ := enters.valid (execute_valid verbosity _) formed valid
      exact ih (.statement inner) inside
  | finish => exact execute_valid verbosity _ runnable valid

/-- The statements before one of a program leave a valid scope. -/
theorem statement_valid {body before after : List Node} {node : Node} {functions : Table Definition}
    {s : Scope} (formed : ∀ n ∈ body, n.WellFormed) (table : functionTable body = .ok functions)
    (split : body = before ++ node :: after)
    (ends : (runAll (execute verbosity limit) before (globalScope functions)).Ends s) :
    node.WellFormed ∧ s.Valid := by
  have valid := globalScope_valid formed table
  rw [split, List.forall_mem_append] at formed
  have kept := runAll_valid (execute_valid verbosity limit) valid formed.1
  exact ⟨formed.2 node List.mem_cons_self, ends.2 ▸ kept⟩

theorem RunPasses.valid {body : List Node} {u : Scope} (passes : RunPasses verbosity limit body u)
    (formed : ∀ n ∈ body, n.WellFormed) : u.Valid := by
  cases passes with
  | start table => exact globalScope_valid formed table
  | statement table split ends passes =>
    obtain ⟨statement, valid⟩ := statement_valid formed table split ends
    exact passes.valid (.statement statement) valid

end Moments

def Node.isSay : Node → Bool
  | .say .. => true
  | _ => false

section Statements
variable {verbosity limit last : Nat} {body : List Node} {node final : Node} {s t : Scope}

theorem Reaches.valid (reaches : Reaches verbosity limit node s last final t)
    (formed : node.WellFormed) (valid : s.Valid) : final.WellFormed ∧ t.Valid := by
  induction reaches with
  | refl => exact ⟨formed, valid⟩
  | step enters _ ih =>
    obtain ⟨inner, inside⟩ := enters.valid (execute_valid verbosity _) formed valid
    exact ih inner inside

theorem RunReaches.valid (reaches : RunReaches verbosity limit body last node s)
    (formed : ∀ n ∈ body, n.WellFormed) : node.WellFormed ∧ s.Valid := by
  obtain ⟨table, split, ends, reaches⟩ := reaches
  obtain ⟨statement, valid⟩ := statement_valid formed table split ends
  exact reaches.valid statement valid

theorem nodes_subset_nodesIn (member : node ∈ body) : node.nodes ⊆ nodesIn body :=
  fun _ inside => mem_nodesIn.mpr ⟨node, member, inside⟩

/-- A scope whose functions stand in a tree. -/
def Scope.Within (tree : List Node) (s : Scope) : Prop :=
  ∀ k d, s.function? k = some d → d.body.nodes ⊆ tree

theorem Confined.within {tree : List Node} (kept : Confined s t) (within : s.Within tree) :
    t.Within tree :=
  fun k d found => within k d (kept.function? k ▸ found)

/-- A statement comes only to its own nodes and to those of functions. -/
theorem Enters.subset {tree : List Node} {run : Executor} {inner : Node}
    (enters : Enters run node s inner t) (own : node.nodes ⊆ tree) (within : s.Within tree) :
    inner.nodes ⊆ tree := by
  cases enters with
  | statement _ =>
    have member : ∀ {before after}, inner ∈ before ++ inner :: after :=
      List.mem_append_right _ List.mem_cons_self
    exact fun n inside => own (List.mem_cons_of_mem _ (nodes_subset_nodesIn member inside))
  | round _ _ => exact fun n inside => own (List.mem_cons_of_mem _ inside)
  | body _ found _ _ => exact within _ _ found
  | yes _ => exact fun n inside => own (nodes_yes inside _ _ _)
  | no _ present => exact fun n inside => own (nodes_no present inside _ _ _)

theorem Reaches.subset {tree : List Node} (reaches : Reaches verbosity limit node s last final t)
    (own : node.nodes ⊆ tree) (within : s.Within tree) : final.nodes ⊆ tree := by
  induction reaches with
  | refl => exact own
  | step enters _ ih =>
    apply ih (enters.subset own within)
    exact enters.keeps (fun _ holds => holds) (fun _ _ kept holds => kept.within holds) within

theorem globalScope_within {functions : Table Definition} (table : functionTable body = .ok functions) :
    (globalScope functions).Within (nodesIn body) := by
  intro k d found n inside
  have own : functions.find? k = some d := (Hosts.global functions).function? k ▸ found
  rcases mem_functionTable table _ (Table.mem_of_find? own) with defined | old
  · have member : d.node ∈ nodesIn body := (mem_definitionsIn_iff d body).mp defined
    exact nodesIn_trans (List.mem_cons_of_mem _ inside) body member
  · cases old

/-- What a run executes stands in the program. -/
theorem RunReaches.mem (reaches : RunReaches verbosity limit body last node s) :
    node ∈ nodesIn body := by
  obtain @⟨functions, before, _, first, _, table, split, ends, reaches⟩ := reaches
  have member : first ∈ body := split ▸ List.mem_append_right _ List.mem_cons_self
  have confined := runAll_confined (execute_confined verbosity limit) before (globalScope functions)
  have within := confined.within (globalScope_within table)
  rw [ends.2] at within
  exact reaches.subset (nodes_subset_nodesIn member) within (self_mem_nodes node)

/-- Messages are said and names are bound without a failure, whatever is traced. -/
theorem perform_ends (verbosity : Nat) (run : Executor) (formed : node.WellFormed) (valid : s.Valid)
    (kind : node.isSay = true ∨ node.isAssign = true) :
    (perform verbosity run node s).failure = none := by
  cases formed with
  | @say m _ _ =>
    obtain ⟨shown, interpolated⟩ := Scope.interpolate_ok valid (String.ofList m)
    simp only [perform, textOf, interpolated]
    rfl
  | assign _ isValue => exact runBinding_ends verbosity "set" _ (Scope.assigned_isValue valid isValue) s
  | _ => simp [Node.isSay, Node.isAssign] at kind

theorem execute_ends (traceable : verbosity = 0 ∨ ∃ shown, executeText node = .ok shown)
    (performed : (perform verbosity (execute verbosity last) node s).failure = none) :
    (execute verbosity (last + 1) node s).failure = none := by
  have trace := executeText_ends traceable s
  rw [execute, executeWith, failure_stamp_none]
  refine (ends_andThen.mpr ⟨trace.1, ?_, rfl⟩).1
  rw [trace.2]
  exact performed

end Statements

/-- At every moment of a run every variable of every scope holds a value. So no statement of
the run that says a message or assigns fails; only in a source of more than
`tenTo digitLimit` characters has it an offset that cannot be traced. By `runNode_passes` the
scopes of the run itself are among the moments, and so are those of the statements it reaches. -/
theorem variables_hold_values {source : List Char} {body : List Node}
    (accepted : parse source = .ok (.program body)) (verbosity limit : Nat) :
    (∀ moment, RunPasses verbosity limit body moment → ∀ s : Scope, s.Encloses moment →
      ∀ x ∈ s.frame.values, x.2.value.IsValue) ∧
    ∀ last node s, RunReaches verbosity limit body last node s →
      node.isSay = true ∨ node.isAssign = true →
        (perform verbosity (execute verbosity last) node s).failure = none ∧
        (verbosity = 0 ∨ source.length ≤ tenTo digitLimit →
          (execute verbosity (last + 1) node s).failure = none) := by
  obtain ⟨_, same, formed⟩ := parse_wellFormed accepted
  cases same
  constructor
  · intro moment passes s around
    have valid := passes.valid formed
    exact (valid s.frame (around.mem List.mem_cons_self)).values
  · intro last node s reaches kind
    obtain ⟨nodeFormed, valid⟩ := reaches.valid formed
    have performed := perform_ends verbosity (execute verbosity last) nodeFormed valid kind
    refine ⟨performed, fun writable => execute_ends ?_ performed⟩
    rcases writable with silent | fits
    · exact .inl silent
    · obtain ⟨o, place, -, before⟩ := (parse_ascending accepted).mem reaches.mem
      exact .inr (executeText_ok place (before.trans_le fits))

/-- The statements of a program. -/
def Node.statements : Node → List Node
  | .program body => body
  | _ => []

/-- Names that are bound by an assignment, by a call and from other names. -/
def bindingSample : List Char :=
  "set x = 7\nfunction f(n) \x7bset y = $n\n say $y and $x\x7d\nrepeat 2 \x7bcall f(x)\x7d".toList

theorem variables_hold_values_bindingSample :
    ∃ body node s, parse bindingSample = .ok (.program body) ∧ RunReaches 3 9 body 8 node s ∧
      node.isAssign = true ∧ (execute 3 9 node s).failure = none ∧
      (∀ x ∈ (runNode 3 9 (.program body)).globals.frame.values, x.2.value.IsValue) ∧
      ∀ moment, RunPasses 3 9 body moment → ∀ s : Scope, s.Encloses moment →
        ∀ x ∈ s.frame.values, x.2.value.IsValue := by
  obtain ⟨body, accepted⟩ := parse_of_isOk (show (parse bindingSample).isOk = true by decide +kernel)
  obtain ⟨_, same, formed⟩ := parse_wellFormed accepted
  cases same
  obtain ⟨functions, table⟩ := wellFormed_hasTable formed
  obtain ⟨always, ends⟩ := variables_hold_values accepted 3 9
  have assigns : ((parse bindingSample).toOption.bind fun program =>
      program.statements.head?.map Node.isAssign) = some true := by decide +kernel
  rw [accepted] at assigns
  obtain ⟨node, first, isAssign⟩ := Option.map_eq_some_iff.mp assigns
  obtain ⟨rest, rfl⟩ := List.head?_eq_some_iff.mp first
  have reaches : RunReaches 3 9 (node :: rest) 8 node (globalScope functions) :=
    .statement table (List.nil_append _).symm ⟨rfl, rfl⟩ .refl
  have length : bindingSample.length ≤ tenTo 3 := by decide +kernel
  have fits := length.trans (tenTo_mono (show 3 ≤ digitLimit by decide))
  have ended := (ends 8 node _ reaches (.inr isAssign)).2 (.inr fits)
  have last := always _ (runNode_passes 3 9 table).2.1 _ List.suffix_rfl
  exact ⟨_, node, _, accepted, reaches, isAssign, ended, last, always⟩

end Primer
