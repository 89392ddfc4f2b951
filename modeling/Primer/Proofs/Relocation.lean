import Primer.Proofs.Flat
import Primer.Proofs.Iteration

/-! Where functions are defined. A definition that is reached does nothing, as all functions
are defined before the first statement, and the statements of a run see the table of functions
only by looking names up in it. Main statement: programs that differ in their top-level
definitions alone, and give every name the same function, run alike. -/
namespace Primer

open Outcome

def Node.isDefine : Node → Bool
  | .define .. => true
  | _ => false

def withoutDefinitions (nodes : List Node) : List Node := nodes.filter (!·.isDefine)

/-- Where chains of frames differ only in the order of their functions, a statement shows the same
and leaves such chains again. -/
theorem reordered_lockstep (verbosity : Nat) :
    Lockstep verbosity verbosity Eq Eq (Scope.Alike Eq)
      (fun _ _ o p => o.Agrees p ∧ o.scope.Alike Eq p.scope) where
  parallel {_ _ s _} same _ := same ▸ .self (s := s) fun _ _ => rfl
  get alike := alike.get
  child := .child
  function? {_ _ _ _ s t key} _ alike _ := by
    rw [alike.agrees.function? key]
    cases t.function? key with
    | none => exact .none
    | some d => exact .some ⟨rfl, rfl⟩
  parameter _ _ _ _ _ _ := rfl
  done alike := ⟨.done alike.agrees, alike⟩
  fail _ _ _ within := ⟨.fail within.agrees _, within⟩
  say _ alike := ⟨⟨rfl, rfl, alike.agrees⟩, alike⟩
  result same alike _ written written' := by
    cases same
    cases written.symm.trans written'
    exact ⟨⟨rfl, rfl, alike.agrees⟩, alike⟩
  set _ alike _ := ⟨.done (alike.set ..).agrees, alike.set ..⟩
  executes same alike := by
    subst same
    refine ⟨.traced alike.agrees .., ?_⟩
    rw [scope_traced, scope_traced]
    exact alike
  traces _ _ _ within := by
    refine ⟨.traced within.agrees .., ?_⟩
    rw [scope_traced, scope_traced]
    exact within
  ends related _ _ := related.2
  andThen {_ _ o p _ _} first rest := by
    refine ⟨first.1.andThen_ended fun ended ended' => (rest ended ended').1, ?_⟩
    unfold andThen
    have failure := first.1.failure
    cases ended : p.failure with
    | some f =>
      rw [failure, ended]
      exact first.2
    | none =>
      rw [failure, ended]
      exact (rest (failure.trans ended) ended).2
  leave _ inside := ⟨⟨inside.1.events, inside.1.failure, inside.2.leave.agrees⟩, inside.2.leave⟩
  stamp same related := by
    subst same
    refine ⟨related.1.stamp _, ?_⟩
    rw [scope_stamp, scope_stamp]
    exact related.2

/-- Two outcomes that say the same lines and end in the same way. Their traces may differ. -/
structure Outcome.EndsLike (o p : Outcome) : Prop where
  lines : o.lines = p.lines
  failure : o.failure = p.failure
  values : o.scope.frame.values = p.scope.frame.values

namespace Outcome.EndsLike
variable {o p q : Outcome}

theorem refl (o : Outcome) : o.EndsLike o := ⟨rfl, rfl, rfl⟩

theorem symm (same : o.EndsLike p) : p.EndsLike o :=
  ⟨same.lines.symm, same.failure.symm, same.values.symm⟩

theorem trans (first : o.EndsLike p) (second : p.EndsLike q) : o.EndsLike q :=
  ⟨first.lines.trans second.lines, first.failure.trans second.failure,
    first.values.trans second.values⟩

theorem andThen (o : Outcome) {next next' : Scope → Outcome} (rest : ∀ s, (next s).EndsLike (next' s)) :
    (o.andThen next).EndsLike (o.andThen next') := by
  cases ended : o.failure with
  | some f =>
    rw [andThen_of_failed ended, andThen_of_failed ended]
    exact .refl o
  | none =>
    have later := rest o.scope
    refine ⟨?_, ?_, ?_⟩
    · rw [lines_andThen ⟨ended, rfl⟩, lines_andThen ⟨ended, rfl⟩, later.lines]
    · simp only [Outcome.andThen, ended, later.failure]
    · simp only [Outcome.andThen, ended, later.values]

/-- An outcome without lines that ends where it started can be left out. -/
theorem skip {s : Scope} (ends : o.Ends s) (silent : o.lines = []) (next : Scope → Outcome) :
    (o.andThen next).EndsLike (next s) := by
  refine ⟨?_, ?_, ?_⟩
  · rw [lines_andThen ends, silent, List.nil_append]
  · simp only [Outcome.andThen, ends.1, ends.2]
  · simp only [Outcome.andThen, ends.1, ends.2]

end Outcome.EndsLike

section Definitions
variable {verbosity : Nat} (limit : Nat)

/-- A definition that can be traced says nothing and changes nothing. -/
theorem execute_define {node : Node} (defines : node.isDefine = true)
    (traceable : verbosity = 0 ∨ ∃ shown, executeText node = .ok shown) (s : Scope) :
    (execute verbosity (limit + 1) node s).Ends s ∧ (execute verbosity (limit + 1) node s).lines = [] := by
  obtain ⟨lines, failure, scope⟩ := execute_traceable limit s traceable
  cases node with
  | define name params body offset => exact ⟨⟨failure, scope⟩, lines⟩
  | _ => cases defines

theorem runAll_withoutDefinitions {nodes : List Node}
    (traceable : verbosity = 0 ∨
      ∀ node ∈ nodes, node.isDefine = true → ∃ shown, executeText node = .ok shown) (s : Scope) :
    (runAll (execute verbosity (limit + 1)) nodes s).EndsLike
      (runAll (execute verbosity (limit + 1)) (withoutDefinitions nodes) s) := by
  induction nodes generalizing s with
  | nil => exact .refl _
  | cons node nodes ih =>
    have later := ih (traceable.imp_right fun all n inside => all n (List.mem_cons_of_mem _ inside))
    cases defines : node.isDefine with
    | true =>
      have first : withoutDefinitions (node :: nodes) = withoutDefinitions nodes :=
        List.filter_cons_of_neg (by simp [defines])
      have shown := traceable.imp_right fun all => all node List.mem_cons_self defines
      obtain ⟨ends, silent⟩ := execute_define limit defines shown s
      rw [first]
      exact (EndsLike.skip ends silent _).trans (later s)
    | false =>
      have first : withoutDefinitions (node :: nodes) = node :: withoutDefinitions nodes :=
        List.filter_cons_of_pos (by simp [defines])
      rw [first]
      exact .andThen _ later

end Definitions

theorem globalScope_alike {functions functions' : Table Definition}
    (alike : ∀ k, functions.find? k = functions'.find? k) :
    (globalScope functions).Alike Eq (globalScope functions') := by
  refine .cons ⟨rfl, fun k => ?_⟩ .nil
  change Option.Rel Eq (functions.find? k) (functions'.find? k)
  rw [alike k]
  cases functions'.find? k with
  | none => exact .none
  | some d => exact .some rfl

theorem runAll_relocated (verbosity limit : Nat) {functions functions' : Table Definition}
    (alike : ∀ k, functions.find? k = functions'.find? k) (nodes : List Node) :
    (runAll (execute verbosity limit) nodes (globalScope functions)).EndsLike
      (runAll (execute verbosity limit) nodes (globalScope functions')) := by
  have lock := reordered_lockstep verbosity
  have nested := execute_lockstep lock (fun _ _ alike => ⟨.fail alike.agrees _, alike⟩) limit
  obtain ⟨agree, alike⟩ := runAll_lockstep lock nested (globalScope_alike alike)
    (List.forall₂_same.mpr fun n (_ : n ∈ nodes) => rfl)
  refine ⟨?_, agree.failure, alike.values⟩
  rw [Outcome.lines, Outcome.lines, agree.events]

/-- Two programs that are the same without their top-level definitions, and give every name
the same function, say the same lines, leave the same global variables and end in the same way.
With tracing on, the definitions have offsets that can be written into their messages. -/
theorem definitions_anywhere (verbosity limit : Nat) {body body' : List Node}
    {functions functions' : Table Definition} (table : functionTable body = .ok functions)
    (table' : functionTable body' = .ok functions')
    (others : withoutDefinitions body = withoutDefinitions body')
    (alike : ∀ k, functions.find? k = functions'.find? k)
    (traceable : verbosity = 0 ∨ ∀ node ∈ body ++ body', node.isDefine = true →
      ∃ shown, executeText node = .ok shown) :
    let first := runNode verbosity (limit + 1) (.program body)
    let second := runNode verbosity (limit + 1) (.program body')
    first.lines = second.lines ∧ first.globals.frame.values = second.globals.frame.values ∧
      first.failure = second.failure ∧ first.started = second.started := by
  intro first second
  have left := runAll_withoutDefinitions limit
    (traceable.imp_right fun all node inside => all node (List.mem_append_left _ inside))
    (globalScope functions)
  have right := runAll_withoutDefinitions limit
    (traceable.imp_right fun all node inside => all node (List.mem_append_right _ inside))
    (globalScope functions')
  have middle := runAll_relocated verbosity (limit + 1) alike (withoutDefinitions body)
  rw [← others] at right
  have same := (left.trans middle).trans right.symm
  have ran : first = ⟨true, runAll (execute verbosity (limit + 1)) body (globalScope functions)⟩ := by
    simp only [first, runNode, table]
  have ran' : second = ⟨true, runAll (execute verbosity (limit + 1)) body' (globalScope functions')⟩ := by
    simp only [second, runNode, table']
  rw [ran, ran']
  exact ⟨same.lines, same.values, same.failure, rfl⟩

def saying (name word : String) : Definition :=
  ⟨.text name, [], .block [.say (.text word) .null] .null, .null⟩

/-- Calls of functions that are defined later, one of them twice, and of one that is not. -/
def definedLate : List Node :=
  [.call (.text "f") [] .null, .assign (.text "x") (.int 1) .null, (saying "f" "one").node,
    .call (.text "g") [] .null, (saying "g" "three").node, (saying "f" "two").node,
    .call (.text "h") [] .null]

/-- The same calls after the functions, which stand in another order. -/
def definedEarly : List Node :=
  [(saying "g" "three").node, (saying "f" "two").node, .call (.text "f") [] .null,
    .assign (.text "x") (.int 1) .null, .call (.text "g") [] .null, .call (.text "h") [] .null]

theorem definitions_anywhere_definedLate :
    let late := runNode 1 9 (.program definedLate)
    let early := runNode 1 9 (.program definedEarly)
    early.lines = ["two", "three"] ∧ late.lines = early.lines ∧
      early.failure = some (.ofProblem (.undefinedFunction "h")) ∧ late.failure = early.failure ∧
      early.globals.frame.values.map Prod.fst = [.text "x"] ∧
      late.globals.frame.values = early.globals.frame.values := by
  intro late early
  have table : functionTable definedLate =
      .ok [(.text "f", saying "f" "two"), (.text "g", saying "g" "three")] := rfl
  have table' : functionTable definedEarly =
      .ok [(.text "g", saying "g" "three"), (.text "f", saying "f" "two")] := rfl
  have alike (k : Key) :
      Table.find? [(.text "f", saying "f" "two"), (.text "g", saying "g" "three")] k =
        Table.find? [(.text "g", saying "g" "three"), (.text "f", saying "f" "two")] k := by
    simp only [Table.find?]
    by_cases first : Key.text "f" = k
    · subst first
      rfl
    · simp only [if_neg first]
  have traceable : ∀ node ∈ definedLate ++ definedEarly, node.isDefine = true →
      ∃ shown, executeText node = .ok shown := by
    intro node inside _
    have placeless : ∀ node ∈ definedLate ++ definedEarly, node.offset = .null := by
      simp [definedLate, definedEarly, Definition.node, saying, Node.offset]
    rw [executeText, placeless node inside]
    exact ⟨_, rfl⟩
  obtain ⟨lines, values, failure, -⟩ :=
    definitions_anywhere 1 8 table table' rfl alike (.inr traceable)
  exact ⟨rfl, lines, rfl, failure, rfl, values⟩

end Primer
