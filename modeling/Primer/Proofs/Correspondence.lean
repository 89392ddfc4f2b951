import Mathlib.Data.List.Forall2
import Primer.Proofs.Agreement
import Primer.Proofs.Iteration
import Primer.Proofs.Tree

/-! Two programs that differ in their offsets and in the spelling of their keywords alone. Each
statement of one has its counterpart in the other, and what the two say, bind and fail with is
related from statement to statement. Main statement: `offsets_and_keywords_only_show`. The two
programs run alike: only the label of a result and the place of a diagnostic may differ. -/
namespace Primer

open Outcome Node

def Datum.isText : Datum → Bool
  | .text _ => true
  | _ => false

/-- The values of the language. A truth value is no number here. -/
def Datum.isWholeOrText : Datum → Bool
  | .int _ | .text _ => true
  | _ => false

def Datum.isSpelling : Datum → Bool
  | .null | .text _ => true
  | _ => false

/-- The fields of a node have the sorts they are declared with. Offsets may be any data. -/
def Node.isTyped : Node → Bool
  | .missing | .program _ | .block .. | .loop .. => true
  | .say message _ => message.isText
  | .math _ _ keyword _ => keyword.isSpelling
  | .define name params _ _ => name.isText && params.all (·.isText)
  | .call name args _ => name.isText && args.all (·.isText)
  | .declare name value _ | .assign name value _ => name.isText && value.isWholeOrText
  | .branch condition _ _ _ => condition.isText

namespace Datum

theorem isWholeOrText_of_isText {d : Datum} (isText : d.isText = true) :
    d.isWholeOrText = true := by
  cases d with
  | text => rfl
  | _ => cases isText

/-- Data of different sorts can agree, but not values. -/
theorem eq_of_agrees {d e : Datum} (left : d.isWholeOrText = true) (right : e.isWholeOrText = true)
    (agree : d.agrees e = true) : d = e := by
  cases d with
  | int n =>
    cases e with
    | int m => simpa [agrees, sameNan, same, same.numberIs, number?, sameNumber] using agree
    | text => simp [agrees, sameNan, same, same.numberIs, number?] at agree
    | _ => cases right
  | text s =>
    cases e with
    | int m => simp [agrees, sameNan, same] at agree
    | text t => simpa [agrees, sameNan, same] using agree
    | _ => cases right
  | _ => cases left

theorem eq_of_agrees_text {d e : Datum} (left : d.isText = true) (right : e.isText = true)
    (agree : d.agrees e = true) : d = e :=
  eq_of_agrees (isWholeOrText_of_isText left) (isWholeOrText_of_isText right) agree

theorem eq_of_sameAll {ds es : List Datum} (left : ds.all (·.isText) = true)
    (right : es.all (·.isText) = true) (agree : sameAll ds es = true) : ds = es := by
  induction ds generalizing es with
  | nil =>
    cases es with
    | nil => rfl
    | cons => cases agree
  | cons d ds ih =>
    cases es with
    | nil => cases agree
    | cons e es =>
      simp only [List.all_cons, Bool.and_eq_true] at left right
      simp only [sameAll, Bool.and_eq_true] at agree
      rw [eq_of_agrees_text left.1 right.1 agree.1, ih left.2 right.2 agree.2]

variable {name name' value value' : Datum} {entries entries' : List Datum}

theorem eq_of_bindings (left : (name.isText && value.isWholeOrText) = true)
    (right : (name'.isText && value'.isWholeOrText) = true)
    (agree : (name.agrees name' && value.agrees value') = true) :
    name = name' ∧ value = value' := by
  simp only [Bool.and_eq_true] at left right agree
  exact ⟨eq_of_agrees_text left.1 right.1 agree.1, eq_of_agrees left.2 right.2 agree.2⟩

theorem eq_of_signatures (left : (name.isText && entries.all (·.isText)) = true)
    (right : (name'.isText && entries'.all (·.isText)) = true)
    (agree : (name.agrees name' && sameAll entries entries') = true) :
    name = name' ∧ entries = entries' := by
  simp only [Bool.and_eq_true] at left right agree
  exact ⟨eq_of_agrees_text left.1 right.1 agree.1, eq_of_sameAll left.2 right.2 agree.2⟩

end Datum

/-- How the result of an operator is labelled. -/
def Operator.label (op : Operator) : Datum → String
  | .text s => if s.isEmpty then op.name else s
  | _ => op.name

theorem resultLine_eq (op : Operator) {keyword : Datum} (isSpelling : keyword.isSpelling = true)
    (n : Int) :
    resultLine op keyword n =
      (writeWhole n).map ("Result of " ++ op.label keyword ++ ": " ++ ·) := by
  unfold resultLine
  generalize writeWhole n = written
  cases keyword with
  | null => cases written <;> rfl
  | text s =>
    simp only [Operator.label, Datum.isVoid, Datum.display]
    by_cases empty : s.isEmpty = true
    · simp only [empty, if_true]
      cases written <;> rfl
    · simp only [empty]
      cases written <;> rfl
  | _ => cases isSpelling

section Relations
variable (left right : List Node)

/-- A statement of one program and its counterpart in another. The declarations that calls make
of their parameters stand in neither. -/
inductive Node.Corresponds : Node → Node → Prop
  | missing : Corresponds .missing .missing
  | parameter {name value : Datum} :
      Corresponds (.declare name value .null) (.declare name value .null)
  | program {nodes nodes' : List Node} : List.Forall₂ Corresponds nodes nodes' →
      Corresponds (.program nodes) (.program nodes')
  | say {message o o' : Datum} : .say message o ∈ nodesIn left → .say message o' ∈ nodesIn right →
      Corresponds (.say message o) (.say message o')
  | math {op : Operator} {operands : List Int} {keyword keyword' o o' : Datum} :
      .math op operands keyword o ∈ nodesIn left → .math op operands keyword' o' ∈ nodesIn right →
      keyword.isSpelling = true → keyword'.isSpelling = true →
      Corresponds (.math op operands keyword o) (.math op operands keyword' o')
  | block {nodes nodes' : List Node} {o o' : Datum} : .block nodes o ∈ nodesIn left →
      .block nodes' o' ∈ nodesIn right → List.Forall₂ Corresponds nodes nodes' →
      Corresponds (.block nodes o) (.block nodes' o')
  | loop {count : Int} {body body' : Node} {o o' : Datum} : .loop count body o ∈ nodesIn left →
      .loop count body' o' ∈ nodesIn right → Corresponds body body' →
      Corresponds (.loop count body o) (.loop count body' o')
  | define {name : Datum} {params : List Datum} {body body' : Node} {o o' : Datum} :
      .define name params body o ∈ nodesIn left → .define name params body' o' ∈ nodesIn right →
      Corresponds body body' →
      Corresponds (.define name params body o) (.define name params body' o')
  | call {name : Datum} {args : List Datum} {o o' : Datum} : .call name args o ∈ nodesIn left →
      .call name args o' ∈ nodesIn right → Corresponds (.call name args o) (.call name args o')
  | declare {name value o o' : Datum} : .declare name value o ∈ nodesIn left →
      .declare name value o' ∈ nodesIn right →
      Corresponds (.declare name value o) (.declare name value o')
  | branch {condition : Datum} {yes yes' no no' : Node} {o o' : Datum} :
      .branch condition yes no o ∈ nodesIn left → .branch condition yes' no' o' ∈ nodesIn right →
      Corresponds yes yes' → Corresponds no no' →
      Corresponds (.branch condition yes no o) (.branch condition yes' no' o')
  | assign {name value o o' : Datum} : .assign name value o ∈ nodesIn left →
      .assign name value o' ∈ nodesIn right →
      Corresponds (.assign name value o) (.assign name value o')

structure Definition.Corresponds (d e : Definition) : Prop where
  name : d.name = e.name
  params : d.params = e.params
  body : Node.Corresponds left right d.body e.body

/-- The frames of two scopes have the same variables, and functions that correspond. -/
def Scope.Corresponds (s t : Scope) : Prop := s.Alike (Definition.Corresponds left right) t

/-- Two lines that are the same, or that say the result of an operator as the one and the other
program spells it. -/
inductive SaidAlike : String → String → Prop
  | same (line : String) : SaidAlike line line
  | result {op : Operator} {operands : List Int} {keyword keyword' o o' : Datum} {n : Int}
      {number : String} : .math op operands keyword o ∈ nodesIn left →
      .math op operands keyword' o' ∈ nodesIn right → op.apply operands = .ok n →
      writeWhole n = .ok number →
      SaidAlike ("Result of " ++ op.label keyword ++ ": " ++ number)
        ("Result of " ++ op.label keyword' ++ ": " ++ number)

/-- A failure without its place. -/
def Failure.unplaced : Failure → Failure
  | .diagnostic d => .diagnostic { d with offset := .null }
  | f => f

structure Outcome.Corresponds (o p : Outcome) : Prop where
  lines : List.Forall₂ (SaidAlike left right) o.lines p.lines
  failure : o.failure.map Failure.unplaced = p.failure.map Failure.unplaced
  scope : o.scope.Corresponds left right p.scope

end Relations

variable {left right : List Node}

@[simp] theorem Failure.unplaced_placedAt (f : Failure) (offset : Datum) :
    (f.placedAt offset).unplaced = f.unplaced := by
  rcases f with ⟨p, own, context⟩ | f | _
  · cases own <;> rfl
  · rfl
  · rfl

namespace Outcome.Corresponds
variable {o p : Outcome} {s t : Scope}

theorem done (scopes : s.Corresponds left right t) : (done s).Corresponds left right (done t) :=
  ⟨.nil, rfl, scopes⟩

theorem fail (scopes : s.Corresponds left right t) (f : Failure) :
    (fail s f).Corresponds left right (fail t f) :=
  ⟨.nil, rfl, scopes⟩

theorem say (scopes : s.Corresponds left right t) {line line' : String}
    (alike : SaidAlike left right line line') :
    (Outcome.say s line).Corresponds left right (Outcome.say t line') :=
  ⟨.cons alike .nil, rfl, scopes⟩

theorem andThen {next next' : Scope → Outcome} (first : o.Corresponds left right p)
    (rest : o.failure = none → p.failure = none →
      (next o.scope).Corresponds left right (next' p.scope)) :
    (o.andThen next).Corresponds left right (p.andThen next') := by
  have ends := first.failure
  cases failed : o.failure with
  | some f =>
    rw [failed] at ends
    obtain ⟨f', failed', -⟩ := Option.map_eq_some_iff.mp ends.symm
    rw [andThen_of_failed failed, andThen_of_failed failed']
    exact first
  | none =>
    rw [failed] at ends
    have failed' := Option.map_eq_none_iff.mp ends.symm
    have later := rest failed failed'
    refine ⟨?_, ?_, ?_⟩
    · rw [lines_andThen ⟨failed, rfl⟩, lines_andThen ⟨failed', rfl⟩]
      exact List.rel_append first.lines later.lines
    · simp only [Outcome.andThen, failed, failed', later.failure]
    · simp only [Outcome.andThen, failed, failed', later.scope]

theorem traced (scopes : s.Corresponds left right t) (verbosity level : Nat)
    (text : Unit → Except Fault String) :
    (traced verbosity level text s).Corresponds left right (traced verbosity level text t) := by
  unfold Outcome.traced
  split
  · exact attempt_both (fun f _ => .fail scopes (.fault f)) fun _ _ => ⟨.nil, rfl, scopes⟩
  · exact .done scopes

theorem stamp (alike : o.Corresponds left right p) (offset offset' : Datum) :
    (o.stamp offset).Corresponds left right (p.stamp offset') := by
  refine ⟨?_, ?_, ?_⟩
  · rw [lines_stamp, lines_stamp]
    exact alike.lines
  · simpa [failure_stamp, Function.comp_def] using alike.failure
  · rw [scope_stamp, scope_stamp]
    exact alike.scope

end Outcome.Corresponds

theorem Node.Corresponds.parallel {node node' : Node} (alike : node.Corresponds left right node') :
    node.Parallel (Node.Corresponds left right) node' := by
  cases alike with
  | math _ _ isSpelling isSpelling' =>
    refine .math fun n f => ?_
    rw [resultLine_eq _ isSpelling, resultLine_eq _ isSpelling']
    cases writeWhole n <;> simp [Except.map]
  | block _ _ all => exact .block all
  | loop _ _ body => exact .loop body
  | branch _ _ yes no =>
    refine .branch yes ?_ fun _ => no
    constructor
    · rintro rfl
      cases no
      rfl
    · rintro rfl
      cases no
      rfl
  | missing => exact .missing
  | program => exact .program
  | say => exact .say
  | define => exact .define
  | call => exact .call
  | parameter | declare => exact .declare
  | assign => exact .assign

theorem saidAlike_results {op : Operator} {operands : List Int} {keyword keyword' o o' : Datum}
    {n : Int} {line line' : String}
    (alike : Node.Corresponds left right (.math op operands keyword o) (.math op operands keyword' o'))
    (applied : op.apply operands = .ok n) (written : resultLine op keyword n = .ok line)
    (written' : resultLine op keyword' n = .ok line') : SaidAlike left right line line' := by
  cases alike with
  | math here here' isSpelling isSpelling' =>
    rw [resultLine_eq op isSpelling] at written
    rw [resultLine_eq op isSpelling'] at written'
    cases number : writeWhole n with
    | error f =>
      rw [number] at written
      cases written
    | ok shown =>
      rw [number] at written written'
      cases written
      cases written'
      exact .result here here' applied number

/-- Every statement of two programs can be traced. -/
def Legible (left right : List Node) : Prop :=
  ∀ n ∈ nodesIn left ++ nodesIn right, ∃ shown, executeText n = .ok shown

theorem Node.Corresponds.legible {node node' : Node} (alike : node.Corresponds left right node')
    (legible : Legible left right) :
    (∃ shown, executeText node = .ok shown) ∧ ∃ shown, executeText node' = .ok shown := by
  have listed (here : node ∈ nodesIn left) (here' : node' ∈ nodesIn right) :=
    And.intro (legible node (List.mem_append_left _ here))
      (legible node' (List.mem_append_right _ here'))
  cases alike with
  | missing | parameter | program => exact ⟨⟨_, rfl⟩, _, rfl⟩
  | say here here' | math here here' | block here here' | loop here here' | define here here'
  | call here here' | declare here here' | branch here here' | assign here here' =>
    exact listed here here'

/-- What is traced before two statements. Their messages differ in the offset. -/
theorem traced_corresponds {verbosity : Nat} (legible : verbosity = 0 ∨ Legible left right)
    {node node' : Node} (alike : node.Corresponds left right node') {s t : Scope}
    (scopes : s.Corresponds left right t) :
    (traced verbosity 1 (fun _ => executeText node) s).Corresponds left right
      (traced verbosity 1 (fun _ => executeText node') t) := by
  unfold traced
  split
  · rename_i shows
    have all := legible.resolve_left (Nat.ne_of_gt shows)
    obtain ⟨⟨shown, text⟩, shown', text'⟩ := alike.legible all
    rw [text, text']
    exact ⟨.nil, rfl, scopes⟩
  · exact .done scopes

theorem corresponds_lockstep {verbosity : Nat} (legible : verbosity = 0 ∨ Legible left right) :
    Lockstep verbosity verbosity (Node.Corresponds left right) (Node.Corresponds left right)
      (Scope.Corresponds left right) (fun _ _ o p => o.Corresponds left right p) where
  parallel alike _ := alike.parallel
  get scopes := Scope.Alike.get scopes
  child scopes := Scope.Alike.child scopes
  function? {_ _ _ _ s t key} _ scopes _ := by
    have found := Scope.Alike.function? scopes key
    generalize s.function? key = d, t.function? key = e at found
    cases found with
    | none => exact .none
    | some both => exact .some ⟨both.params, both.body⟩
  parameter _ _ _ _ _ _ := .parameter
  done := .done
  fail _ _ _ within := .fail within _
  say line scopes := .say scopes (.same line)
  result alike scopes applied written written' :=
    .say scopes (saidAlike_results alike applied written written')
  set _ scopes _ := .done (Scope.Alike.set scopes ..)
  executes alike scopes := traced_corresponds legible alike scopes
  traces _ _ _ within := .traced within ..
  ends related _ _ := related.scope
  andThen := .andThen
  leave _ inside := ⟨inside.lines, inside.failure, Scope.Alike.leave inside.scope⟩
  stamp _ related := related.stamp ..

mutual

theorem definitions_correspond {node node' : Node} (alike : node.Corresponds left right node') :
    List.Forall₂ (Definition.Corresponds left right) node.definitions node'.definitions := by
  cases alike with
  | program all | block _ _ all => exact definitionsIn_correspond all
  | loop _ _ body =>
    have inner := definitions_correspond body
    exact inner
  | define _ _ body =>
    exact List.rel_append (definitions_correspond body) (.cons ⟨rfl, rfl, body⟩ .nil)
  | branch _ _ yes no =>
    exact List.rel_append (definitions_correspond yes) (definitions_correspond no)
  | missing | parameter | say | math | call | declare | assign => exact .nil

theorem definitionsIn_correspond {nodes nodes' : List Node}
    (all : List.Forall₂ (Node.Corresponds left right) nodes nodes') :
    List.Forall₂ (Definition.Corresponds left right) (definitionsIn nodes)
      (definitionsIn nodes') := by
  cases all with
  | nil => exact .nil
  | cons first rest =>
    exact List.rel_append (definitions_correspond first) (definitionsIn_correspond rest)

end

/-- A node of a program, or an alternative that is not there. -/
def Node.Inside (program : List Node) (node : Node) : Prop :=
  node = .missing ∨ node ∈ nodesIn program

namespace Node.Inside
variable {program : List Node} {node : Node} (inside : node.Inside program)
include inside

theorem inner {child : Node} (member : child ∈ node.nodes) : child.Inside program := by
  rcases inside with rfl | here
  · exact .inl (List.mem_singleton.mp member)
  · exact .inr (nodesIn_trans member program here)

theorem typed (all : ∀ n ∈ nodesIn program, n.isTyped = true) : node.isTyped = true := by
  rcases inside with rfl | here
  · rfl
  · exact all node here

omit inside in
theorem otherwise {condition : Datum} {yes no : Node} {o : Datum}
    (inside : (Node.branch condition yes no o).Inside program) : no.Inside program := by
  by_cases absent : no = .missing
  · exact .inl absent
  · exact inside.inner (nodes_no absent (self_mem_nodes no) condition yes o)

end Node.Inside

theorem mem_nodesIn_self {n : Node} {nodes : List Node} (member : n ∈ nodes) : n ∈ nodesIn nodes :=
  mem_nodesIn.mpr ⟨n, member, self_mem_nodes n⟩

mutual

/-- Trees with fields of the declared sorts that are equal correspond to each other. -/
theorem corresponds_of_same (typed : ∀ n ∈ nodesIn left, n.isTyped = true)
    (typed' : ∀ n ∈ nodesIn right, n.isTyped = true) : (node node' : Node) →
    node.same node' = true → node.Inside left → node'.Inside right →
    node.Corresponds left right node'
  | .missing, node', same, _, _ => by
    cases node' with
    | missing => exact .missing
    | _ => cases same
  | .program nodes, node', same, inside, inside' => by
    cases node' with
    | program nodes' =>
      apply Node.Corresponds.program
      apply corresponds_of_sameIn typed typed' nodes nodes' same
      · exact fun n member => inside.inner (List.mem_cons_of_mem _ (mem_nodesIn_self member))
      · exact fun n member => inside'.inner (List.mem_cons_of_mem _ (mem_nodesIn_self member))
    | _ => cases same
  | .say message o, node', same, inside, inside' => by
    cases node' with
    | say message' o' =>
      cases Datum.eq_of_agrees_text (inside.typed typed) (inside'.typed typed') same
      exact .say (inside.resolve_left (by simp)) (inside'.resolve_left (by simp))
    | _ => cases same
  | .math op operands keyword o, node', same, inside, inside' => by
    cases node' with
    | math op' operands' keyword' o' =>
      simp only [Node.same, Bool.and_eq_true, decide_eq_true_eq] at same
      obtain ⟨rfl, rfl⟩ := same
      exact .math (inside.resolve_left (by simp)) (inside'.resolve_left (by simp))
        (inside.typed typed) (inside'.typed typed')
    | _ => cases same
  | .block nodes o, node', same, inside, inside' => by
    cases node' with
    | block nodes' o' =>
      apply Node.Corresponds.block (inside.resolve_left (by simp)) (inside'.resolve_left (by simp))
      apply corresponds_of_sameIn typed typed' nodes nodes' same
      · exact fun n member => inside.inner (List.mem_cons_of_mem _ (mem_nodesIn_self member))
      · exact fun n member => inside'.inner (List.mem_cons_of_mem _ (mem_nodesIn_self member))
    | _ => cases same
  | .loop count body o, node', same, inside, inside' => by
    cases node' with
    | loop count' body' o' =>
      simp only [Node.same, Bool.and_eq_true, decide_eq_true_eq] at same
      obtain ⟨rfl, bodies⟩ := same
      apply Node.Corresponds.loop (inside.resolve_left (by simp)) (inside'.resolve_left (by simp))
      apply corresponds_of_same typed typed' body body' bodies
      · exact inside.inner (List.mem_cons_of_mem _ (self_mem_nodes body))
      · exact inside'.inner (List.mem_cons_of_mem _ (self_mem_nodes body'))
    | _ => cases same
  | .define name params body o, node', same, inside, inside' => by
    cases node' with
    | define name' params' body' o' =>
      obtain ⟨signatures, bodies⟩ := (Bool.and_eq_true _ _).mp same
      obtain ⟨rfl, rfl⟩ :=
        Datum.eq_of_signatures (inside.typed typed) (inside'.typed typed') signatures
      apply Node.Corresponds.define (inside.resolve_left (by simp)) (inside'.resolve_left (by simp))
      apply corresponds_of_same typed typed' body body' bodies
      · exact inside.inner (List.mem_cons_of_mem _ (self_mem_nodes body))
      · exact inside'.inner (List.mem_cons_of_mem _ (self_mem_nodes body'))
    | _ => cases same
  | .call name args o, node', same, inside, inside' => by
    cases node' with
    | call name' args' o' =>
      obtain ⟨rfl, rfl⟩ := Datum.eq_of_signatures (inside.typed typed) (inside'.typed typed') same
      exact .call (inside.resolve_left (by simp)) (inside'.resolve_left (by simp))
    | _ => cases same
  | .declare name value o, node', same, inside, inside' => by
    cases node' with
    | declare name' value' o' =>
      obtain ⟨rfl, rfl⟩ := Datum.eq_of_bindings (inside.typed typed) (inside'.typed typed') same
      exact .declare (inside.resolve_left (by simp)) (inside'.resolve_left (by simp))
    | _ => cases same
  | .branch condition yes no o, node', same, inside, inside' => by
    cases node' with
    | branch condition' yes' no' o' =>
      simp only [Node.same, Bool.and_eq_true] at same
      cases Datum.eq_of_agrees_text (inside.typed typed) (inside'.typed typed') same.1.1
      apply Node.Corresponds.branch (inside.resolve_left (by simp)) (inside'.resolve_left (by simp))
      · apply corresponds_of_same typed typed' yes yes' same.1.2
        · exact inside.inner (nodes_yes (self_mem_nodes yes) condition no o)
        · exact inside'.inner (nodes_yes (self_mem_nodes yes') condition no' o')
      · exact corresponds_of_same typed typed' no no' same.2 inside.otherwise inside'.otherwise
    | _ => cases same
  | .assign name value o, node', same, inside, inside' => by
    cases node' with
    | assign name' value' o' =>
      obtain ⟨rfl, rfl⟩ := Datum.eq_of_bindings (inside.typed typed) (inside'.typed typed') same
      exact .assign (inside.resolve_left (by simp)) (inside'.resolve_left (by simp))
    | _ => cases same

theorem corresponds_of_sameIn (typed : ∀ n ∈ nodesIn left, n.isTyped = true)
    (typed' : ∀ n ∈ nodesIn right, n.isTyped = true) : (nodes nodes' : List Node) →
    sameIn nodes nodes' = true → (∀ n ∈ nodes, n.Inside left) → (∀ n ∈ nodes', n.Inside right) →
    List.Forall₂ (Node.Corresponds left right) nodes nodes'
  | [], nodes', same, _, _ => by
    cases nodes' with
    | nil => exact .nil
    | cons => cases same
  | node :: nodes, nodes', same, inside, inside' => by
    cases nodes' with
    | nil => cases same
    | cons node' nodes' =>
      obtain ⟨alike, others⟩ := (Bool.and_eq_true _ _).mp same
      obtain ⟨first, rest⟩ := List.forall_mem_cons.mp inside
      obtain ⟨first', rest'⟩ := List.forall_mem_cons.mp inside'
      exact .cons (corresponds_of_same typed typed' node node' alike first first')
        (corresponds_of_sameIn typed typed' nodes nodes' others rest rest')

end

/-- Two tables in which every name has functions that correspond. -/
def Table.Corresponds (left right : List Node) (functions functions' : Table Definition) : Prop :=
  ∀ k, Option.Rel (Definition.Corresponds left right) (functions.find? k) (functions'.find? k)

theorem Table.Corresponds.insert {functions functions' : Table Definition}
    (alike : Table.Corresponds left right functions functions') {d e : Definition}
    (entered : d.Corresponds left right e) (key : Key) :
    Table.Corresponds left right (functions.insert key d) (functions'.insert key e) := by
  intro k
  by_cases same : key = k
  · subst same
    rw [find?_insert_self, find?_insert_self]
    exact .some entered
  · rw [find?_insert_of_ne _ same, find?_insert_of_ne _ same]
    exact alike k

/-- Tables that correspond, or one fault in place of both. -/
inductive TablesCorrespond (left right : List Node) :
    Except Fault (Table Definition) → Except Fault (Table Definition) → Prop
  | faults (f : Fault) : TablesCorrespond left right (.error f) (.error f)
  | tables {functions functions' : Table Definition} :
      Table.Corresponds left right functions functions' →
      TablesCorrespond left right (.ok functions) (.ok functions')

theorem entering_corresponds {ds es : List Definition}
    (definitions : List.Forall₂ (Definition.Corresponds left right) ds es)
    {functions functions' : Table Definition}
    (alike : Table.Corresponds left right functions functions') :
    TablesCorrespond left right
      (ds.foldlM (fun t d => do return t.insert (← d.name.key) d) functions)
      (es.foldlM (fun t d => do return t.insert (← d.name.key) d) functions') := by
  induction definitions generalizing functions functions' with
  | nil => exact .tables alike
  | @cons d e _ _ first _ ih =>
    simp only [List.foldlM_cons, first.name]
    cases e.name.key with
    | error f => exact .faults f
    | ok key => exact ih (alike.insert first key)

theorem functionTable_corresponds {nodes nodes' : List Node}
    (all : List.Forall₂ (Node.Corresponds left right) nodes nodes') :
    TablesCorrespond left right (functionTable nodes) (functionTable nodes') :=
  entering_corresponds (definitionsIn_correspond all) fun _ => .none

/-- Two programs that are equal, whatever their offsets and the spelling of their keywords, run
alike if their fields have the declared sorts: they say the same lines, but for the labels of
results, leave the same global variables, and end in the same way, but for the place of a
diagnostic. With tracing on, the offsets can be written into the messages. -/
theorem offsets_and_keywords_only_show (verbosity limit : Nat) {body body' : List Node}
    (same : (Node.program body).same (.program body') = true)
    (typed : ∀ n ∈ nodesIn body ++ nodesIn body', n.isTyped = true)
    (legible : verbosity = 0 ∨ Legible body body') :
    let first := runNode verbosity limit (.program body)
    let second := runNode verbosity limit (.program body')
    List.Forall₂ (SaidAlike body body') first.lines second.lines ∧
      first.failure.map Failure.unplaced = second.failure.map Failure.unplaced ∧
      first.globals.frame.values = second.globals.frame.values ∧
      first.started = second.started := by
  intro first second
  obtain ⟨left, right⟩ := List.forall_mem_append.mp typed
  have all : List.Forall₂ (Node.Corresponds body body') body body' := by
    apply corresponds_of_sameIn left right body body' same
    · exact fun n member => .inr (mem_nodesIn_self member)
    · exact fun n member => .inr (mem_nodesIn_self member)
  have tables := functionTable_corresponds all
  simp only [first, second, runNode]
  generalize functionTable body = table, functionTable body' = table' at tables
  cases tables with
  | faults f => exact ⟨.nil, rfl, rfl, rfl⟩
  | @tables functions functions' alike =>
    have scopes : (globalScope functions).Corresponds body body' (globalScope functions') :=
      .cons ⟨rfl, alike⟩ .nil
    have lock := corresponds_lockstep legible
    have nested := execute_lockstep lock (fun _ _ scopes => .fail scopes .tooDeep) limit
    have run := runAll_lockstep lock nested scopes all
    exact ⟨run.lines, run.failure, Scope.Alike.values run.scope, rfl⟩

/-- A function that adds and divides by zero, and a call of it. -/
def addingUp (keyword : Datum) (place : Nat → Datum) : List Node :=
  [.define (.text "f") [.text "n"]
      (.block [.say (.text "hi $n") (place 3), .math .add [1, 2] keyword (place 4),
        .math .divide [1, 0] .null (place 5)] (place 2)) (place 1),
    .assign (.text "x") (.int 1) (place 6), .call (.text "f") [.text "$x"] (place 7)]

def addingLoudly : List Node := addingUp (.text "ADD") atOffset

def addingNowhere : List Node := addingUp .null fun _ => .null

theorem offsets_and_keywords_only_show_adding :
    (runNode 1 9 (.program addingLoudly)).lines = ["hi 1", "Result of ADD: 3"] ∧
      (runNode 1 9 (.program addingNowhere)).lines = ["hi 1", "Result of add: 3"] ∧
      List.Forall₂ (SaidAlike addingLoudly addingNowhere)
        (runNode 1 9 (.program addingLoudly)).lines (runNode 1 9 (.program addingNowhere)).lines ∧
      (runNode 1 9 (.program addingLoudly)).failure.isSome = true ∧
      (runNode 1 9 (.program addingLoudly)).failure.map Failure.unplaced =
        (runNode 1 9 (.program addingNowhere)).failure.map Failure.unplaced ∧
      (runNode 1 9 (.program addingLoudly)).globals.frame.values.length = 1 ∧
      (runNode 1 9 (.program addingLoudly)).globals.frame.values =
        (runNode 1 9 (.program addingNowhere)).globals.frame.values := by
  have same : (Node.program addingLoudly).same (.program addingNowhere) = true := rfl
  have typed : ∀ n ∈ nodesIn addingLoudly ++ nodesIn addingNowhere, n.isTyped = true := by decide
  have shown : ∀ n ∈ nodesIn addingLoudly ++ nodesIn addingNowhere,
      (executeText n).isOk = true := by decide +kernel
  have legible : Legible addingLoudly addingNowhere := by
    intro n member
    have written := shown n member
    cases text : executeText n with
    | ok message => exact ⟨message, rfl⟩
    | error f =>
      rw [text] at written
      cases written
  obtain ⟨lines, failure, values, -⟩ :=
    offsets_and_keywords_only_show 1 9 same typed (.inr legible)
  exact ⟨by decide +kernel, by decide +kernel, lines, by decide +kernel, failure,
    by decide +kernel, values⟩

end Primer
