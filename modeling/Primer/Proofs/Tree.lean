import Primer.Proofs.WellFormed

/-! The nodes of a tree, each before those nested in it, and the definitions among them. -/
namespace Primer.Node

mutual

/-- The nodes of a tree, itself first. A conditional without an else-branch has no node
in its place. -/
def nodes : Node → List Node
  | program body => program body :: nodesIn body
  | block statements o => block statements o :: nodesIn statements
  | loop count body o => loop count body o :: nodes body
  | define name params body o => define name params body o :: nodes body
  | branch condition yes missing o => branch condition yes missing o :: nodes yes
  | branch condition yes no o => branch condition yes no o :: (nodes yes ++ nodes no)
  | node => [node]

def nodesIn : List Node → List Node
  | [] => []
  | node :: rest => nodes node ++ nodesIn rest

end

theorem self_mem_nodes (node : Node) : node ∈ node.nodes := by
  unfold nodes
  split <;> exact List.mem_cons_self

theorem mem_nodesIn {n : Node} {body : List Node} :
    n ∈ nodesIn body ↔ ∃ statement ∈ body, n ∈ statement.nodes := by
  induction body with
  | nil => simp [nodesIn]
  | cons first rest ih => simp [nodesIn, ih]

theorem nodes_branch {condition : Datum} {yes no : Node} {o : Datum} (present : no ≠ missing) :
    (branch condition yes no o).nodes = branch condition yes no o :: (yes.nodes ++ no.nodes) := by
  cases no with
  | missing => exact absurd rfl present
  | _ => simp only [nodes]

theorem nodes_yes {yes n : Node} (inside : n ∈ yes.nodes) (condition : Datum) (no : Node) (o : Datum) :
    n ∈ (branch condition yes no o).nodes := by
  by_cases absent : no = missing
  · subst absent
    exact List.mem_cons_of_mem _ inside
  · rw [nodes_branch absent]
    exact List.mem_cons_of_mem _ (List.mem_append_left _ inside)

theorem nodes_no {no n : Node} (present : no ≠ missing) (inside : n ∈ no.nodes) (condition : Datum)
    (yes : Node) (o : Datum) : n ∈ (branch condition yes no o).nodes := by
  rw [nodes_branch present]
  exact List.mem_cons_of_mem _ (List.mem_append_right _ inside)

mutual

/-- The nodes of a node of a tree are nodes of the tree. -/
theorem nodes_trans {n m : Node} (inner : n ∈ m.nodes) :
    (node : Node) → m ∈ node.nodes → n ∈ node.nodes
  | program body, outer | block body _, outer => by
    rcases List.mem_cons.mp outer with rfl | nested
    · exact inner
    · exact List.mem_cons_of_mem _ (nodesIn_trans inner body nested)
  | loop _ body _, outer | define _ _ body _, outer => by
    rcases List.mem_cons.mp outer with rfl | nested
    · exact inner
    · exact List.mem_cons_of_mem _ (nodes_trans inner body nested)
  | branch condition yes no o, outer => by
    by_cases absent : no = missing
    · subst absent
      rcases List.mem_cons.mp outer with rfl | nested
      · exact inner
      · exact nodes_yes (nodes_trans inner yes nested) condition missing o
    · rw [nodes_branch absent] at outer
      rcases List.mem_cons.mp outer with rfl | nested
      · exact inner
      · rcases List.mem_append.mp nested with first | second
        · exact nodes_yes (nodes_trans inner yes first) condition no o
        · exact nodes_no absent (nodes_trans inner no second) condition yes o
  | missing, outer | say .., outer | math .., outer | call .., outer | declare .., outer
  | assign .., outer => by
    cases List.mem_singleton.mp outer
    exact inner

theorem nodesIn_trans {n m : Node} (inner : n ∈ m.nodes) :
    (body : List Node) → m ∈ nodesIn body → n ∈ nodesIn body
  | [], outer => by cases outer
  | node :: rest, outer => by
    rcases List.mem_append.mp outer with here | later
    · exact List.mem_append_left _ (nodes_trans inner node here)
    · exact List.mem_append_right _ (nodesIn_trans inner rest later)

end

theorem alternative_present {no : Node} (alternative : no.isAlternative = true) : no ≠ missing := by
  rintro rfl
  cases alternative

/-- Every node of a tree that was read is well formed, at any depth. -/
theorem nodes_wellFormed {node : Node} (formed : node.WellFormed) :
    ∀ n ∈ node.nodes, n.WellFormed := by
  induction formed with
  | say message => simpa [nodes] using WellFormed.say message
  | math some small => simpa [nodes] using WellFormed.math some small
  | call named args => simpa [nodes] using WellFormed.call named args
  | assign named value => simpa [nodes] using WellFormed.assign named value
  | block all ih =>
    refine List.forall_mem_cons.mpr ⟨.block all, ?_⟩
    intro n inside
    obtain ⟨statement, member, nested⟩ := mem_nodesIn.mp inside
    exact ih statement member n nested
  | loop small isBlock body ih => exact List.forall_mem_cons.mpr ⟨.loop small isBlock body, ih⟩
  | define named params isBlock body ih =>
    exact List.forall_mem_cons.mpr ⟨.define named params isBlock body, ih⟩
  | branch condition isBlock yes ih =>
    exact List.forall_mem_cons.mpr ⟨.branch condition isBlock yes, ih⟩
  | branchElse condition isBlock yes alternative no first second =>
    rw [nodes_branch (alternative_present alternative)]
    refine List.forall_mem_cons.mpr ⟨.branchElse condition isBlock yes alternative no, ?_⟩
    exact List.forall_mem_append.mpr ⟨first, second⟩

theorem nodesIn_wellFormed {body : List Node} (formed : ∀ n ∈ body, n.WellFormed) :
    ∀ n ∈ nodesIn body, n.WellFormed := by
  intro n inside
  obtain ⟨statement, member, nested⟩ := mem_nodesIn.mp inside
  exact nodes_wellFormed (formed statement member) n nested

mutual

/-- The definitions in a tree are its nodes that define a function. -/
theorem mem_definitions (d : Definition) : (node : Node) →
    (d ∈ node.definitions ↔ d.node ∈ node.nodes)
  | program body | block body _ => by
    simp [definitions, nodes, Definition.node, mem_definitionsIn_iff d body]
  | loop _ body _ => by simp [definitions, nodes, Definition.node, mem_definitions d body]
  | define name params body o => by
    have here : d = ⟨name, params, body, o⟩ ↔ d.node = define name params body o := by
      cases d
      simp [Definition.node]
    simp [definitions, nodes, mem_definitions d body, here, or_comm]
  | branch condition yes no o => by
    have first := mem_definitions d yes
    have other : ∀ no, d.node ≠ branch condition yes no o := fun _ => nofun
    by_cases absent : no = missing
    · subst absent
      simp [definitions, nodes, first, other]
    · simp [definitions, nodes_branch absent, first, mem_definitions d no, other]
  | missing | say .. | math .. | call .. | declare .. | assign .. => by
    simp [definitions, nodes, Definition.node]

theorem mem_definitionsIn_iff (d : Definition) : (body : List Node) →
    (d ∈ definitionsIn body ↔ d.node ∈ nodesIn body)
  | [] => by simp [definitionsIn, nodesIn]
  | node :: rest => by
    simp [definitionsIn, nodesIn, mem_definitions d node, mem_definitionsIn_iff d rest]

end
end Primer.Node
