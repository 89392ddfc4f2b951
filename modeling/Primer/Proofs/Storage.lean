import Primer.Node.Stored
import Primer.Proofs.WellFormed

/-! Stored programs. Storing a tree keeps every field of it, so that loading the
stored form gives the same tree, whether the tree was read from a source or loaded
itself. The functions of a program are not stored; loading finds them again, which
is the one step that could fail. -/
namespace Primer

/-- Whether the functions of a list of statements all have names that can be keys. -/
def HasTable (body : List Node) : Prop := ∃ table, functionTable body = .ok table

namespace Node

/-- A tree in which every program, nested ones included, has a function table. -/
inductive Tabled : Node → Prop
  | missing : Tabled .missing
  | program {body : List Node} : (∀ n ∈ body, Tabled n) → HasTable body → Tabled (.program body)
  | say {message offset : Datum} : Tabled (.say message offset)
  | math {op : Operator} {ns : List Int} {keyword offset : Datum} :
      Tabled (.math op ns keyword offset)
  | block {nodes : List Node} {offset : Datum} : (∀ n ∈ nodes, Tabled n) →
      Tabled (.block nodes offset)
  | loop {count : Int} {body : Node} {offset : Datum} : Tabled body →
      Tabled (.loop count body offset)
  | define {name : Datum} {params : List Datum} {body : Node} {offset : Datum} : Tabled body →
      Tabled (.define name params body offset)
  | call {name : Datum} {args : List Datum} {offset : Datum} : Tabled (.call name args offset)
  | declare {name value offset : Datum} : Tabled (.declare name value offset)
  | branch {condition : Datum} {yes no : Node} {offset : Datum} : Tabled yes → Tabled no →
      Tabled (.branch condition yes no offset)
  | assign {name value offset : Datum} : Tabled (.assign name value offset)

theorem loadAll_storeAll {nodes : List Node} (back : ∀ n ∈ nodes, load n.store = .ok n) :
    loadAll (storeAll nodes) = .ok nodes := by
  induction nodes with
  | nil => rfl
  | cons node nodes ih =>
    obtain ⟨first, others⟩ := List.forall_mem_cons.mp back
    simp only [storeAll, loadAll, first, ih others]
    rfl

theorem readOperator_name (op : Operator) : readOperator (.text op.name) = .ok op := by
  cases op <;> rfl

theorem mapM_whole_int (ns : List Int) : (ns.map Datum.int).mapM Datum.whole = .ok ns := by
  induction ns with
  | nil => rfl
  | cons n ns ih =>
    rw [List.map_cons, List.mapM_cons, ih]
    rfl

theorem wholes_list_int (ns : List Int) : wholes (.list (ns.map .int)) = .ok ns :=
  mapM_whole_int ns

/-- A tree with its tables is loaded back from its stored form, field by field. -/
theorem load_store {node : Node} (tabled : node.Tabled) : load node.store = .ok node := by
  -- each record is looked up by computation; what remains are the nested trees
  induction tabled with
  | missing => rfl
  | @program body _ table ih =>
    obtain ⟨table, found⟩ := table
    change (do
      let body ← loadAll (storeAll body)
      let _ ← functionTable body
      return program body) = _
    rw [loadAll_storeAll ih, ok_bind, found]
    rfl
  | say => rfl
  | @math op ns keyword offset =>
    change (do
      let op ← readOperator (.text op.name)
      let operands ← wholes (.list (ns.map .int))
      return math op operands keyword offset) = _
    rw [readOperator_name, ok_bind, wholes_list_int]
    rfl
  | @block nodes offset _ ih =>
    change (do return block (← loadAll (storeAll nodes)) offset) = _
    rw [loadAll_storeAll ih]
    rfl
  | @loop count body offset _ ih =>
    change (do return loop count (← load body.store) offset) = _
    rw [ih]
    rfl
  | @define name params body offset _ ih =>
    change (do return define name params (← load body.store) offset) = _
    rw [ih]
    rfl
  | call => rfl
  | declare => rfl
  | @branch condition yes no offset _ _ first second =>
    change (do
      let yes ← load yes.store
      let no ← load no.store
      return branch condition yes no offset) = _
    rw [first, ok_bind, second]
    rfl
  | assign => rfl

/-- A field whose readings as a node and as nodes give trees with their tables. -/
structure Field.Tabled (field : Field) : Prop where
  node : ∀ {n}, field.node = .ok n → n.Tabled
  nodes : ∀ {ns}, field.nodes = .ok ns → ∀ n ∈ ns, n.Tabled

section Assembly
variable {fields : List (String × Field)} (tabled : ∀ f ∈ fields, f.2.Tabled)
include tabled

theorem lookup_tabled {name : String} {field : Field} (found : fields.lookup name = some field) :
    field.Tabled := by
  obtain ⟨before, after, split, _⟩ := List.lookup_eq_some_iff.mp found
  exact tabled (name, field) (split ▸ List.mem_append_right before List.mem_cons_self)

theorem need_tabled {name : String} {field : Field} (found : need fields name = .ok field) :
    field.Tabled := by
  unfold need at found
  split at found
  · rename_i lookup
    cases found
    exact lookup_tabled tabled lookup
  · cases found

theorem assemble_tabled {node : Node} (loaded : assemble fields = .ok node) : node.Tabled := by
  unfold assemble at loaded
  dsimp only at loaded
  split at loaded <;> simp only [bind_eq_ok, pure_eq_ok, Except.ok.injEq] at loaded
  · obtain ⟨field, found, body, members, table, names, rfl⟩ := loaded
    exact .program ((need_tabled tabled found).nodes members) ⟨table, names⟩
  · obtain ⟨message, _, rfl⟩ := loaded
    exact .say
  · obtain ⟨_, _, op, _, _, _, operands, _, rfl⟩ := loaded
    exact .math
  · obtain ⟨field, found, nodes, members, rfl⟩ := loaded
    exact .block ((need_tabled tabled found).nodes members)
  · obtain ⟨_, _, count, _, field, found, body, member, rfl⟩ := loaded
    exact .loop ((need_tabled tabled found).node member)
  · obtain ⟨name, _, _, _, params, _, field, found, body, member, rfl⟩ := loaded
    exact .define ((need_tabled tabled found).node member)
  · obtain ⟨name, _, _, _, args, _, rfl⟩ := loaded
    exact .call
  · obtain ⟨name, _, value, _, rfl⟩ := loaded
    exact .declare
  · obtain ⟨condition, _, field, found, yes, member, loaded⟩ := loaded
    have first := (need_tabled tabled found).node member
    split at loaded
    · rename_i other lookup
      obtain ⟨no, second, loaded⟩ := bind_eq_ok.mp loaded
      cases loaded
      exact .branch first ((lookup_tabled tabled lookup).node second)
    · cases loaded
      exact .branch first .missing
  · obtain ⟨name, _, value, _, rfl⟩ := loaded
    exact .assign
  · obtain ⟨shown, _, thrown⟩ := loaded
    cases thrown

end Assembly

mutual

/-- Whatever is loaded has its tables. -/
theorem load_tabled : (d : Datum) → ∀ {n}, load d = .ok n → n.Tabled
  | .null, _, loaded => by cases loaded; exact .missing
  | .record fields, _, loaded => assemble_tabled (loadFields_tabled fields) loaded
  | .bool _, _, loaded | .int _, _, loaded | .float _, _, loaded | .text _, _, loaded
  | .list _, _, loaded => by cases loaded

theorem loadMembers_tabled : (d : Datum) → ∀ {ns}, loadMembers d = .ok ns → ∀ n ∈ ns, n.Tabled
  | .list items, _, loaded => loadAll_tabled items loaded
  | .text s, _, loaded => by
    simp only [loadMembers] at loaded
    split at loaded <;> cases loaded
    simp
  | .record fields, _, loaded => by
    simp only [loadMembers] at loaded
    split at loaded <;> cases loaded
    simp
  | .null, _, loaded | .bool _, _, loaded | .int _, _, loaded | .float _, _, loaded => by
    cases loaded

theorem loadAll_tabled : (ds : List Datum) → ∀ {ns}, loadAll ds = .ok ns → ∀ n ∈ ns, n.Tabled
  | [], _, loaded => by cases loaded; simp
  | d :: ds, _, loaded => by
    obtain ⟨n, first, loaded⟩ := bind_eq_ok.mp loaded
    obtain ⟨ns, others, loaded⟩ := bind_eq_ok.mp loaded
    cases loaded
    exact List.forall_mem_cons.mpr ⟨load_tabled d first, loadAll_tabled ds others⟩

theorem loadFields_tabled : (fields : List (String × Datum)) →
    ∀ f ∈ loadFields fields, f.2.Tabled
  | [] => by simp [loadFields]
  | (name, d) :: fields => by
    rw [loadFields]
    exact List.forall_mem_cons.mpr ⟨⟨load_tabled d, loadMembers_tabled d⟩, loadFields_tabled fields⟩

end

/-- A tree that was read from a source holds no programs, so none can lack a table. -/
theorem WellFormed.tabled {node : Node} (formed : node.WellFormed) : node.Tabled := by
  induction formed with
  | say => exact .say
  | math => exact .math
  | block _ ih => exact .block ih
  | loop _ _ _ ih => exact .loop ih
  | define _ _ _ _ ih => exact .define ih
  | call => exact .call
  | branch _ _ _ ih => exact .branch ih .missing
  | branchElse _ _ _ _ _ first second => exact .branch first second
  | assign => exact .assign

end Node

theorem foldlM_insert_ok {defs : List Definition} (named : ∀ d ∈ defs, ∃ name, d.name = textOf name)
    (t : Table Definition) :
    ∃ table, defs.foldlM (fun t d => do return t.insert (← d.name.key) d) t =
      (.ok table : Except Fault (Table Definition)) := by
  induction defs generalizing t with
  | nil => exact ⟨t, rfl⟩
  | cons d defs ih =>
    obtain ⟨⟨name, text⟩, others⟩ := List.forall_mem_cons.mp named
    obtain ⟨table, rest⟩ := ih others (t.insert (.text (String.ofList name)) d)
    refine ⟨table, ?_⟩
    rw [List.foldlM_cons, text]
    exact rest

theorem wellFormed_hasTable {body : List Node} (formed : ∀ n ∈ body, n.WellFormed) :
    HasTable body := by
  refine foldlM_insert_ok (fun d inside => ?_) []
  exact definition_named (definitionsIn_wellFormed formed d inside)

/-- The functions of a program, which loading finds again in its body. Other trees
have none. -/
def Node.functions : Node → Except Fault (Table Definition)
  | .program body => functionTable body
  | _ => .ok []

theorem tabled_functions {node : Node} (tabled : node.Tabled) :
    ∃ table, node.functions = .ok table := by
  cases tabled with
  | program _ table => exact table
  | _ => exact ⟨[], rfl⟩

/-- A tree that was read from a source or loaded is loaded back from its stored form
with every field, and with the same functions in the same order. -/
theorem load_store_of_origin {node : Node}
    (origin : (∃ source, parse source = .ok node) ∨ ∃ d, Node.load d = .ok node) :
    ∃ loaded table, Node.load node.store = .ok loaded ∧ loaded = node ∧
      loaded.functions = .ok table ∧ node.functions = .ok table := by
  have tabled : node.Tabled := by
    rcases origin with ⟨source, accepted⟩ | ⟨d, loaded⟩
    · obtain ⟨body, rfl, formed⟩ := parse_wellFormed accepted
      exact .program (fun n inside => (formed n inside).tabled) (wellFormed_hasTable formed)
    · exact Node.load_tabled d loaded
  obtain ⟨table, found⟩ := tabled_functions tabled
  exact ⟨node, table, Node.load_store tabled, rfl, found, found⟩

/-- Keywords in capitals, a missing else-branch and a function in a function. -/
def storedSample : List Char :=
  "function f(a) \x7b\nif a \x7bADD(1)\x7d\nfunction g() \x7b\x7d\n\x7d".toList

theorem load_store_of_origin_storedSample :
    ∃ node, parse storedSample = .ok node ∧
      ∃ loaded table, Node.load node.store = .ok loaded ∧ loaded = node ∧
        loaded.functions = .ok table ∧ node.functions = .ok table := by
  have ok : (parse storedSample).isOk = true := by decide +kernel
  cases accepted : parse storedSample with
  | ok node => exact ⟨node, rfl, load_store_of_origin (.inl ⟨storedSample, accepted⟩)⟩
  | error _ =>
    rw [accepted] at ok
    cases ok

end Primer
