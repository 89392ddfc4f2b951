import Primer.Proofs.Moments
import Primer.Proofs.Offsets
import Primer.Proofs.Storage

/-! The functions of a program. The table of a program holds every name that is defined at
any depth, with the definition that stands last in the text, one that contains others of
the name counting as later than those. Main statement: that definition is what the name
stands for in every scope of every run. -/
namespace Primer

open Node

namespace Table

theorem keys_insert (t : Table α) (k : Key) (a : α) :
    (t.insert k a).map Prod.fst =
      if k ∈ t.map Prod.fst then t.map Prod.fst else t.map Prod.fst ++ [k] := by
  induction t with
  | nil => rfl
  | cons entry rest ih =>
    obtain ⟨k', b⟩ := entry
    by_cases same : k' = k
    · simp [insert, same]
    · have other : k ≠ k' := fun eq => same eq.symm
      simp only [insert, if_neg same, List.map_cons, ih, List.mem_cons, other, false_or]
      split <;> rfl

theorem nodup_keys_insert {t : Table α} (distinct : (t.map Prod.fst).Nodup) (k : Key) (a : α) :
    ((t.insert k a).map Prod.fst).Nodup := by
  rw [keys_insert]
  split
  · exact distinct
  · rename_i fresh
    simpa using distinct.concat fresh

theorem find?_eq_none {t : Table α} {k : Key} : t.find? k = none ↔ k ∉ t.map Prod.fst := by
  induction t with
  | nil => simp [find?]
  | cons entry rest ih =>
    by_cases same : entry.1 = k
    · simp [find?, same]
    · have other : k ≠ entry.1 := fun eq => same eq.symm
      simp only [find?, if_neg same, ih, List.map_cons, List.mem_cons, other, false_or]

end Table

section Filling
variable {ds : List Definition} {start table : Table Definition}
  (filled : ds.foldlM (fun t d => do return t.insert (← d.name.key) d) start =
    (.ok table : Except Fault (Table Definition)))
include filled

theorem filled_nodup (distinct : (start.map Prod.fst).Nodup) : (table.map Prod.fst).Nodup := by
  induction ds generalizing start with
  | nil => cases filled; exact distinct
  | cons d ds ih =>
    obtain ⟨next, entered, filled⟩ := bind_eq_ok.mp filled
    obtain ⟨key, -, entered⟩ := bind_eq_ok.mp entered
    cases entered
    exact ih filled (Table.nodup_keys_insert distinct key d)

/-- A name has the last of the definitions that were entered for it. -/
theorem filled_find? (k : Key) :
    (∃ before d after, ds = before ++ d :: after ∧ d.name.key = .ok k ∧
      (∀ e ∈ after, e.name.key ≠ .ok k) ∧ table.find? k = some d) ∨
    (∀ e ∈ ds, e.name.key ≠ .ok k) ∧ table.find? k = start.find? k := by
  induction ds generalizing start with
  | nil => cases filled; exact .inr ⟨nofun, rfl⟩
  | cons d ds ih =>
    obtain ⟨next, entered, filled⟩ := bind_eq_ok.mp filled
    obtain ⟨key, named, entered⟩ := bind_eq_ok.mp entered
    cases entered
    rcases ih filled with ⟨before, e, after, rfl, isKey, last, found⟩ | ⟨none, found⟩
    · exact .inl ⟨d :: before, e, after, rfl, isKey, last, found⟩
    · by_cases same : key = k
      · subst same
        rw [Table.find?_insert_self] at found
        exact .inl ⟨[], d, ds, rfl, named, none, found⟩
      · rw [Table.find?_insert_of_ne _ same] at found
        have other : d.name.key ≠ .ok k := by
          rw [named]
          exact fun eq => same (Except.ok.inj eq)
        exact .inr ⟨List.forall_mem_cons.mpr ⟨other, none⟩, found⟩

end Filling

def Definition.StartsBefore (e d : Definition) : Prop :=
  ∃ m n, e.offset = atOffset m ∧ d.offset = atOffset n ∧ m < n

/-- A definition that gives way to another one of its name: it starts before the other
one or lies inside its body. -/
def Definition.Yields (e d : Definition) : Prop := e.StartsBefore d ∨ e.node ∈ d.body.nodes

theorem startsBefore_of_ascending {a b c : Nat} {xs ys : List Node} (first : Ascending a b xs)
    (second : Ascending b c ys) {e d : Definition} (earlier : e.node ∈ xs) (later : d.node ∈ ys) :
    e.StartsBefore d := by
  obtain ⟨m, place, -, high⟩ := first.mem earlier
  obtain ⟨n, place', low, -⟩ := second.mem later
  exact ⟨m, n, place, place', by omega⟩

theorem yields_append {a b c : Nat} {xs ys : List Node} (first : Ascending a b xs)
    (second : Ascending b c ys) {es ds : List Definition} (inFirst : ∀ e ∈ es, e.node ∈ xs)
    (inSecond : ∀ d ∈ ds, d.node ∈ ys) (sorted : es.Pairwise Definition.Yields)
    (sorted' : ds.Pairwise Definition.Yields) : (es ++ ds).Pairwise Definition.Yields := by
  refine List.pairwise_append.mpr ⟨sorted, sorted', ?_⟩
  intro e earlier d later
  exact .inl (startsBefore_of_ascending first second (inFirst e earlier) (inSecond d later))

mutual

/-- In the order in which definitions are entered, each gives way to those after it. -/
theorem definitions_yield : (node : Node) → {a b : Nat} → Ascending a b node.nodes →
    node.definitions.Pairwise Definition.Yields
  | .program body, _, _, ascending | .block body _, _, _, ascending => by
    rw [nodes] at ascending
    cases ascending with
    | cons _ _ rest => exact definitionsIn_yield body rest
  | .loop _ body _, _, _, ascending => by
    rw [nodes] at ascending
    cases ascending with
    | cons _ _ rest => exact definitions_yield body rest
  | .define name params body o, _, _, ascending => by
    rw [nodes] at ascending
    cases ascending with
    | cons _ _ rest =>
      refine List.pairwise_append.mpr ⟨definitions_yield body rest, List.pairwise_singleton _ _, ?_⟩
      intro e inside d here
      cases List.mem_singleton.mp here
      exact .inr ((mem_definitions e body).mp inside)
  | .branch condition yes no o, _, _, ascending => by
    by_cases absent : no = .missing
    · subst absent
      rw [nodes] at ascending
      cases ascending with
      | cons _ _ rest => simpa [definitions] using definitions_yield yes rest
    · rw [nodes_branch absent] at ascending
      cases ascending with
      | cons _ _ rest =>
        obtain ⟨_, first, second⟩ := rest.of_append
        exact yields_append first second (fun e => (mem_definitions e yes).mp)
          (fun d => (mem_definitions d no).mp) (definitions_yield yes first)
          (definitions_yield no second)
  | .missing, _, _, _ | .say .., _, _, _ | .math .., _, _, _ | .call .., _, _, _
  | .declare .., _, _, _ | .assign .., _, _, _ => List.Pairwise.nil

theorem definitionsIn_yield : (body : List Node) → {a b : Nat} → Ascending a b (nodesIn body) →
    (definitionsIn body).Pairwise Definition.Yields
  | [], _, _, _ => List.Pairwise.nil
  | node :: rest, _, _, ascending => by
    obtain ⟨_, first, second⟩ := Ascending.of_append ascending
    exact yields_append first second (fun e => (mem_definitions e node).mp)
      (fun d => (mem_definitionsIn_iff d rest).mp) (definitions_yield node first)
      (definitionsIn_yield rest second)

end

/-- The table of the functions that a body defines: each name once, with a definition to
which all others of the name give way. -/
structure Hoisted (body : List Node) (table : Table Definition) : Prop where
  distinct : (table.map Prod.fst).Nodup
  names : ∀ key, key ∈ table.map Prod.fst ↔
    ∃ (name : String) (d : Definition), key = .text name ∧ d.name = .text name ∧
      d.node ∈ nodesIn body
  last : ∀ name d, table.find? (.text name) = some d →
    d.name = .text name ∧ d.node ∈ nodesIn body ∧
      ∀ e : Definition, e.node ∈ nodesIn body → e.name = .text name → e = d ∨ e.Yields d

theorem key_eq_text {d : Datum} {name : String} (key : d.key = .ok (.text name)) : d = .text name := by
  cases d with
  | text s => cases key; rfl
  | float x =>
    simp only [Datum.key] at key
    split at key <;> cases key
  | _ => cases key

theorem functionTable_hoisted {source : List Char} {body : List Node}
    (accepted : parse source = .ok (.program body)) {table : Table Definition}
    (filled : functionTable body = .ok table) : Hoisted body table := by
  obtain ⟨_, same, formed⟩ := parse_wellFormed accepted
  cases same
  have sorted := definitionsIn_yield body (parse_ascending accepted)
  have named : ∀ d ∈ definitionsIn body, ∃ name, d.name = .text name := by
    intro d inside
    obtain ⟨name, isName⟩ := definition_named (definitionsIn_wellFormed formed d inside)
    exact ⟨String.ofList name, isName⟩
  refine ⟨filled_nodup filled List.nodup_nil, fun key => ?_, fun name d found => ?_⟩
  · rw [← not_iff_not, ← Table.find?_eq_none]
    rcases filled_find? filled key with ⟨before, d, after, split, isKey, -, found⟩ | ⟨none, found⟩
    · have inside : d ∈ definitionsIn body := split ▸ List.mem_append_right _ List.mem_cons_self
      obtain ⟨name, isName⟩ := named d inside
      rw [isName] at isKey
      cases isKey
      simp only [found, reduceCtorEq, false_iff, not_not]
      exact ⟨name, d, rfl, isName, (mem_definitionsIn_iff d body).mp inside⟩
    · refine iff_of_true found ?_
      rintro ⟨name, d, rfl, isName, inside⟩
      apply none d ((mem_definitionsIn_iff d body).mpr inside)
      rw [isName]
      rfl
  · rcases filled_find? filled (.text name) with ⟨before, e, after, split, isKey, last, here⟩ | ⟨-, none⟩
    · cases here.symm.trans found
      have inside : d ∈ definitionsIn body := split ▸ List.mem_append_right _ List.mem_cons_self
      refine ⟨key_eq_text isKey, (mem_definitionsIn_iff d body).mp inside, fun e member isName => ?_⟩
      have listed := (mem_definitionsIn_iff e body).mpr member
      rw [split] at listed sorted
      rcases List.mem_append.mp listed with earlier | later
      · exact .inr ((List.pairwise_append.mp sorted).2.2 e earlier d List.mem_cons_self)
      · rcases List.mem_cons.mp later with rfl | later
        · exact .inl rfl
        · apply absurd _ (last e later)
          rw [isName]
          rfl
    · cases none.symm.trans found

/-- A scope in which only the outermost frame has functions. -/
def Hosts (functions : Table Definition) (s : Scope) : Prop :=
  ∃ n, s.frames.map Frame.functions = List.replicate n [] ++ [functions]

namespace Hosts
variable {functions : Table Definition} {s t : Scope}

theorem global (functions : Table Definition) : Hosts functions (globalScope functions) := ⟨0, rfl⟩

theorem child (hosts : Hosts functions s) : Hosts functions s.child := by
  obtain ⟨n, frames⟩ := hosts
  exact ⟨n + 1, congrArg (List.cons []) frames⟩

theorem leave (hosts : Hosts functions s) : Hosts functions s.leave := by
  obtain ⟨f, parents⟩ := s
  cases parents with
  | nil => exact hosts
  | cons g parents =>
    obtain ⟨n, frames⟩ := hosts
    cases n with
    | zero => cases frames
    | succ n => exact ⟨n, (List.cons.inj frames).2⟩

theorem confined (kept : Confined s t) (hosts : Hosts functions s) : Hosts functions t := by
  have same : t.frames.map Frame.functions = s.frames.map Frame.functions := by
    simp only [Scope.frames, List.map_cons, kept.parents, kept.functions]
  obtain ⟨n, frames⟩ := hosts
  exact ⟨n, same.trans frames⟩

theorem of_suffix {n : Nat} {tables : List (Table Definition)} (some : tables ≠ [])
    (suffix : tables <:+ List.replicate n [] ++ [functions]) :
    ∃ m, tables = List.replicate m [] ++ [functions] := by
  induction n with
  | zero =>
    rcases List.suffix_cons_iff.mp suffix with whole | none
    · exact ⟨0, whole⟩
    · exact absurd (List.suffix_nil.mp none) some
  | succ n ih =>
    rcases List.suffix_cons_iff.mp suffix with whole | shorter
    · exact ⟨n + 1, whole⟩
    · exact ih shorter

theorem encloses (around : t.Encloses s) (hosts : Hosts functions s) : Hosts functions t := by
  obtain ⟨n, frames⟩ := hosts
  have suffix : t.frames.map Frame.functions <:+ List.replicate n [] ++ [functions] :=
    frames ▸ around.map Frame.functions
  exact of_suffix (List.cons_ne_nil _ _) suffix

theorem function? (hosts : Hosts functions s) (k : Key) : s.function? k = functions.find? k := by
  obtain ⟨n, frames⟩ := hosts
  have mapped : s.function? k = (s.frames.map Frame.functions).findSome? (·.find? k) := by
    rw [List.findSome?_map]
    rfl
  have inner : (List.replicate n []).findSome? (fun t : Table Definition => t.find? k) = none := by
    apply List.findSome?_eq_none_iff.mpr
    intro t inside
    rw [List.eq_of_mem_replicate inside]
    rfl
  rw [mapped, frames, List.findSome?_append, inner, Option.none_or, List.findSome?_singleton]

end Hosts

/-- The functions of a program are found by name in every scope that exists at any moment
of a run. A name that is defined several times has the definition to which the others give
way; no two nodes of a program are equal, so the others are all that differ from it. By
`runNode_passes` the scopes of the run itself are among the moments. -/
theorem functions_hoisted {source : List Char} {body : List Node}
    (accepted : parse source = .ok (.program body)) :
    ∃ table, (Node.program body).functions = .ok table ∧ (nodesIn body).Nodup ∧
      Hoisted body table ∧ ∀ verbosity limit moment, RunPasses verbosity limit body moment →
        ∀ s : Scope, s.Encloses moment →
          ∀ name, s.function? (.text name) = table.find? (.text name) := by
  obtain ⟨_, same, formed⟩ := parse_wellFormed accepted
  cases same
  obtain ⟨table, filled⟩ := wellFormed_hasTable formed
  refine ⟨table, filled, (parse_ascending accepted).nodup, functionTable_hoisted accepted filled, ?_⟩
  intro verbosity limit moment passes s around name
  have hosts : Hosts table moment := by
    apply passes.keeps (fun _ => .child) (fun _ _ => .confined)
    intro functions again
    cases filled.symm.trans again
    exact .global table
  exact (hosts.encloses around).function? (.text name)

/-- Three functions of one name. The second one stands last, and the third one inside it. -/
def hoistedSample : List Char :=
  ("call f(1)\nfunction f() \x7b\x7d\n" ++
    "if 1 \x7bfunction f(a) \x7bfunction f(a, b) \x7b\x7d\x7d\x7d").toList

theorem functions_hoisted_hoistedSample :
    ∃ body table, parse hoistedSample = .ok (.program body) ∧
      (Node.program body).functions = .ok table ∧ Hoisted body table ∧
      (table.find? (.text "f")).map (·.params.length) = some 1 ∧
      (∀ name, (runNode 3 9 (.program body)).globals.function? (.text name) =
        table.find? (.text name)) ∧
      ∀ verbosity limit moment, RunPasses verbosity limit body moment →
        ∀ s : Scope, s.Encloses moment →
          ∀ name, s.function? (.text name) = table.find? (.text name) := by
  obtain ⟨body, accepted⟩ := parse_of_isOk (show (parse hoistedSample).isOk = true by decide +kernel)
  obtain ⟨table, filled, -, hoisted, always⟩ := functions_hoisted accepted
  have arity : ((parse hoistedSample).toOption.bind fun program => program.functions.toOption.bind
      fun table => (table.find? (.text "f")).map (·.params.length)) = some 1 := by decide +kernel
  rw [accepted] at arity
  simp only [Except.toOption, Option.bind_some, filled] at arity
  have last := always 3 9 _ (runNode_passes 3 9 filled).2.1 _ List.suffix_rfl
  exact ⟨body, table, accepted, filled, hoisted, arity, last, always⟩

end Primer
