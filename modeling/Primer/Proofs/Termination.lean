import Mathlib.Order.WellFoundedSet
import Primer.Proofs.Hoisting
import Primer.Proofs.Nesting

/-! Programs without recursion. Functions that call each other without a cycle nest only to
a depth that the program text fixes, whatever its conditions are and however often its
loops run. Main statement: a limit of that depth never cuts a run of the program short. -/
namespace Primer

open Node Outcome

/-- A call of the second function occurs in the body of the first one. -/
def Calls (functions : Table Definition) (f g : Key) : Prop :=
  ∃ d name args o, functions.find? f = some d ∧ .call name args o ∈ d.body.nodes ∧ name.key = .ok g

/-- No function leads back to itself by calls. -/
def Acyclic (functions : Table Definition) : Prop := ∀ f, ¬ Relation.TransGen (Calls functions) f f

section CallGraph
variable {functions : Table Definition}

theorem mem_keys_of_find? {f : Key} {d : Definition} (found : functions.find? f = some d) :
    f ∈ functions.map Prod.fst := List.mem_map_of_mem (Table.mem_of_find? found)

/-- The functions of a table are finitely many, so calls without a cycle come to an end. -/
theorem Acyclic.wellFoundedOn (acyclic : Acyclic functions) :
    {f | f ∈ functions.map Prod.fst}.WellFoundedOn
      fun g f => Relation.TransGen (Calls functions) f g := by
  have order : IsStrictOrder Key fun g f => Relation.TransGen (Calls functions) f g :=
    { irrefl := acyclic
      trans := fun _ _ _ first second => second.trans first }
  exact (List.finite_toSet _).wellFoundedOn

/-- Whether every call in a function leads to one of a lower rank. -/
def descends (rank : Key → Nat) (functions : Table Definition) : Bool :=
  functions.all fun entry => entry.2.body.nodes.all fun
    | .call name _ _ => match name.key with
      | .ok g => decide (rank g < rank entry.1)
      | .error _ => true
    | _ => true

theorem Calls.rank_lt {rank : Key → Nat} (falls : descends rank functions = true) {f g : Key}
    (calls : Calls functions f g) : rank g < rank f := by
  obtain ⟨d, name, args, o, found, member, named⟩ := calls
  have entry := List.all_eq_true.mp falls _ (Table.mem_of_find? found)
  have call := List.all_eq_true.mp entry _ member
  simpa [named] using call

theorem acyclic_of_descends {rank : Key → Nat} (falls : descends rank functions = true) :
    Acyclic functions := by
  have below : ∀ {f g}, Relation.TransGen (Calls functions) f g → rank g < rank f := by
    intro f g leads
    induction leads with
    | single calls => exact calls.rank_lt falls
    | tail _ calls ih => exact (calls.rank_lt falls).trans ih
  exact fun f cycle => Nat.lt_irrefl _ (below cycle)

end CallGraph

/-- Statements nest at most to a depth, a call as deep as the body of the function. -/
def NestsIn (functions : Table Definition) : Nat → Node → Prop
  | 0, _ => False
  | depth + 1, node =>
    match node with
    | .block statements _ => ∀ n ∈ statements, NestsIn functions depth n
    | .loop _ body _ => NestsIn functions depth body
    | .branch _ yes no _ => NestsIn functions depth yes ∧ (no ≠ .missing → NestsIn functions depth no)
    | .call name _ _ => ∀ key d, name.key = .ok key → functions.find? key = some d →
        NestsIn functions depth d.body
    | _ => True

section Depths
variable {functions : Table Definition}

theorem NestsIn.mono {m n : Nat} {node : Node} (nests : NestsIn functions m node) (le : m ≤ n) :
    NestsIn functions n node := by
  induction m generalizing n node with
  | zero => exact nests.elim
  | succ m ih =>
    cases n with
    | zero => omega
    | succ n =>
      have deeper : ∀ {inner}, NestsIn functions m inner → NestsIn functions n inner :=
        fun inner => ih inner (Nat.le_of_succ_le_succ le)
      cases node with
      | block statements o => exact fun inner member => deeper (nests inner member)
      | loop count body o => exact deeper (show NestsIn functions m body from nests)
      | branch condition yes no o =>
        exact ⟨deeper nests.1, fun present => deeper (nests.2 present)⟩
      | call name args o => exact fun key d named found => deeper (nests key d named found)
      | _ => trivial

theorem NestsIn.pos {n : Nat} {node : Node} (nests : NestsIn functions n node) : 0 < n := by
  cases n with
  | zero => exact nests.elim
  | succ n => exact Nat.succ_pos n

/-- The functions that are called in some nodes nest to some depth. -/
def CallsNest (functions : Table Definition) (nodes : List Node) : Prop :=
  ∀ name args o, .call name args o ∈ nodes → ∀ key d, name.key = .ok key →
    functions.find? key = some d → ∃ n, NestsIn functions n d.body

theorem CallsNest.subset {xs ys : List Node} (calls : CallsNest functions ys) (inside : xs ⊆ ys) :
    CallsNest functions xs :=
  fun name args o member => calls name args o (inside member)

mutual

theorem exists_nestsIn : (node : Node) → CallsNest functions node.nodes →
    ∃ n, NestsIn functions n node
  | .block statements o, calls => by
    have inner := calls.subset (List.subset_cons_self _ _)
    obtain ⟨n, nests⟩ := exists_nestsIn_all statements inner
    exact ⟨n + 1, nests⟩
  | .loop count body o, calls => by
    obtain ⟨n, nests⟩ := exists_nestsIn body (calls.subset (List.subset_cons_self _ _))
    exact ⟨n + 1, nests⟩
  | .branch condition yes no o, calls => by
    obtain ⟨m, first⟩ := exists_nestsIn yes (calls.subset fun n inside => nodes_yes inside _ _ _)
    by_cases absent : no = .missing
    · exact ⟨m + 1, first, fun present => absurd absent present⟩
    · obtain ⟨n, second⟩ :=
        exists_nestsIn no (calls.subset fun n inside => nodes_no absent inside _ _ _)
      exact ⟨max m n + 1, first.mono (Nat.le_max_left m n),
        fun _ => second.mono (Nat.le_max_right m n)⟩
  | .call name args o, calls => by
    -- the name stands for one function at most, so one depth is enough
    cases named : name.key with
    | error f => exact ⟨1, fun key d again => by rw [named] at again; cases again⟩
    | ok key =>
      cases found : functions.find? key with
      | none =>
        refine ⟨1, fun again d same here => ?_⟩
        cases named.symm.trans same
        cases found.symm.trans here
      | some d =>
        obtain ⟨n, nests⟩ := calls name args o (self_mem_nodes _) key d named found
        refine ⟨n + 1, fun again e same here => ?_⟩
        cases named.symm.trans same
        cases found.symm.trans here
        exact nests
  | .missing, _ | .program _, _ | .say .., _ | .math .., _ | .define .., _ | .declare .., _
  | .assign .., _ => ⟨1, trivial⟩

theorem exists_nestsIn_all : (body : List Node) → CallsNest functions (nodesIn body) →
    ∃ n, ∀ node ∈ body, NestsIn functions n node
  | [], _ => ⟨0, nofun⟩
  | node :: rest, calls => by
    obtain ⟨m, first⟩ := exists_nestsIn node (calls.subset (List.subset_append_left _ _))
    obtain ⟨n, others⟩ := exists_nestsIn_all rest (calls.subset (List.subset_append_right _ _))
    refine ⟨max m n, List.forall_mem_cons.mpr ⟨first.mono (Nat.le_max_left m n), ?_⟩⟩
    exact fun inner member => (others inner member).mono (Nat.le_max_right m n)

end

/-- By the order of the call graph, every function nests to some depth. -/
theorem Acyclic.exists_nestsIn_body (acyclic : Acyclic functions) {f : Key} {d : Definition}
    (found : functions.find? f = some d) : ∃ n, NestsIn functions n d.body := by
  have listed := mem_keys_of_find? found
  revert d
  apply acyclic.wellFoundedOn.induction listed
  intro f _ ih d found
  apply exists_nestsIn
  intro name args o member g e named called
  have calls : Calls functions f g := ⟨d, name, args, o, found, member, named⟩
  exact ih g (mem_keys_of_find? called) (.single calls) called

end Depths

theorem NestsIn.of_runs {functions : Table Definition} {depth : Nat} {node inner : Node} {s : Scope}
    (nests : NestsIn functions (depth + 1) node) (hosts : Hosts functions s)
    (runs : node.Runs s inner) : NestsIn functions depth inner := by
  cases runs with
  | statement member => exact nests inner member
  | round => exact nests
  | yes => exact nests.1
  | no present => exact nests.2 present
  | body named found => exact nests _ _ named (hosts.function? _ ▸ found)
  | parameter named found =>
    have body := nests _ _ named (hosts.function? _ ▸ found)
    obtain ⟨n, rfl⟩ := Nat.exists_eq_succ_of_ne_zero (Nat.ne_of_gt body.pos)
    trivial

/-- Statements that nest to a depth run statements that nest to one less. -/
theorem not_tooDeep_invariant (functions : Table Definition) (verbosity depth : Nat) :
    Invariant verbosity (NestsIn functions (depth + 1)) (NestsIn functions depth) (Hosts functions)
      (fun _ o => ¬ o.TooDeep ∧ Hosts functions o.scope) where
  runs := .of_runs
  child := .child
  done hosts := ⟨nofun, hosts⟩
  fail _ _ fails hosts := by
    refine ⟨fun deep => ?_, hosts⟩
    cases deep
    exact Node.FailsWith.not_tooDeep fails
  say _ hosts := ⟨nofun, hosts⟩
  set _ hosts _ := ⟨nofun, hosts⟩
  executes _ hosts := by
    refine ⟨not_tooDeep_traced _ _ _ _, ?_⟩
    rw [scope_traced]
    exact hosts
  traces _ _ _ hosts := by
    refine ⟨not_tooDeep_traced _ _ _ _, ?_⟩
    rw [scope_traced]
    exact hosts
  ends kept _ := kept.2
  andThen {_ o _} first rest := by
    unfold andThen
    cases ended : o.failure with
    | some f => exact first
    | none => exact rest ended
  leave _ inside := ⟨inside.1, inside.2.leave⟩
  stamp offset kept := by
    rw [tooDeep_stamp, scope_stamp]
    exact kept

/-- A limit of the depth to which a statement nests does not cut it short. -/
theorem execute_not_tooDeep {functions : Table Definition} (verbosity depth : Nat) ⦃node : Node⦄
    ⦃s : Scope⦄ (nests : NestsIn functions depth node) (hosts : Hosts functions s) :
    ¬ (execute verbosity depth node s).TooDeep ∧
      Hosts functions (execute verbosity depth node s).scope := by
  induction depth generalizing node s with
  | zero => exact nests.elim
  | succ depth ih =>
    exact executeWith_invariant (not_tooDeep_invariant functions verbosity depth) ih hosts nests

theorem runAll_not_tooDeep {functions : Table Definition} (verbosity : Nat) {depth : Nat}
    {nodes : List Node} (nest : ∀ n ∈ nodes, NestsIn functions depth n) {s : Scope}
    (hosts : Hosts functions s) : ¬ (runAll (execute verbosity depth) nodes s).TooDeep :=
  (runAll_invariant (not_tooDeep_invariant functions verbosity depth)
    (execute_not_tooDeep verbosity depth) hosts nest).1

/-- A program whose functions do not call each other in a cycle ends, normally or with an
error, under every limit that is large enough, and the limit makes no difference then. The
run includes its trace, which shows every statement that is executed. -/
theorem acyclic_run_ends {functions : Table Definition} (acyclic : Acyclic functions)
    (body : List Node) :
    ∃ bound, ∀ verbosity limit, bound ≤ limit →
      ¬ (runAll (execute verbosity limit) body (globalScope functions)).TooDeep ∧
      runAll (execute verbosity limit) body (globalScope functions) =
        runAll (execute verbosity bound) body (globalScope functions) ∧
      (functionTable body = .ok functions → runNode verbosity limit (.program body) =
        ⟨true, runAll (execute verbosity bound) body (globalScope functions)⟩) := by
  have calls : CallsNest functions (nodesIn body) :=
    fun _ _ _ _ _ _ _ found => acyclic.exists_nestsIn_body found
  obtain ⟨bound, nest⟩ := exists_nestsIn_all body calls
  refine ⟨bound, fun verbosity limit le => ?_⟩
  have ends : ¬ (runAll (execute verbosity bound) body (globalScope functions)).TooDeep :=
    runAll_not_tooDeep verbosity nest (.global functions)
  have same := runAll_stable ends le
  refine ⟨same ▸ ends, same, fun table => ?_⟩
  simp only [runNode, table, same]

/-- A function that calls another one in a loop, and a call of it. -/
def callingSample : List Char :=
  "call f()\nfunction f() \x7brepeat 3 \x7bcall g()\x7d\x7d\nfunction g() \x7bsay hi\x7d".toList

theorem acyclic_run_ends_callingSample :
    ∃ body functions bound, parse callingSample = .ok (.program body) ∧
      functionTable body = .ok functions ∧ Acyclic functions ∧
      ∀ verbosity limit, bound ≤ limit →
        ¬ (runAll (execute verbosity limit) body (globalScope functions)).TooDeep ∧
        runNode verbosity limit (.program body) =
          ⟨true, runAll (execute verbosity bound) body (globalScope functions)⟩ := by
  obtain ⟨body, accepted⟩ := parse_of_isOk (show (parse callingSample).isOk = true by decide +kernel)
  obtain ⟨_, same, formed⟩ := parse_wellFormed accepted
  cases same
  obtain ⟨functions, table⟩ := wellFormed_hasTable formed
  have falls : ((parse callingSample).toOption.bind fun program => program.functions.toOption.map
      (descends fun k => if k = .text "f" then 1 else 0)) = some true := by decide +kernel
  rw [accepted] at falls
  simp only [Except.toOption, Option.bind_some, Node.functions, table, Option.map_some,
    Option.some.injEq] at falls
  have acyclic := acyclic_of_descends falls
  obtain ⟨bound, ends⟩ := acyclic_run_ends acyclic body
  refine ⟨body, functions, bound, accepted, table, acyclic, fun verbosity limit le => ?_⟩
  obtain ⟨shallow, -, ran⟩ := ends verbosity limit le
  exact ⟨shallow, ran table⟩

end Primer
