import Primer.Proofs.Bindings
import Primer.Proofs.Iteration

/-! Where a run fails. A problem arises in a call or an operator, inside the statements that
are being executed at that moment, and on its way out it takes the offset of the first of
them that has one. Main statement: a diagnostic that leaves a run has the offset of the
innermost of these statements that has one. For a program that was read this is the statement
in which the problem arose. -/
namespace Primer

open Node Outcome

namespace Outcome

/-- What is tried fails with a fault or goes on. -/
theorem attempt_diagnosed {r : Except Fault α} {s : Scope} {next : α → Outcome} {d : Diagnostic} :
    (attempt r s next).failure = some (.diagnostic d) ↔
      ∃ a, r = .ok a ∧ (next a).failure = some (.diagnostic d) := by
  cases r <;> simp [attempt, fail]

theorem traced_not_diagnosed {verbosity level : Nat} {text : Unit → Except Fault String} {s : Scope}
    {d : Diagnostic} : (traced verbosity level text s).failure ≠ some (.diagnostic d) := by
  unfold traced
  split
  · intro failed
    obtain ⟨_, -, ended⟩ := attempt_diagnosed.mp failed
    cases ended
  · nofun

/-- A trace does not get in the way of a diagnostic. -/
theorem traced_andThen_diagnosed {verbosity level : Nat} {text : Unit → Except Fault String}
    {s : Scope} {next : Scope → Outcome} {d : Diagnostic}
    (failed : ((traced verbosity level text s).andThen next).failure = some (.diagnostic d)) :
    (next s).failure = some (.diagnostic d) := by
  rcases failure_andThen.mp failed with trace | ⟨-, failed⟩
  · exact absurd trace traced_not_diagnosed
  · rwa [scope_traced] at failed

theorem traced_andThen_failed {verbosity level : Nat} {text : Unit → Except Fault String}
    {s : Scope} {next : Scope → Outcome} (failed : (next s).failure ≠ none) :
    ((traced verbosity level text s).andThen next).failure ≠ none := by
  intro ended
  obtain ⟨-, last⟩ := failure_andThen_none.mp ended
  rw [scope_traced] at last
  exact failed last

end Outcome

section Lists
variable {run : Executor} {s t t' : Scope} {before after before' after' : List Node}
  {node node' : Node}

theorem runAll_failed (ends : (runAll run before s).Ends t) (failed : (run node t).failure ≠ none) :
    (runAll run (before ++ node :: after) s).failure ≠ none := by
  induction before generalizing s with
  | nil =>
    cases ends.2
    exact fun ended => failed (failure_andThen_none.mp ended).1
  | cons first before ih =>
    exact fun ended => ih (ends_andThen.mp ends).2 (failure_andThen_none.mp ended).2

/-- Statements fail in one place only. -/
theorem runAll_failed_unique (split : before ++ node :: after = before' ++ node' :: after')
    (ends : (runAll run before s).Ends t) (failed : (run node t).failure ≠ none)
    (ends' : (runAll run before' s).Ends t') (failed' : (run node' t').failure ≠ none) :
    node = node' ∧ t = t' := by
  induction before generalizing before' s with
  | nil =>
    cases ends.2
    cases before' with
    | nil =>
      cases ends'.2
      cases split
      exact ⟨rfl, rfl⟩
    | cons first before' =>
      cases split
      exact absurd (ends_andThen.mp ends').1 failed
  | cons first before ih =>
    cases before' with
    | nil =>
      cases ends'.2
      cases split
      exact absurd (ends_andThen.mp ends).1 failed'
    | cons first' before' =>
      injection split with same split
      cases same
      exact ih split (ends_andThen.mp ends).2 (ends_andThen.mp ends').2

/-- The rounds of a loop are statements one after another. -/
theorem replicate_round {rounds count : Nat} (few : rounds < count) (body : Node) :
    List.replicate count body =
      List.replicate rounds body ++ body :: List.replicate (count - rounds - 1) body := by
  rw [← List.replicate_succ, List.replicate_append_replicate]
  congr 1
  omega

theorem runTimes_failure {body : Node} {count : Nat} {f : Failure}
    (failed : (runTimes (run body) count s).failure = some f) :
    ∃ rounds t, rounds < count ∧ (runTimes (run body) rounds s).Ends t ∧
      (run body t).failure = some f := by
  rw [← runAll_replicate] at failed
  obtain ⟨before, node, after, t, split, ends, fails, -⟩ := runAll_failure failed
  obtain ⟨length, first, rest⟩ := List.replicate_eq_append_iff.mp split
  have same : node = body := List.eq_of_mem_replicate (rest ▸ List.mem_cons_self)
  rw [List.length_cons] at length
  rw [first, runAll_replicate] at ends
  exact ⟨before.length, t, by omega, ends, same ▸ fails⟩

end Lists

/-- A statement has a problem of its own: its operands, or the function that it calls. -/
inductive Poses : Node → Scope → Problem → Prop
  | operands {op : Operator} {operands : List Int} {keyword o : Datum} {s : Scope} {p : Problem} :
      op.apply operands = .error p → Poses (.math op operands keyword o) s p
  | undefined {name o : Datum} {args : List Datum} {s : Scope} {key : Key} {shown : String} :
      name.key = .ok key → s.function? key = none → name.display = .ok shown →
      Poses (.call name args o) s (.undefinedFunction shown)
  | arity {name o : Datum} {args : List Datum} {s : Scope} {key : Key} {d : Definition}
      {shown : String} : name.key = .ok key → s.function? key = some d →
      d.params.length ≠ args.length → name.display = .ok shown →
      Poses (.call name args o) s (.arityMismatch shown d.params.length args.length)

/-- A problem arises while a statement is executed in a scope, under a limit. The stack holds
the statements that are being executed then, the outermost first. -/
inductive Raises (verbosity : Nat) : Nat → Node → Scope → List Node → Problem → Prop
  | here {limit : Nat} {node : Node} {s : Scope} {p : Problem} : Poses node s p →
      Raises verbosity (limit + 1) node s [node] p
  | inside {limit : Nat} {node inner : Node} {s t : Scope} {stack : List Node} {p : Problem} :
      Enters (execute verbosity limit) node s inner t → Raises verbosity limit inner t stack p →
      Raises verbosity (limit + 1) node s (node :: stack) p

/-- A problem arises in a run of a program, with a stack of statements. -/
inductive RunRaises (verbosity limit : Nat) (functions : Table Definition) (body : List Node)
    (stack : List Node) (p : Problem) : Prop
  | statement {before after : List Node} {node : Node} {s : Scope} :
      body = before ++ node :: after →
      (runAll (execute verbosity limit) before (globalScope functions)).Ends s →
      Raises verbosity limit node s stack p → RunRaises verbosity limit functions body stack p

/-- The offset of the innermost statement of a stack that has one, or null if none has. -/
inductive Innermost : List Node → Datum → Prop
  | placed (outer : List Node) {inner : List Node} {node : Node} : node.offset ≠ .null →
      (∀ n ∈ inner, n.offset = .null) → Innermost (outer ++ node :: inner) node.offset
  | unplaced {stack : List Node} : (∀ n ∈ stack, n.offset = .null) → Innermost stack .null

section Steps
variable {verbosity : Nat} {run : Executor} {node inner inner' : Node} {s t t' u : Scope}
  {d : Diagnostic} {p p' : Problem}

theorem Poses.unique (first : Poses node s p) (second : Poses node s p') : p = p' := by
  cases first with
  | operands failed =>
    cases second with
    | operands failed' => exact Except.error.inj (failed.symm.trans failed')
  | undefined key none shown =>
    cases second with
    | undefined key' none' shown' => cases shown.symm.trans shown'; rfl
    | arity key' found' _ _ =>
      cases key.symm.trans key'
      cases none.symm.trans found'
  | arity key found other shown =>
    cases second with
    | undefined key' none' _ =>
      cases key.symm.trans key'
      cases found.symm.trans none'
    | arity key' found' other' shown' =>
      cases key.symm.trans key'
      cases found.symm.trans found'
      cases shown.symm.trans shown'
      rfl

/-- A statement with a problem of its own comes to no other one, in any scope that has the
same functions. -/
theorem Poses.not_enters (poses : Poses node s p) (same : ∀ k, u.function? k = s.function? k)
    (enters : Enters run node u inner t) : False := by
  cases poses with
  | operands _ => cases enters
  | undefined key none _ =>
    cases enters with
    | body key' found _ _ =>
      cases key.symm.trans key'
      cases (same _ ▸ none).symm.trans found
  | arity key found other _ =>
    cases enters with
    | body key' found' arity _ =>
      cases key.symm.trans key'
      cases (same _ ▸ found).symm.trans found'
      exact other arity

theorem enters_block {statements : List Node} {o : Datum}
    (enters : Enters run (.block statements o) s inner t) :
    ∃ before after, statements = before ++ inner :: after ∧ (runAll run before s.child).Ends t := by
  generalize block : Node.block statements o = node at enters
  cases enters with
  | statement ends =>
    cases block
    exact ⟨_, _, rfl, ends⟩
  | _ => cases block

/-- A statement comes to one failing statement only. -/
theorem Enters.unique (first : Enters run node s inner t) (second : Enters run node s inner' t')
    (failed : (run inner t).failure ≠ none) (failed' : (run inner' t').failure ≠ none) :
    inner = inner' ∧ t = t' := by
  cases node with
  | block statements o =>
    obtain ⟨before, after, split, ends⟩ := enters_block first
    obtain ⟨before', after', split', ends'⟩ := enters_block second
    exact runAll_failed_unique (split.symm.trans split') ends failed ends' failed'
  | loop count body o =>
    cases first with
    | round few ends =>
      cases second with
      | round few' ends' =>
        rw [← runAll_replicate] at ends ends'
        have split := (replicate_round few inner).symm.trans (replicate_round few' inner)
        exact runAll_failed_unique split ends failed ends' failed'
  | call name args o =>
    cases first with
    | body key found _ ends =>
      cases second with
      | body key' found' _ ends' =>
        cases key.symm.trans key'
        cases found.symm.trans found'
        exact ⟨rfl, ends.2.symm.trans ends'.2⟩
  | branch condition yes no o =>
    cases first with
    | yes holds =>
      cases second with
      | yes _ => exact ⟨rfl, rfl⟩
      | no other _ => cases holds.symm.trans other
    | no holds _ =>
      cases second with
      | yes other => cases holds.symm.trans other
      | no _ _ => exact ⟨rfl, rfl⟩
  | _ => cases first

theorem Poses.failed (poses : Poses node s p) : (perform verbosity run node s).failure ≠ none := by
  cases poses with
  | operands failed =>
    simp [perform, failed, fail]
  | undefined key none shown =>
    simp [perform, runCall, key, attempt, none, callFound, failNaming, shown, fail]
  | arity key found other shown =>
    simp [perform, runCall, key, attempt, found, callFound, other, failNaming, shown, fail]

theorem Enters.failed (enters : Enters run node s inner t) (failed : (run inner t).failure ≠ none) :
    (perform verbosity run node s).failure ≠ none := by
  cases enters with
  | statement ends => exact runAll_failed ends failed
  | round few ends =>
    rw [perform, ← runAll_replicate, replicate_round few]
    exact runAll_failed (runAll_replicate run _ _ s ▸ ends) failed
  | @body _ _ args _ _ _ f key found arity ends =>
    have entered : (enter run f args s).failure ≠ none := by
      intro ended
      obtain ⟨-, last⟩ := failure_andThen_none.mp ended
      rw [ends.2] at last
      exact failed last
    simp only [perform, runCall, key, attempt, found, callFound, if_pos arity]
    exact traced_andThen_failed entered
  | yes holds =>
    simp only [perform, holds, attempt]
    exact traced_andThen_failed failed
  | no holds present =>
    simp only [perform, holds, attempt]
    apply traced_andThen_failed
    cases inner with
    | missing => exact absurd rfl present
    | _ => exact failed

/-- A call that shows its name has a problem of its own. -/
theorem failNaming_diagnosed {name : Datum} {problem : String → Problem}
    (failed : (failNaming name s problem).failure = some (.diagnostic d)) :
    ∃ shown, name.display = .ok shown ∧ d = ⟨problem shown, .null, none⟩ := by
  obtain ⟨shown, display, failed⟩ := attempt_diagnosed.mp failed
  cases failed
  exact ⟨shown, display, rfl⟩

/-- An executor of declarations that never diagnoses one. -/
def Declares (run : Executor) : Prop :=
  ∀ name value s d, (run (.declare name value .null) s).failure ≠ some (.diagnostic d)

theorem bindParams_not_diagnosed (declares : Declares run) {caller : Scope}
    {pairs : List (Datum × Datum)} :
    (bindParams run caller pairs s).failure ≠ some (.diagnostic d) := by
  induction pairs generalizing s with
  | nil => nofun
  | cons pair pairs ih =>
    intro failed
    obtain ⟨value, -, failed⟩ := attempt_diagnosed.mp failed
    rcases failure_andThen.mp failed with first | ⟨-, later⟩
    · exact declares _ _ _ _ first
    · exact ih later

theorem runBinding_not_diagnosed {verb : String} {name value : Datum} :
    (runBinding verbosity verb name value s).failure ≠ some (.diagnostic d) := by
  intro failed
  obtain ⟨key, -, failed⟩ := attempt_diagnosed.mp failed
  exact traced_not_diagnosed failed

/-- A diagnostic comes from a statement itself, without an offset, or from one that it comes
to. -/
def DiagnosedIn (run : Executor) (node : Node) (s : Scope) (d : Diagnostic) : Prop :=
  (∃ p, Poses node s p ∧ d = ⟨p, .null, none⟩) ∨
    ∃ inner t, Enters run node s inner t ∧ (run inner t).failure = some (.diagnostic d)

theorem runCall_diagnosed (declares : Declares run) {name o : Datum} {args : List Datum}
    (failed : (runCall verbosity run name args s).failure = some (.diagnostic d)) :
    DiagnosedIn run (.call name args o) s d := by
  obtain ⟨key, keyed, failed⟩ := attempt_diagnosed.mp failed
  cases found : s.function? key with
  | none =>
    rw [found] at failed
    obtain ⟨shown, display, rfl⟩ := failNaming_diagnosed failed
    exact .inl ⟨_, .undefined keyed found display, rfl⟩
  | some f =>
    rw [found, callFound] at failed
    split at failed
    · rename_i arity
      have entered := traced_andThen_diagnosed failed
      rcases failure_andThen.mp entered with bound | ⟨bound, inside⟩
      · exact absurd bound (bindParams_not_diagnosed declares)
      · exact .inr ⟨f.body, _, .body keyed found arity ⟨bound, rfl⟩, inside⟩
    · rename_i other
      obtain ⟨shown, display, rfl⟩ := failNaming_diagnosed failed
      exact .inl ⟨_, .arity keyed found other display, rfl⟩

theorem branch_diagnosed {condition o : Datum} {yes no : Node}
    (failed : (perform verbosity run (.branch condition yes no o) s).failure = some (.diagnostic d)) :
    DiagnosedIn run (.branch condition yes no o) s d := by
  obtain ⟨truth, tested, failed⟩ := attempt_diagnosed.mp failed
  have chosen := traced_andThen_diagnosed failed
  cases truth with
  | true => exact .inr ⟨yes, s, .yes tested, chosen⟩
  | false =>
    cases no with
    | missing => cases chosen
    | _ => exact .inr ⟨_, s, .no tested nofun, chosen⟩

theorem perform_diagnosed (declares : Declares run)
    (failed : (perform verbosity run node s).failure = some (.diagnostic d)) :
    DiagnosedIn run node s d := by
  cases node with
  | say message o =>
    cases message with
    | text m =>
      obtain ⟨_, -, said⟩ := attempt_diagnosed.mp failed
      cases said
    | _ => cases failed
  | math op operands keyword o =>
    rw [perform] at failed
    split at failed
    · obtain ⟨_, -, said⟩ := attempt_diagnosed.mp failed
      cases said
    · rename_i p wrong
      cases failed
      exact .inl ⟨p, .operands wrong, rfl⟩
  | block statements o =>
    obtain ⟨before, inner, after, t, rfl, ends, inside, -⟩ := runAll_failure failed
    exact .inr ⟨inner, t, .statement ends, inside⟩
  | loop count body o =>
    obtain ⟨rounds, t, few, ends, inside⟩ := runTimes_failure failed
    exact .inr ⟨body, t, .round few ends, inside⟩
  | call name args o => exact runCall_diagnosed declares failed
  | branch condition yes no o => exact branch_diagnosed failed
  | declare name value o | assign name value o => exact absurd failed runBinding_not_diagnosed
  | define name params body o => cases failed
  | missing | program => cases failed

theorem executeWith_diagnosed
    (failed : (executeWith verbosity run node s).failure = some (.diagnostic d)) :
    ∃ cause : Diagnostic, (perform verbosity run node s).failure = some (.diagnostic cause) ∧
      Failure.placedAt node.offset (.diagnostic cause) = .diagnostic d := by
  rw [executeWith, failure_stamp] at failed
  obtain ⟨failure, failed, placed⟩ := Option.map_eq_some_iff.mp failed
  cases failure with
  | diagnostic cause => exact ⟨cause, traced_andThen_diagnosed failed, placed⟩
  | fault _ | tooDeep => cases placed

theorem executeWith_failed (failed : (perform verbosity run node s).failure ≠ none) :
    (executeWith verbosity run node s).failure ≠ none := by
  rw [executeWith, ne_eq, failure_stamp_none]
  exact traced_andThen_failed failed

end Steps

namespace Innermost
variable {outer stack : List Node} {node : Node} {offset : Datum} {cause d : Diagnostic}

theorem all_null (innermost : Innermost stack offset) (null : offset = .null) :
    ∀ n ∈ stack, n.offset = .null := by
  cases innermost with
  | placed _ isPlaced _ => exact absurd null isPlaced
  | unplaced all => exact all

theorem cons (innermost : Innermost stack offset) (isPlaced : offset ≠ .null) :
    Innermost (node :: stack) offset := by
  cases innermost with
  | @placed outer _ _ here inside => exact placed (node :: outer) here inside
  | unplaced => exact absurd rfl isPlaced

/-- The statement around a stack gives a diagnostic its offset if the stack has none. -/
theorem placedAt (innermost : Innermost stack cause.offset)
    (placed : Failure.placedAt node.offset (.diagnostic cause) = .diagnostic d) :
    cause.problem = d.problem ∧ Innermost (node :: stack) d.offset := by
  obtain ⟨p, own, context⟩ := cause
  dsimp only at innermost
  cases own with
  | null =>
    cases placed
    refine ⟨rfl, ?_⟩
    by_cases null : node.offset = .null
    · rw [null]
      exact .unplaced (List.forall_mem_cons.mpr ⟨null, innermost.all_null rfl⟩)
    · exact .placed [] null (innermost.all_null rfl)
  | _ =>
    cases placed
    exact ⟨rfl, innermost.cons nofun⟩

theorem last (innermost : Innermost (outer ++ [node]) offset) (isPlaced : node.offset ≠ .null) :
    offset = node.offset := by
  generalize whole : outer ++ [node] = stack at innermost
  cases innermost with
  | @placed before after other _ inside =>
    rcases List.eq_nil_or_concat after with rfl | ⟨front, back, rfl⟩
    · obtain ⟨-, same⟩ := List.append_inj' whole rfl
      cases same
      rfl
    · rw [List.concat_eq_append, ← List.cons_append, ← List.append_assoc] at whole
      obtain ⟨-, same⟩ := List.append_inj' whole rfl
      cases same
      exact absurd (inside node (by simp)) isPlaced
  | unplaced all =>
    exact absurd (all node (whole ▸ List.mem_append_right _ List.mem_cons_self)) isPlaced

end Innermost

section Runs
variable {verbosity limit : Nat} {functions : Table Definition} {body stack other : List Node}
  {node : Node} {s : Scope} {p p' : Problem} {d : Diagnostic}

theorem execute_declares (verbosity limit : Nat) : Declares (execute verbosity limit) := by
  intro name value s d failed
  cases limit with
  | zero => cases failed
  | succ limit =>
    obtain ⟨cause, failed, -⟩ := executeWith_diagnosed failed
    exact runBinding_not_diagnosed failed

/-- A statement that fails with a diagnostic has a stack on which its problem arose, and the
diagnostic has the innermost offset of it. -/
theorem execute_raises (failed : (execute verbosity limit node s).failure = some (.diagnostic d)) :
    ∃ stack, Raises verbosity limit node s stack d.problem ∧ Innermost stack d.offset := by
  induction limit generalizing node s d with
  | zero => cases failed
  | succ limit ih =>
    obtain ⟨cause, failed, placed⟩ := executeWith_diagnosed failed
    rcases perform_diagnosed (execute_declares verbosity limit) failed with
      ⟨p, poses, rfl⟩ | ⟨inner, t, enters, inside⟩
    · have none : Innermost [] .null := .unplaced (List.forall_mem_nil _)
      obtain ⟨same, innermost⟩ := none.placedAt placed
      exact ⟨[node], same ▸ .here poses, innermost⟩
    · obtain ⟨stack, raises, innermost⟩ := ih inside
      obtain ⟨same, innermost⟩ := innermost.placedAt placed
      exact ⟨node :: stack, same ▸ .inside enters raises, innermost⟩

namespace Raises

theorem failed (raises : Raises verbosity limit node s stack p) :
    (execute verbosity limit node s).failure ≠ none := by
  induction raises with
  | here poses => exact executeWith_failed poses.failed
  | inside enters _ ih => exact executeWith_failed (enters.failed ih)

/-- There is one stack at most on which a problem arises. -/
theorem unique (first : Raises verbosity limit node s stack p)
    (second : Raises verbosity limit node s other p') : other = stack ∧ p' = p := by
  induction first generalizing other with
  | here poses =>
    cases second with
    | here poses' => exact ⟨rfl, poses'.unique poses⟩
    | inside enters _ => exact (poses.not_enters (fun _ => rfl) enters).elim
  | inside enters raises ih =>
    cases second with
    | here poses => exact (poses.not_enters (fun _ => rfl) enters).elim
    | inside enters' raises' =>
      obtain ⟨rfl, rfl⟩ := enters.unique enters' raises.failed raises'.failed
      obtain ⟨rfl, same⟩ := ih raises'
      exact ⟨rfl, same⟩

theorem subset {tree : List Node} (raises : Raises verbosity limit node s stack p)
    (own : node.nodes ⊆ tree) (within : s.Within tree) : stack ⊆ tree := by
  induction raises with
  | here poses => exact List.cons_subset.mpr ⟨own (self_mem_nodes _), List.nil_subset _⟩
  | inside enters _ ih =>
    refine List.cons_subset.mpr ⟨own (self_mem_nodes _), ih (enters.subset own within) ?_⟩
    exact enters.keeps (fun _ holds => holds) (fun _ _ kept holds => kept.within holds) within

/-- The problem is one of the last statement of the stack. All functions are global, so that
this statement comes to no other one and does not stand further out on the stack. -/
theorem last (raises : Raises verbosity limit node s stack p) (hosts : Hosts functions s) :
    ∃ outer raiser u, stack = outer ++ [raiser] ∧ Poses raiser u p ∧ Hosts functions u ∧
      raiser ∉ outer := by
  induction raises with
  | @here _ node s _ poses => exact ⟨[], node, s, rfl, poses, hosts, nofun⟩
  | @inside _ node _ s t _ _ enters _ ih =>
    have inside : Hosts functions t :=
      enters.keeps (fun _ around => around.child) (fun _ _ kept around => around.confined kept) hosts
    obtain ⟨outer, raiser, u, rfl, poses, there, absent⟩ := ih inside
    refine ⟨node :: outer, raiser, u, rfl, poses, there, ?_⟩
    intro member
    rcases List.mem_cons.mp member with rfl | member
    · exact poses.not_enters (fun k => (hosts.function? k).trans (there.function? k).symm) enters
    · exact absent member

end Raises

theorem RunRaises.unique (first : RunRaises verbosity limit functions body stack p)
    (second : RunRaises verbosity limit functions body other p') : other = stack ∧ p' = p := by
  obtain ⟨split, ends, raises⟩ := first
  obtain ⟨split', ends', raises'⟩ := second
  obtain ⟨rfl, rfl⟩ := runAll_failed_unique (split.symm.trans split') ends raises.failed ends'
    raises'.failed
  exact raises.unique raises'

theorem Poses.kind (poses : Poses node s p) : node.kind ∈ ["FunctionCall", "MathOp"] := by
  cases poses <;> simp [Node.kind]

/-- In a program that was read the statement in which a problem arises is a call or an
operator, and no other one on the stack has its offset. -/
theorem RunRaises.last {source : List Char} (accepted : parse source = .ok (.program body))
    (table : functionTable body = .ok functions)
    (raises : RunRaises verbosity limit functions body stack p) :
    ∃ outer raiser, stack = outer ++ [raiser] ∧ raiser.kind ∈ ["FunctionCall", "MathOp"] ∧
      raiser ∈ nodesIn body ∧ raiser.offset ≠ .null ∧ ∀ n ∈ outer, n.offset ≠ raiser.offset := by
  obtain @⟨before, after, first, s, split, ends, raises⟩ := raises
  have confined := runAll_confined (execute_confined verbosity limit) before (globalScope functions)
  rw [ends.2] at confined
  have member : first ∈ body := split ▸ List.mem_append_right _ List.mem_cons_self
  have inside := raises.subset (nodes_subset_nodesIn member)
    (confined.within (globalScope_within table))
  obtain ⟨outer, raiser, u, rfl, poses, -, absent⟩ :=
    raises.last (Hosts.confined confined (.global functions))
  obtain ⟨around, own⟩ := List.append_subset.mp inside
  have ascending := parse_ascending accepted
  have listed : raiser ∈ nodesIn body := own List.mem_cons_self
  obtain ⟨o, offset, -⟩ := ascending.mem listed
  refine ⟨outer, raiser, rfl, poses.kind, listed, by rw [offset]; nofun, ?_⟩
  intro n further same
  exact absent (ascending.eq_of_offset (around further) listed same ▸ further)

end Runs

/-- The innermost statement wins. A run that fails with a diagnostic has exactly one stack of
statements on which its problem arose, and the offset of the diagnostic is that of the
innermost of them that has one, or null if none has. For a program that was read this is the
call or operator that failed, which no statement around it shares its offset with. -/
theorem innermost_statement_wins {verbosity limit : Nat} {functions : Table Definition}
    {body : List Node} {d : Diagnostic}
    (failed : (runAll (execute verbosity limit) body (globalScope functions)).failure =
      some (.diagnostic d)) :
    ∃ stack, RunRaises verbosity limit functions body stack d.problem ∧
      (∀ other p, RunRaises verbosity limit functions body other p →
        other = stack ∧ p = d.problem) ∧
      Innermost stack d.offset ∧
      ∀ source, parse source = .ok (.program body) → functionTable body = .ok functions →
        ∃ outer raiser, stack = outer ++ [raiser] ∧ raiser.kind ∈ ["FunctionCall", "MathOp"] ∧
          raiser ∈ nodesIn body ∧ d.offset = raiser.offset ∧ ∀ n ∈ outer, n.offset ≠ d.offset := by
  obtain ⟨before, node, after, s, split, ends, fails, -⟩ := runAll_failure failed
  obtain ⟨stack, raises, innermost⟩ := execute_raises fails
  have runRaises : RunRaises verbosity limit functions body stack d.problem :=
    .statement split ends raises
  refine ⟨stack, runRaises, fun other p => runRaises.unique, innermost, ?_⟩
  intro source accepted table
  obtain ⟨outer, raiser, rfl, kind, listed, isPlaced, apart⟩ := runRaises.last accepted table
  have offset := innermost.last isPlaced
  exact ⟨outer, raiser, rfl, kind, listed, offset, offset ▸ apart⟩

/-- The problem of a failure, if it is a diagnostic. -/
def Failure.problem? : Failure → Option Problem
  | .diagnostic d => some d.problem
  | _ => none

/-- A call with one argument too many, in a loop in a function that is called in a branch. -/
def nestedFailure : List Char :=
  ("function f(n) \x7brepeat 2 \x7bcall g(n)\x7d\x7d\n" ++
    "function g() \x7b\x7d\nif yes \x7bcall f(yes)\x7d").toList

theorem innermost_statement_wins_nestedFailure :
    ∃ body functions stack d, parse nestedFailure = .ok (.program body) ∧
      (runAll (execute 0 9) body (globalScope functions)).failure = some (.diagnostic d) ∧
      d.problem = .arityMismatch "g" 0 1 ∧ RunRaises 0 9 functions body stack d.problem ∧
      Innermost stack d.offset ∧
      ∃ outer raiser, stack = outer ++ [raiser] ∧ raiser.kind ∈ ["FunctionCall", "MathOp"] ∧
        raiser ∈ nodesIn body ∧ d.offset = raiser.offset ∧ ∀ n ∈ outer, n.offset ≠ d.offset := by
  obtain ⟨body, accepted⟩ := parse_of_isOk (show (parse nestedFailure).isOk = true by decide +kernel)
  obtain ⟨_, functions, same, -, table, -, ran⟩ := runSource_accepted accepted 0 9
  cases same
  have fails : (runSource 0 9 nestedFailure).failure.bind Failure.problem? =
      some (.arityMismatch "g" 0 1) := by decide +kernel
  rw [Run.failure, ran] at fails
  obtain ⟨failure, failed, problem⟩ := Option.bind_eq_some_iff.mp fails
  cases failure with
  | diagnostic d =>
    obtain ⟨stack, raises, -, innermost, read⟩ := innermost_statement_wins failed
    exact ⟨body, functions, stack, d, accepted, failed, Option.some.inj problem, raises, innermost,
      read nestedFailure accepted table⟩
  | _ => cases problem

end Primer
