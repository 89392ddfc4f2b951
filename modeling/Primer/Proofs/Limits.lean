import Primer.Proofs.Literals
import Primer.Proofs.Reach

/-! Numbers beyond the limits of conversion. A run ends with a fault exactly when it comes
to a literal, a result or a comparison that overruns one of the limits. -/
namespace Primer

open Outcome

/-- An operand is a literal that is too long, and no name that is bound. -/
def Scope.TooLong (s : Scope) (operand : List Char) : Prop :=
  s.get (.text (String.ofList (dropDollar operand))) = .null ∧ IsTooLong (dropDollar operand)

/-- An operand stands for a number that is too large to be ordered. -/
def Scope.TooLarge (s : Scope) (operand : List Char) : Prop :=
  ∃ n, s.resolve operand = .ok (.int n) ∧ roundingLimit ≤ n.natAbs

def Comparison.isOrdering : Comparison → Bool
  | equal | different => false
  | atMost | atLeast | less | greater => true

/-- A condition that has no truth in a scope. -/
def Condition.Overruns (c : Condition) (s : Scope) : Prop :=
  s.TooLong c.left ∨ ∃ comparison right, c.right = some (comparison, right) ∧
    (s.TooLong right ∨ comparison.isOrdering = true ∧ (s.TooLarge c.left ∨ s.TooLarge right))

/-- A statement whose own computation overruns a limit, given an executor of the
statements nested in it. -/
inductive Exceeds (run : Executor) : Node → Scope → Prop
  | result {op : Operator} {operands : List Int} {keyword o : Datum} {s : Scope} {n : Int} :
      op.apply operands = .ok n → tenTo digitLimit ≤ n.natAbs →
      Exceeds run (.math op operands keyword o) s
  | condition {c : String} {yes no : Node} {o : Datum} {s : Scope} :
      (Condition.parse c.toList).Overruns s → Exceeds run (.branch (.text c) yes no o) s
  | argument {name o : Datum} {args : List Datum} {s : Scope} {key : Key} {d : Definition}
      {before after : List (Datum × Datum)} {param : Datum} {arg : String} :
      name.key = .ok key → s.function? key = some d → d.params.length = args.length →
      d.params.zip args = before ++ (param, .text arg) :: after →
      (bindParams run s before s.child).failure = none → s.TooLong arg.toList →
      Exceeds run (.call name args o) s

/-- A statement that is traced with an offset too long to be written, or that exceeds a
limit itself. -/
def Overruns (verbosity limit : Nat) (node : Node) (s : Scope) : Prop :=
  (1 ≤ verbosity ∧ ∃ n, node.offset = .int n ∧ tenTo digitLimit ≤ n.natAbs) ∨
    Exceeds (execute verbosity limit) node s

theorem literal_error_iff {s : List Char} {f : Fault} :
    literal s = .error f ↔ IsTooLong s ∧ f = .literalTooLong (splitSign s).2.length := by
  rw [literal_error, readWhole_error]

theorem resolve_error {s : Scope} {operand : List Char} {f : Fault} :
    s.resolve operand = .error f ↔
      s.TooLong operand ∧ f = .literalTooLong (splitSign (dropDollar operand)).2.length := by
  simp only [Scope.resolve, Scope.TooLong]
  split
  · rename_i unbound
    simp [literal_error_iff, unbound]
  · rename_i bound
    constructor
    · intro failed
      cases failed
    · rintro ⟨⟨unbound, _⟩, _⟩
      exact absurd unbound bound

theorem rank_error {d : Datum} {f : Fault} :
    d.rank = .error f ↔ (∃ n, d = .int n ∧ roundingLimit ≤ n.natAbs) ∧ f = .numberTooLarge := by
  cases d with
  | int n =>
    by_cases small : n.natAbs < roundingLimit
    · simp [Datum.rank, small]
    · simp [Datum.rank, small, Nat.le_of_not_lt small, eq_comm]
  | _ => simp [Datum.rank]

theorem exists_bind_error {x : Except ε α} {f : α → Except ε β} :
    (∃ e, x >>= f = .error e) ↔ (∃ e, x = .error e) ∨ ∃ a, x = .ok a ∧ ∃ e, f a = .error e := by
  cases x <;> simp

theorem exists_rank_error {d : Datum} :
    (∃ f, d.rank = .error f) ↔ ∃ n, d = .int n ∧ roundingLimit ≤ n.natAbs := by
  simp [rank_error]

theorem apply_of_ordering {c : Comparison} (ordering : c.isOrdering = true) (left right : Datum) :
    c.apply left right = do
      let a ← left.rank
      let b ← right.rank
      return c.holds a b := by
  cases c with
  | equal | different => cases ordering
  | _ => rfl

theorem apply_error {c : Comparison} {left right : Datum} :
    (∃ f, c.apply left right = .error f) ↔ c.isOrdering = true ∧
      ((∃ f, left.rank = .error f) ∨ ∃ f, right.rank = .error f) := by
  cases ordering : c.isOrdering with
  | false =>
    cases c with
    | equal | different => simp [Comparison.apply]
    | _ => cases ordering
  | true =>
    rw [apply_of_ordering ordering]
    simp only [exists_bind_error, true_and]
    cases left.rank <;> simp

theorem exists_resolve_error {s : Scope} {operand : List Char} :
    (∃ f, s.resolve operand = .error f) ↔ s.TooLong operand := by
  simp [resolve_error]

theorem not_tooLong {s : Scope} {operand : List Char} {value : Datum}
    (resolved : s.resolve operand = .ok value) : ¬ s.TooLong operand := by
  rw [← exists_resolve_error, resolved]
  simp

theorem eval_error {c : Condition} {s : Scope} : (∃ f, c.eval s = .error f) ↔ c.Overruns s := by
  obtain ⟨left, right⟩ := c
  cases l : s.resolve left with
  | error f => exact iff_of_true ⟨f, by simp [Condition.eval, l]⟩ (.inl (resolve_error.mp l).1)
  | ok a =>
    cases right with
    | none => simp [Condition.eval, Condition.Overruns, l, not_tooLong l]
    | some found =>
      obtain ⟨comparison, operand⟩ := found
      cases r : s.resolve operand with
      | error g => simp [Condition.eval, Condition.Overruns, l, r, (resolve_error.mp r).1]
      | ok b =>
        simp [Condition.eval, Condition.Overruns, l, r, not_tooLong l, not_tooLong r, apply_error,
          exists_rank_error, Scope.TooLarge]

theorem writeWhole_error {n : Int} {f : Fault} :
    writeWhole n = .error f ↔ tenTo digitLimit ≤ n.natAbs ∧ f = .numberTooLong := by
  unfold writeWhole
  split
  · rename_i small
    simp [Nat.not_le.mpr small]
  · rename_i large
    simp [Nat.le_of_not_lt large, eq_comm]

theorem resultLine_error {op : Operator} {keyword : List Char} {n : Int} {f : Fault} :
    resultLine op (textOf keyword) n = .error f ↔
      tenTo digitLimit ≤ n.natAbs ∧ f = .numberTooLong := by
  rw [← writeWhole_error, resultLine]
  have shown : (textOf keyword).display = .ok (String.ofList keyword) := rfl
  split <;> simp [bind_eq_error, shown]

theorem runBinding_ends (verbosity : Nat) (verb : String) (name : List Char) {value : Datum}
    (isValue : value.IsValue) (s : Scope) :
    (runBinding verbosity verb (textOf name) value s).failure = none := by
  obtain ⟨shown, text⟩ := bindingText_ok verb name isValue
  simp only [runBinding, textOf, Datum.key, attempt, traced]
  rw [← textOf, text]
  split <;> rfl

theorem not_faulted_of_ends {o : Outcome} (ended : o.failure = none) : ¬ o.Faulted := by
  simp [Faulted, ended]

theorem declare_not_faulted (verbosity limit : Nat) (name : List Char) {value : Datum}
    (isValue : value.IsValue) (s : Scope) :
    ¬ (execute verbosity limit (.declare (textOf name) value .null) s).Faulted := by
  cases limit with
  | zero => simp [execute, Faulted, fail]
  | succ limit =>
    have traced : ∃ shown, executeText (.declare (textOf name) value .null) = .ok shown := ⟨_, rfl⟩
    obtain ⟨shown, text⟩ := traced
    rw [execute, executeWith, faulted_stamp, faulted_andThen, faulted_traced]
    simp [text, perform, not_faulted_of_ends (runBinding_ends verbosity "declare" name isValue _)]

theorem key_textOf (name : List Char) : (textOf name).key = .ok (.text (String.ofList name)) := rfl

theorem failNaming_not_faulted (name : List Char) (s : Scope) (problem : String → Problem) :
    ¬ (failNaming (textOf name) s problem).Faulted :=
  not_faulted_ofProblem s _

theorem argumentTexts_ok (index : Nat) (args : List (List Char)) :
    ∃ texts, argumentTexts index (args.map textOf) = .ok texts := by
  induction args generalizing index with
  | nil => exact ⟨[], rfl⟩
  | cons arg args ih =>
    obtain ⟨texts, rest⟩ := ih (index + 1)
    have step : argumentTexts index ((arg :: args).map textOf) = do
        return String.ofList arg :: (← argumentTexts (index + 1) (args.map textOf)) := rfl
    exact ⟨_, by rw [step, rest]; rfl⟩

theorem callText_ok (name : List Char) (args : List (List Char)) :
    ∃ shown, callText (textOf name) (args.map textOf) = .ok shown := by
  obtain ⟨texts, rest⟩ := argumentTexts_ok 0 args
  have step : callText (textOf name) (args.map textOf) = do
      return "call " ++ String.ofList name ++ "(" ++
        ", ".intercalate (← argumentTexts 0 (args.map textOf)) ++ ")" := rfl
  exact ⟨_, by rw [step, rest]; rfl⟩

theorem testText_ok (condition : List Char) (truth : Bool) :
    ∃ shown, testText (textOf condition) truth = .ok shown :=
  ⟨_, by simp only [testText, textOf, Datum.inspect, ok_bind]; rfl⟩

theorem Node.Runnable.traces_ok {node : Node} {s : Scope} (runnable : node.Runnable) (valid : s.Valid)
    {level : Nat} {text : Except Fault String} (traces : node.Traces s level text) :
    ∃ shown, text = .ok shown := by
  cases runnable with
  | declaration isValue =>
    cases traces with
    | declare => exact bindingText_ok "declare" _ isValue
  | statement formed =>
    cases traces with
    | call =>
      cases formed with
      | call => exact callText_ok _ _
    | test =>
      cases formed with
      | branch | branchElse => exact testText_ok _ _
    | declare => cases formed
    | assign =>
      cases formed with
      | assign _ isValue => exact bindingText_ok "set" _ (Scope.assigned_isValue valid isValue)

/-- A statement exceeds a limit, or enters a statement that ends with a fault. -/
def FaultsIn (run : Executor) (node : Node) (s : Scope) : Prop :=
  Exceeds run node s ∨ ∃ inner t, Enters run node s inner t ∧ (run inner t).Faulted

section Faults
variable {verbosity : Nat} {run : Executor} {s : Scope}

theorem math_faulted {op : Operator} {ns : List Int} {keyword : List Char} {o : Datum} :
    (perform verbosity run (.math op ns (textOf keyword) o) s).Faulted ↔
      FaultsIn run (.math op ns (textOf keyword) o) s := by
  have none : ¬ ∃ inner t, Enters run (.math op ns (textOf keyword) o) s inner t ∧
      (run inner t).Faulted := by
    rintro ⟨_, _, ⟨⟩, _⟩
  refine Iff.trans ?_ (or_iff_left none).symm
  simp only [perform]
  cases applied : op.apply ns with
  | error p =>
    refine iff_of_false (not_faulted_ofProblem s p) ?_
    rintro ⟨result, _⟩
    rw [applied] at result
    cases result
  | ok n =>
    simp only [faulted_attempt, resultLine_error]
    constructor
    · rintro (⟨f, large, _⟩ | ⟨text, _, f, said⟩)
      · exact .result applied large
      · cases said
    · intro exceeds
      cases exceeds with
      | result result large =>
        cases applied.symm.trans result
        exact .inl ⟨_, large, rfl⟩

theorem block_faulted {nodes : List Node} {o : Datum} :
    (perform verbosity run (.block nodes o) s).Faulted ↔ FaultsIn run (.block nodes o) s := by
  simp only [perform, faulted_leave, runAll_faulted]
  constructor
  · rintro ⟨before, node, after, t, rfl, ends, faulted⟩
    exact .inr ⟨node, t, .statement ends, faulted⟩
  · rintro (exceeds | ⟨inner, t, enters, faulted⟩)
    · cases exceeds
    · cases enters with
      | statement ends => exact ⟨_, inner, _, t, rfl, ends, faulted⟩

theorem loop_faulted {count : Int} {body : Node} {o : Datum} :
    (perform verbosity run (.loop count body o) s).Faulted ↔ FaultsIn run (.loop count body o) s := by
  simp only [perform, runTimes_faulted]
  constructor
  · rintro ⟨rounds, t, few, ends, faulted⟩
    exact .inr ⟨body, t, .round few ends, faulted⟩
  · rintro (exceeds | ⟨inner, t, enters, faulted⟩)
    · cases exceeds
    · cases enters with
      | round few ends => exact ⟨_, t, few, ends, faulted⟩

theorem branch_faulted {condition : List Char} {yes no : Node} {o : Datum} :
    (perform verbosity run (.branch (textOf condition) yes no o) s).Faulted ↔
      FaultsIn run (.branch (textOf condition) yes no o) s := by
  cases tested : s.test (textOf condition) with
  | error f =>
    refine iff_of_true ?_ ?_
    · simp [perform, tested, attempt, Faulted, fail]
    · have holds : s.holds (String.ofList condition).toList = .error f := tested
      exact .inl (.condition (eval_error.mp ⟨f, holds⟩))
  | ok truth =>
    have short : ¬ (Condition.parse (String.ofList condition).toList).Overruns s := by
      rw [← eval_error]
      rintro ⟨f, failed⟩
      have holds : s.holds (String.ofList condition).toList = .ok truth := tested
      rw [Scope.holds, failed] at holds
      cases holds
    obtain ⟨shown, text⟩ := testText_ok condition truth
    simp only [perform, tested, attempt]
    rw [faulted_andThen_of_ends (traced_ok_ends verbosity 3 text s)]
    constructor
    · intro faulted
      cases truth with
      | true => exact .inr ⟨yes, s, .yes tested, faulted⟩
      | false =>
        cases no with
        | missing => exact absurd faulted (not_faulted_done s)
        | _ => exact .inr ⟨_, s, .no tested (by simp), faulted⟩
    · rintro (exceeds | ⟨inner, t, enters, faulted⟩)
      · cases exceeds with
        | condition overruns => exact absurd overruns short
      · cases enters with
        | yes holds =>
          cases tested.symm.trans holds
          exact faulted
        | no fails present =>
          cases tested.symm.trans fails
          cases no with
          | missing => exact absurd rfl present
          | _ => exact faulted

/-- A call fails with a fault only in a function that is found and takes its arguments. -/
theorem runCall_faulted {name : List Char} {args : List (List Char)} :
    (runCall verbosity run (textOf name) (args.map textOf) s).Faulted ↔
      ∃ d, s.function? (.text (String.ofList name)) = some d ∧
        d.params.length = (args.map textOf).length ∧ (enter run d (args.map textOf) s).Faulted := by
  simp only [runCall, key_textOf, attempt]
  cases s.function? (.text (String.ofList name)) with
  | none => simp [callFound, failNaming_not_faulted]
  | some d =>
    obtain ⟨shown, text⟩ := callText_ok name args
    simp only [callFound]
    split
    · rename_i arity
      rw [faulted_andThen_of_ends (traced_ok_ends verbosity 2 text s)]
      simp [arity]
    · rename_i other
      have other : d.params.length ≠ args.length := by simpa using other
      simp [other, failNaming_not_faulted]

/-- The parameters of a function are bound up to the first argument that is too long. -/
theorem enter_faulted {limit : Nat} (valid : s.Valid) {d : Definition} {params : List (List Char)}
    (named : d.params = params.map textOf) {args : List (List Char)} :
    (enter (execute verbosity limit) d (args.map textOf) s).Faulted ↔
      (∃ before param arg after, d.params.zip (args.map textOf) = before ++ (param, .text arg) :: after ∧
        (bindParams (execute verbosity limit) s before s.child).failure = none ∧
        s.TooLong arg.toList) ∨
      ∃ t, (bindParams (execute verbosity limit) s (d.params.zip (args.map textOf)) s.child).Ends t ∧
        (execute verbosity limit d.body t).Faulted := by
  have texts : ∀ pair ∈ d.params.zip (args.map textOf), (∃ param, pair.1 = textOf param) ∧
      ∃ arg, pair.2 = textOf arg := by
    intro pair inside
    obtain ⟨first, second⟩ := List.of_mem_zip inside
    rw [named] at first
    obtain ⟨param, _, isParam⟩ := List.mem_map.mp first
    obtain ⟨arg, _, isArg⟩ := List.mem_map.mp second
    exact ⟨⟨param, isParam.symm⟩, arg, isArg.symm⟩
  -- declaring a parameter gives no fault, so that only its argument can
  have quiet : ∀ pair ∈ d.params.zip (args.map textOf), ∀ value t, s.argument pair.2 = .ok value →
      ¬ (execute verbosity limit (.declare pair.1 value .null) t).Faulted := by
    intro pair inside value t resolved
    obtain ⟨⟨param, isParam⟩, arg, isArg⟩ := texts pair inside
    rw [isArg] at resolved
    rw [isParam]
    exact declare_not_faulted verbosity limit param (Scope.resolve_isValue valid resolved) t
  rw [enter, faulted_leave, faulted_andThen, bindParams_faulted quiet]
  refine or_congr ?_ ?_
  · constructor
    · rintro ⟨before, param, arg, after, split, bound, f, unresolved⟩
      obtain ⟨_, a, isArg⟩ := texts (param, arg) (by rw [split]; simp)
      cases isArg
      exact ⟨before, param, _, after, split, bound, (resolve_error.mp unresolved).1⟩
    · rintro ⟨before, param, arg, after, split, bound, long⟩
      exact ⟨before, param, .text arg, after, split, bound, exists_resolve_error.mpr long⟩
  · constructor
    · rintro ⟨ended, faulted⟩
      exact ⟨_, ⟨ended, rfl⟩, faulted⟩
    · rintro ⟨t, ⟨ended, rfl⟩, faulted⟩
      exact ⟨ended, faulted⟩

theorem call_faulted {limit : Nat} (valid : s.Valid) {name : List Char} {args : List (List Char)}
    {o : Datum} :
    (perform verbosity (execute verbosity limit) (.call (textOf name) (args.map textOf) o) s).Faulted ↔
      FaultsIn (execute verbosity limit) (.call (textOf name) (args.map textOf) o) s := by
  simp only [perform, runCall_faulted]
  constructor
  · rintro ⟨d, found, arity, faulted⟩
    obtain ⟨params, named⟩ := definition_params (Scope.function?_wellFormed valid found)
    rcases (enter_faulted valid named).mp faulted with
      ⟨before, param, arg, after, split, bound, long⟩ | ⟨t, ends, faulted⟩
    · exact .inl (.argument (key_textOf name) found arity split bound long)
    · exact .inr ⟨d.body, t, .body (key_textOf name) found arity ends, faulted⟩
  · rintro (exceeds | ⟨inner, t, enters, faulted⟩)
    · cases exceeds with
      | @argument _ _ _ _ _ d before after param arg key found arity split bound long =>
        cases (key_textOf name).symm.trans key
        obtain ⟨params, named⟩ := definition_params (Scope.function?_wellFormed valid found)
        exact ⟨d, found, arity,
          (enter_faulted valid named).mpr (.inl ⟨before, param, arg, after, split, bound, long⟩)⟩
    · cases enters with
      | @body _ _ _ _ _ _ d key found arity ends =>
        cases (key_textOf name).symm.trans key
        obtain ⟨params, named⟩ := definition_params (Scope.function?_wellFormed valid found)
        exact ⟨d, found, arity, (enter_faulted valid named).mpr (.inr ⟨t, ends, faulted⟩)⟩

theorem perform_faulted {limit : Nat} (valid : s.Valid) {node : Node} (formed : node.WellFormed) :
    (perform verbosity (execute verbosity limit) node s).Faulted ↔
      FaultsIn (execute verbosity limit) node s := by
  cases formed with
  | @say m o _ =>
    obtain ⟨shown, interpolated⟩ := Scope.interpolate_ok valid (String.ofList m)
    refine iff_of_false (not_faulted_of_ends ?_) ?_
    · simp only [perform, textOf, interpolated]
      rfl
    · rintro (none | ⟨_, _, none, _⟩) <;> cases none
  | math => exact math_faulted
  | block => exact block_faulted
  | loop => exact loop_faulted
  | define =>
    refine iff_of_false (not_faulted_done s) ?_
    rintro (none | ⟨_, _, none, _⟩) <;> cases none
  | call => exact call_faulted valid
  | branch => exact branch_faulted
  | branchElse => exact branch_faulted
  | assign _ isValue =>
    refine iff_of_false (not_faulted_of_ends ?_) ?_
    · exact runBinding_ends verbosity "set" _ (Scope.assigned_isValue valid isValue) s
    · rintro (none | ⟨_, _, none, _⟩) <;> cases none

theorem executeText_error {node : Node} (formed : node.WellFormed) {f : Fault} :
    executeText node = .error f ↔
      (∃ n, node.offset = .int n ∧ tenTo digitLimit ≤ n.natAbs) ∧ f = .numberTooLong := by
  have place : ∃ o, node.offset = atOffset o := by cases formed <;> exact ⟨_, rfl⟩
  obtain ⟨o, offset⟩ := place
  have shown : node.offset.display = writeWhole o := by
    rw [offset]
    exact Datum.display_int o
  rw [executeText, bind_eq_error, shown]
  simp [writeWhole_error, offset, atOffset]

theorem execute_faulted {limit : Nat} (valid : s.Valid) {node : Node} (formed : node.WellFormed) :
    (execute verbosity (limit + 1) node s).Faulted ↔ Overruns verbosity limit node s ∨
      ∃ inner t, Enters (execute verbosity limit) node s inner t ∧
        (execute verbosity limit inner t).Faulted := by
  rw [execute, executeWith, faulted_stamp, Overruns, or_assoc]
  have trace : (traced verbosity 1 (fun _ => executeText node) s).Faulted ↔
      1 ≤ verbosity ∧ ∃ n, node.offset = .int n ∧ tenTo digitLimit ≤ n.natAbs := by
    simp [faulted_traced, executeText_error formed]
  by_cases quiet : (traced verbosity 1 (fun _ => executeText node) s).Faulted
  · exact iff_of_true (faulted_andThen.mpr (.inl quiet)) (.inl (trace.mp quiet))
  · rw [faulted_andThen_of_ends (traced_ends quiet), perform_faulted valid formed]
    exact (or_iff_right fun long => quiet (trace.mpr long)).symm

end Faults

/-- An execution fails with a fault exactly when it reaches a statement that overruns a
limit. -/
theorem execute_faulted_iff {verbosity limit : Nat} {node : Node} {s : Scope}
    (formed : node.WellFormed) (valid : s.Valid) :
    (execute verbosity limit node s).Faulted ↔ ∃ last final t,
      Reaches verbosity limit node s last final t ∧ Overruns verbosity last final t := by
  -- what is entered runs under a smaller limit, and from a valid scope again
  induction limit generalizing node s with
  | zero =>
    refine iff_of_false ?_ ?_
    · simp [execute, Faulted, fail]
    · rintro ⟨_, _, _, ⟨⟩, _⟩
  | succ limit ih =>
    have inside : ∀ {inner t}, Enters (execute verbosity limit) node s inner t →
        inner.WellFormed ∧ t.Valid :=
      fun enters => enters.valid (execute_valid verbosity limit) formed valid
    rw [execute_faulted valid formed]
    constructor
    · rintro (overruns | ⟨inner, t, enters, faulted⟩)
      · exact ⟨limit, node, s, .refl, overruns⟩
      · obtain ⟨innerFormed, innerValid⟩ := inside enters
        obtain ⟨last, final, u, reaches, overruns⟩ := (ih innerFormed innerValid).mp faulted
        exact ⟨last, final, u, .step enters reaches, overruns⟩
    · rintro ⟨last, final, u, reaches, overruns⟩
      cases reaches with
      | refl => exact .inl overruns
      | step enters reaches =>
        obtain ⟨innerFormed, innerValid⟩ := inside enters
        exact .inr ⟨_, _, enters, (ih innerFormed innerValid).mpr ⟨last, final, u, reaches, overruns⟩⟩

end Primer
