import Primer.Proofs.Failures
import Primer.Proofs.Tree

/-! What cannot happen while a program runs that was read from a source. Its tree is well
formed at every depth, so no statement is of a wrong kind, no field holds a wrong sort of
data, every operator finds its operands and no division has a zero divisor. -/
namespace Primer

open Node

namespace Operator

/-- One step of a fold in which a zero divisor is a fault. -/
def checkedStep : Operator → Int → Int → Except Fault Int
  | divide, a, b => do return (← Primer.divide a b).1
  | modulo, a, b => do return (← Primer.divide a b).2
  | op, a, b => .ok (op.step a b)

/-- There is a first operand, and a fold that checks its divisors gives the same number
as one that does not. Powers are not folded on integers. -/
def Computes (op : Operator) (operands : List Int) : Prop :=
  ∃ first rest, operands = first :: rest ∧
    (op ≠ power → ∀ n, op.apply operands = .ok n → rest.foldlM op.checkedStep first = .ok n)

theorem checkedStep_ok {op : Operator} {b : Int} (safe : op.zeroProblem? ≠ none → b ≠ 0) (a : Int) :
    op.checkedStep a b = .ok (op.step a b) := by
  cases op with
  | divide | modulo =>
    have nonzero : b ≠ 0 := safe nofun
    simp only [checkedStep, Primer.divide, if_neg nonzero]
    rfl
  | _ => rfl

theorem foldlM_checkedStep {op : Operator} {rest : List Int}
    (safe : op.zeroProblem? ≠ none → 0 ∉ rest) (first : Int) :
    rest.foldlM op.checkedStep first = .ok (rest.foldl op.step first) := by
  induction rest generalizing first with
  | nil => rfl
  | cons n rest ih =>
    have here : op.zeroProblem? ≠ none → n ≠ 0 := by
      intro divides zero
      exact safe divides (zero ▸ List.mem_cons_self)
    have later : op.zeroProblem? ≠ none → 0 ∉ rest := by
      intro divides zero
      exact safe divides (List.mem_cons_of_mem n zero)
    rw [List.foldlM_cons, checkedStep_ok here, ok_bind, ih later]
    rfl

/-- An operator that gives a number was given no zero divisor. -/
theorem apply_divisors {op : Operator} {first n : Int} {rest : List Int}
    (applied : op.apply (first :: rest) = .ok n) : op.zeroProblem? ≠ none → 0 ∉ rest := by
  unfold apply at applied
  split at applied
  · cases applied
  · intro divides
    cases problem : op.zeroProblem? with
    | none => exact absurd problem divides
    | some p =>
      simp only [problem] at applied
      split at applied
      · cases applied
      · rename_i none
        simpa using none

theorem apply_fold {op : Operator} (folds : op ≠ power) {first n : Int} {rest : List Int}
    (applied : op.apply (first :: rest) = .ok n) : rest.foldl op.step first = n := by
  have value : op.value first rest = .ok (rest.foldl op.step first) := by
    cases op with
    | power => exact absurd rfl folds
    | _ => rfl
  unfold apply at applied
  simp only [value] at applied
  split at applied
  · cases applied
  · split at applied
    · split at applied
      · cases applied
      · cases applied
        rfl
    · cases applied
      rfl

theorem computes_of_nonempty (op : Operator) {operands : List Int} (nonempty : operands ≠ []) :
    op.Computes operands := by
  obtain ⟨first, rest, rfl⟩ := List.exists_cons_of_ne_nil nonempty
  refine ⟨first, rest, rfl, fun folds n applied => ?_⟩
  rw [foldlM_checkedStep (apply_divisors applied), apply_fold folds applied]

end Operator

/-- A failure of the evaluator itself: a statement, field or operand of a kind that it
has no case for, a zero divisor in a division, or an operation that it does not know. -/
def Failure.GoesWrong : Failure → Prop
  | .fault f => f.family ∈ [.statement, .operation, .sort, .field, .divisor]
  | .diagnostic d => d.problem.kind = .unknownOperation
  | .tooDeep => False

theorem Fault.IsLimit.family {f : Fault} (limit : f.IsLimit) :
    f.family = .value ∨ f.family = .range := by
  cases f with
  | literalTooLong | numberTooLong => exact .inl rfl
  | numberTooLarge => exact .inr rfl
  | _ => cases limit

theorem Failure.Expected.not_goesWrong {failure : Failure} (expected : failure.Expected) :
    ¬ failure.GoesWrong := by
  cases failure with
  | tooDeep => exact id
  | fault f =>
    intro wrong
    rcases Fault.IsLimit.family expected with value | range
    · simp [GoesWrong, value] at wrong
    · simp [GoesWrong, range] at wrong
  | diagnostic d =>
    intro wrong
    have documented : d.problem.kind ∈ documentedKinds := expected
    have unknown : d.problem.kind = .unknownOperation := wrong
    rw [unknown] at documented
    revert documented
    decide

theorem math_computes {node : Node} (formed : node.WellFormed) {op : Operator} {ns : List Int}
    {keyword o : Datum} (same : node = .math op ns keyword o) : op.Computes ns := by
  cases formed with
  | math nonempty _ =>
    cases same
    exact op.computes_of_nonempty nonempty
  | _ => cases same

/-- The nodes of a program that was read are well formed, its operators compute, and no run
of it goes wrong, whatever is traced and however deep it may nest. -/
theorem parsed_never_wrong {source : List Char} {program : Node}
    (accepted : parse source = .ok program) :
    ∃ body, program = .program body ∧ (∀ n ∈ nodesIn body, n.WellFormed) ∧
      (∀ op ns keyword o, .math op ns keyword o ∈ nodesIn body → op.Computes ns) ∧
      ∀ verbosity limit, ∀ failure ∈ (runNode verbosity limit program).failure,
        ¬ failure.GoesWrong := by
  obtain ⟨body, rfl, formed⟩ := parse_wellFormed accepted
  have everywhere := nodesIn_wellFormed formed
  refine ⟨body, rfl, everywhere, ?_, ?_⟩
  · intro op ns keyword o inside
    exact math_computes (everywhere _ inside) rfl
  · intro verbosity limit failure failed
    have expected := runSource_expected verbosity limit source failure
    simp only [runSource, accepted] at expected
    exact (expected failed).not_goesWrong

/-- A division by zero inside a function that is called from an else-branch. -/
def dividingSample : List Char :=
  "function f(n) \x7b\n divide(8, 0)\n\x7d\nif 1 > 2 \x7b\n\x7d else \x7b\n call f(3)\n\x7d".toList

theorem parsed_never_wrong_dividingSample : ∃ program, parse dividingSample = .ok program ∧
    ∃ body, program = .program body ∧ (∀ n ∈ nodesIn body, n.WellFormed) ∧
      (∀ op ns keyword o, .math op ns keyword o ∈ nodesIn body → op.Computes ns) ∧
      ∀ verbosity limit, ∀ failure ∈ (runNode verbosity limit program).failure,
        ¬ failure.GoesWrong := by
  obtain ⟨body, accepted⟩ := parse_of_isOk (show (parse dividingSample).isOk = true by decide +kernel)
  exact ⟨_, accepted, parsed_never_wrong accepted⟩

end Primer
