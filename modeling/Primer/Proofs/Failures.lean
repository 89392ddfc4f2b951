import Primer.Proofs.Limits
import Primer.Proofs.Rejections
import Primer.Proofs.Storage

/-! How reading and running a program may fail. Main statement: a run ends normally, too
deep, or with a documented diagnostic, unless it comes to a number beyond a limit. -/
namespace Primer

open Outcome

/-- The kinds of diagnostics that running a source may end with. -/
def documentedKinds : List Kind :=
  [.malformed, .unknownCommand, .undefinedFunction, .arityMismatch, .divisionByZero,
    .arithmeticOverflow]

/-- The faults of numbers that are beyond the limits of conversion. -/
def Fault.IsLimit : Fault → Prop
  | .literalTooLong digits => digitLimit < digits
  | .numberTooLong | .numberTooLarge => True
  | _ => False

/-- A failure that the contract of a run allows. -/
def Failure.Documented : Failure → Prop
  | .diagnostic d => d.problem.kind ∈ documentedKinds
  | .tooDeep => True
  | .fault _ => False

/-- A failure that the contract allows, or that of a number beyond a limit. -/
def Failure.Expected : Failure → Prop
  | .fault f => f.IsLimit
  | other => other.Documented

theorem readWhole_isLimit {s : List Char} {f : Fault} (failed : readWhole s = .error f) :
    f.IsLimit := by
  obtain ⟨tooLong, rfl⟩ := readWhole_error.mp failed
  exact tooLong.long

theorem parse_expected {source : List Char} {failure : Failure}
    (failed : parse source = .error failure) : failure.Expected := by
  cases failure with
  | tooDeep => exact trivial
  | fault f =>
    obtain ⟨s, _, long⟩ := parse_fault.mp failed
    exact readWhole_isLimit long
  | diagnostic d =>
    unfold parse at failed
    split at failed
    · cases failed
    · rename_i rejection rejected
      cases rejection with
      | problem p offset =>
        have proper := (readBody_proper source p offset rejected).1
        have among : readerKinds ⊆ documentedKinds := by decide
        cases failed
        exact among proper
      | fault => cases failed
      | exhausted => cases failed

theorem raise_documented {x : Binary64} {ns : List Int} {p : Problem}
    (failed : raise x ns = .error p) : p.kind ∈ documentedKinds := by
  induction ns generalizing x with
  | nil => cases failed
  | cons n ns ih =>
    simp only [raise] at failed
    split at failed
    · cases failed
      decide
    · rcases bind_eq_error.mp failed with large | ⟨y, _, failed⟩
      · unfold doubleOf at large
        split at large <;> cases large
        decide
      · split at failed
        · exact ih failed
        · cases failed
          decide

theorem value_documented {op : Operator} {first : Int} {rest : List Int} {p : Problem}
    (failed : op.value first rest = .error p) : p.kind ∈ documentedKinds := by
  cases op with
  | power =>
    rcases bind_eq_error.mp failed with large | ⟨x, _, failed⟩
    · unfold doubleOf at large
      split at large <;> cases large
      decide
    · rcases bind_eq_error.mp failed with raised | ⟨_, _, done⟩
      · exact raise_documented raised
      · cases done
  | _ => cases failed

theorem apply_documented {op : Operator} {operands : List Int} {p : Problem}
    (failed : op.apply operands = .error p) : p.kind ∈ documentedKinds := by
  unfold Operator.apply at failed
  split at failed
  · cases failed
    exact List.mem_of_elem_eq_true rfl
  · split at failed
    · cases failed
    · split at failed
      · rename_i zero
        split at failed
        · cases failed
          cases op <;> cases zero <;> decide
        · exact value_documented failed
      · exact value_documented failed

namespace Outcome

def Expected (o : Outcome) : Prop := ∀ failure ∈ o.failure, failure.Expected

theorem expected_fail {failure : Failure} (expected : failure.Expected) (s : Scope) :
    (fail s failure).Expected := by
  intro other failed
  cases failed
  exact expected

theorem expected_traced {verbosity level : Nat} {text : Unit → Except Fault String} {s : Scope}
    (limit : ∀ f, text () = .error f → f.IsLimit) : (traced verbosity level text s).Expected := by
  unfold traced
  split
  · cases written : text () with
    | ok shown => nofun
    | error f => exact expected_fail (show (Failure.fault f).Expected from limit f written) s
  · nofun

theorem expected_stamp {o : Outcome} (expected : o.Expected) (offset : Datum) :
    (o.stamp offset).Expected := by
  unfold stamp
  split
  · rename_i p context failed
    intro failure same
    cases same
    exact expected (.diagnostic ⟨p, .null, context⟩) failed
  · exact expected

end Outcome

theorem resolve_isLimit {s : Scope} {operand : List Char} {f : Fault}
    (failed : s.resolve operand = .error f) : f.IsLimit := by
  obtain ⟨⟨_, tooLong⟩, rfl⟩ := resolve_error.mp failed
  exact tooLong.long

theorem rank_isLimit {d : Datum} {f : Fault} (failed : d.rank = .error f) : f.IsLimit := by
  obtain ⟨_, rfl⟩ := rank_error.mp failed
  exact trivial

theorem holds_isLimit {s : Scope} {condition : List Char} {f : Fault}
    (failed : s.holds condition = .error f) : f.IsLimit := by
  rcases bind_eq_error.mp failed with left | ⟨a, _, failed⟩
  · exact resolve_isLimit left
  · split at failed
    · cases failed
    · rename_i comparison right _
      rcases bind_eq_error.mp failed with unresolved | ⟨b, _, failed⟩
      · exact resolve_isLimit unresolved
      · cases comparison with
        | equal | different => cases failed
        | _ =>
          rcases bind_eq_error.mp failed with first | ⟨_, _, failed⟩
          · exact rank_isLimit first
          · rcases bind_eq_error.mp failed with second | ⟨_, _, done⟩
            · exact rank_isLimit second
            · cases done

theorem Node.Runnable.fails_expected {node : Node} {s : Scope} (runnable : node.Runnable)
    (valid : s.Valid) {failure : Failure} (fails : node.FailsWith s failure) : failure.Expected := by
  cases runnable with
  | declaration =>
    cases fails with
    | declared unnamed => cases unnamed
  | statement formed =>
    cases fails with
    | notText other =>
      cases formed with
      | say => exact absurd rfl (other _)
    | @message m _ _ _ failed =>
      obtain ⟨shown, interpolated⟩ := Scope.interpolate_ok valid m
      cases failed.symm.trans interpolated
    | operation failed => exact apply_documented failed
    | result _ failed =>
      cases formed with
      | math =>
        obtain ⟨_, rfl⟩ := resultLine_error.mp failed
        exact trivial
    | callee failed =>
      cases formed with
      | call => rcases failed with (unnamed | unshown) <;> contradiction
    | undefined | arity => exact List.mem_of_elem_eq_true rfl
    | argument inside failed =>
      cases formed with
      | call =>
        obtain ⟨arg, -, rfl⟩ := List.mem_map.mp inside
        exact resolve_isLimit failed
    | condition failed =>
      cases formed with
      | branch | branchElse => exact holds_isLimit failed
    | assigned unnamed =>
      cases formed with
      | assign => cases unnamed
    | declared | missing | program => cases formed

theorem executeText_isLimit {node : Node} (runnable : node.Runnable) {f : Fault}
    (failed : executeText node = .error f) : f.IsLimit := by
  cases runnable with
  | declaration => cases failed
  | statement formed =>
    obtain ⟨_, rfl⟩ := (executeText_error formed).mp failed
    exact trivial

theorem expected_invariant (verbosity : Nat) :
    Invariant verbosity Node.Runnable Node.Runnable Scope.Valid
      (fun _ o => o.scope.Valid ∧ o.Expected) where
  runs := (valid_invariant verbosity).runs
  child := Scope.valid_child
  done valid := ⟨valid, nofun⟩
  fail {_ _ t _} runnable valid fails within :=
    ⟨within, expected_fail (runnable.fails_expected valid fails) t⟩
  say _ valid := ⟨valid, nofun⟩
  set runnable valid binds := ⟨(valid_invariant verbosity).set runnable valid binds, nofun⟩
  executes runnable valid := ⟨(valid_invariant verbosity).executes runnable valid,
    expected_traced fun _ failed => executeText_isLimit runnable failed⟩
  traces runnable valid traces within := by
    refine ⟨(valid_invariant verbosity).traces runnable valid traces within, ?_⟩
    obtain ⟨shown, rfl⟩ := runnable.traces_ok valid traces
    exact expected_traced nofun
  ends kept _ := kept.1
  andThen {_ o _} first rest := by
    unfold andThen
    cases ended : o.failure with
    | some f => exact first
    | none => exact rest ended
  leave _ kept := ⟨Scope.valid_leave kept.1, kept.2⟩
  stamp offset kept := ⟨(valid_invariant verbosity).stamp (s := .root) offset kept.1,
    expected_stamp kept.2 offset⟩

theorem runAll_expected (verbosity limit : Nat) {nodes : List Node}
    (formed : ∀ n ∈ nodes, n.WellFormed) {s : Scope} (valid : s.Valid) :
    (runAll (execute verbosity limit) nodes s).Expected := by
  have inv := expected_invariant verbosity
  have cut (s : Scope) (valid : s.Valid) : (fail s .tooDeep).scope.Valid ∧ (fail s .tooDeep).Expected :=
    ⟨valid, expected_fail (show Failure.tooDeep.Expected from trivial) s⟩
  exact (runAll_invariant inv (execute_invariant inv cut limit) valid
    fun n member => .statement (formed n member)).2

/-- A run comes to a number beyond a limit: reading the source comes to a literal that is
too long, or executing its statements reaches one that overruns. -/
inductive SourceOverruns (verbosity limit : Nat) (source : List Char) : Prop
  | literal {s : List Char} : SourceConverts source s → IsTooLong s →
      SourceOverruns verbosity limit source
  | statement {body before after : List Node} {functions : Table Definition} {node final : Node}
      {s t : Scope} {last : Nat} : parse source = .ok (.program body) →
      functionTable body = .ok functions → body = before ++ node :: after →
      (runAll (execute verbosity limit) before (globalScope functions)).Ends s →
      Reaches verbosity limit node s last final t → Overruns verbosity last final t →
      SourceOverruns verbosity limit source

theorem runSource_refused {source : List Char} {failure : Failure}
    (rejected : parse source = .error failure) (verbosity limit : Nat) :
    (runSource verbosity limit source).outcome = .fail .root failure := by
  simp only [runSource, rejected, Run.refused]

/-- A source that can be read is run in a valid scope with its functions. -/
theorem runSource_accepted {source : List Char} {program : Node}
    (accepted : parse source = .ok program) (verbosity limit : Nat) :
    ∃ body functions, program = .program body ∧ (∀ n ∈ body, n.WellFormed) ∧
      functionTable body = .ok functions ∧ (globalScope functions).Valid ∧
      (runSource verbosity limit source).outcome =
        runAll (execute verbosity limit) body (globalScope functions) := by
  obtain ⟨body, rfl, formed⟩ := parse_wellFormed accepted
  obtain ⟨functions, table⟩ := wellFormed_hasTable formed
  refine ⟨body, functions, rfl, formed, table, globalScope_valid formed table, ?_⟩
  simp only [runSource, accepted, runNode, table]

theorem runSource_faulted {verbosity limit : Nat} {source : List Char} :
    (runSource verbosity limit source).outcome.Faulted ↔ SourceOverruns verbosity limit source := by
  cases accepted : parse source with
  | error failure =>
    rw [runSource_refused accepted]
    constructor
    · rintro ⟨f, same⟩
      cases same
      obtain ⟨s, converts, failed⟩ := parse_fault.mp accepted
      exact .literal converts (readWhole_error.mp failed).1
    · intro overruns
      cases overruns with
      | literal converts tooLong =>
        have failed := parse_fault.mpr ⟨_, converts, readWhole_error.mpr ⟨tooLong, rfl⟩⟩
        cases accepted.symm.trans failed
        exact ⟨_, rfl⟩
      | statement parsed =>
        rw [accepted] at parsed
        cases parsed
  | ok program =>
    obtain ⟨body, functions, rfl, formed, table, valid, ran⟩ :=
      runSource_accepted accepted verbosity limit
    have reached : ∀ {before node after s}, body = before ++ node :: after →
        (runAll (execute verbosity limit) before (globalScope functions)).Ends s →
        node.WellFormed ∧ s.Valid := by
      intro before node after s split ends
      rw [split, List.forall_mem_append] at formed
      have kept := runAll_valid (execute_valid verbosity limit) valid formed.1
      exact ⟨formed.2 node List.mem_cons_self, ends.2 ▸ kept⟩
    rw [ran, runAll_faulted]
    constructor
    · rintro ⟨before, node, after, s, split, ends, faulted⟩
      obtain ⟨nodeFormed, scopeValid⟩ := reached split ends
      obtain ⟨last, final, t, reaches, overruns⟩ :=
        (execute_faulted_iff nodeFormed scopeValid).mp faulted
      exact .statement accepted table split ends reaches overruns
    · intro overruns
      cases overruns with
      | literal converts tooLong =>
        have failed := parse_fault.mpr ⟨_, converts, readWhole_error.mpr ⟨tooLong, rfl⟩⟩
        rw [accepted] at failed
        cases failed
      | statement parsed tabled split ends reaches overruns =>
        cases accepted.symm.trans parsed
        cases table.symm.trans tabled
        obtain ⟨nodeFormed, scopeValid⟩ := reached split ends
        have faulted := (execute_faulted_iff nodeFormed scopeValid).mpr ⟨_, _, _, reaches, overruns⟩
        exact ⟨_, _, _, _, split, ends, faulted⟩

theorem runSource_expected (verbosity limit : Nat) (source : List Char) :
    (runSource verbosity limit source).outcome.Expected := by
  cases accepted : parse source with
  | error failure =>
    rw [runSource_refused accepted]
    intro other same
    cases same
    exact parse_expected accepted
  | ok program =>
    obtain ⟨body, functions, rfl, formed, table, valid, ran⟩ :=
      runSource_accepted accepted verbosity limit
    rw [ran]
    exact runAll_expected verbosity limit formed valid

theorem documented_iff {o : Outcome} (expected : o.Expected) :
    (∀ failure ∈ o.failure, failure.Documented) ↔ ¬ o.Faulted := by
  constructor
  · rintro documented ⟨f, failed⟩
    exact documented _ failed
  · intro quiet failure failed
    cases failure with
    | fault f => exact absurd ⟨f, failed⟩ quiet
    | diagnostic d => exact expected _ failed
    | tooDeep => exact trivial

/-- A run ends normally, too deep or with a documented diagnostic exactly when it comes to
no number beyond a limit; any other failure is the fault of such a number. -/
theorem runSource_contract (verbosity limit : Nat) (source : List Char) :
    (∀ failure ∈ (runSource verbosity limit source).failure, failure.Expected) ∧
    ((∀ failure ∈ (runSource verbosity limit source).failure, failure.Documented) ↔
      ¬ SourceOverruns verbosity limit source) := by
  have expected := runSource_expected verbosity limit source
  refine ⟨expected, ?_⟩
  rw [← runSource_faulted]
  exact documented_iff expected

theorem test_textOf (s : Scope) (condition : List Char) :
    s.test (textOf condition) = s.holds condition := by
  simp [Scope.test, textOf]

/-- A program that only tests a condition ends with the fault of the condition. -/
theorem runSource_condition {source condition : List Char} {yes no : Node} {o : Datum} {f : Fault}
    (accepted : parse source = .ok (.program [.branch (textOf condition) yes no o]))
    (table : functionTable [.branch (textOf condition) yes no o] = .ok [])
    (failed : (globalScope []).holds condition = .error f) (limit : Nat) :
    (runSource 0 (limit + 1) source).failure = some (.fault f) := by
  have quiet : ∀ text, traced 0 1 text (globalScope []) = done (globalScope []) := fun _ => rfl
  have performed : perform 0 (execute 0 limit) (.branch (textOf condition) yes no o)
      (globalScope []) = fail (globalScope []) (.fault f) := by
    simp only [perform, test_textOf, failed, attempt]
  simp only [Run.failure, runSource, accepted, runNode, table, runAll, execute, executeWith, quiet,
    andThen, done, performed]
  rfl

def largeCondition : List Char := "1 < 1".toList ++ List.replicate 309 '0'

/-- A comparison with a number that is too large to be ordered. -/
def largeComparison : List Char := "if ".toList ++ largeCondition ++ " \x7b\n\x7d".toList

set_option maxRecDepth 10000 in
theorem parse_largeComparison : parse largeComparison = .ok (.program
    [.branch (textOf largeCondition) (.block [] (atOffset 318)) .missing (atOffset 0)]) := by rfl

theorem runSource_largeComparison :
    (runSource 0 nestingLimit largeComparison).failure = some (.fault .numberTooLarge) ∧
      ¬ (Failure.fault .numberTooLarge).Documented := by
  have failed : (globalScope []).holds largeCondition = .error .numberTooLarge := by decide +kernel
  exact ⟨runSource_condition parse_largeComparison rfl failed 999, id⟩

end Primer
