import Primer.Proofs.Globals

/-! Repetition. A block and a call leave the scope as they found it, so that what comes
after them starts where they started. Main statement: a loop over a block says the lines of
the block once for each round, or fails in its first round as the block fails. -/
namespace Primer

/-- A failure as it leaves a statement with an offset: a diagnostic that has no offset
takes this one. -/
def Failure.placedAt (offset : Datum) : Failure → Failure
  | .diagnostic ⟨p, .null, context⟩ => .diagnostic ⟨p, offset, context⟩
  | other => other

namespace Outcome

/-- What was said, line by line. -/
def lines (o : Outcome) : List String :=
  o.events.filterMap fun | .line text => some text | .trace .. => none

theorem failure_stamp (o : Outcome) (offset : Datum) :
    (o.stamp offset).failure = o.failure.map (·.placedAt offset) := by
  obtain ⟨events, scope, failure⟩ := o
  rcases failure with _ | ⟨p, own, context⟩ | f | _
  · rfl
  · cases own <;> rfl
  · rfl
  · rfl

@[simp] theorem lines_stamp (o : Outcome) (offset : Datum) : (o.stamp offset).lines = o.lines := by
  unfold stamp
  split <;> rfl

theorem lines_traced (verbosity level : Nat) (text : Unit → Except Fault String) (s : Scope) :
    (traced verbosity level text s).lines = [] := by
  unfold traced
  split
  · cases text () <;> rfl
  · rfl

theorem andThen_of_failed {o : Outcome} {f : Failure} (failed : o.failure = some f)
    (next : Scope → Outcome) : o.andThen next = o := by
  rw [andThen, failed]

theorem lines_andThen {o : Outcome} {s : Scope} (ends : o.Ends s) (next : Scope → Outcome) :
    (o.andThen next).lines = o.lines ++ (next s).lines := by
  obtain ⟨ended, rfl⟩ := ends
  rw [andThen, ended]
  exact List.filterMap_append ..

end Outcome

open Outcome

section Rounds
variable {run : Scope → Outcome} {s : Scope}

/-- Every round starts in the scope in which the first one started. -/
theorem runTimes_ends (ends : (run s).Ends s) (n : Nat) :
    (runTimes run n s).Ends s ∧
      (runTimes run n s).lines = (List.replicate n (run s).lines).flatten := by
  induction n with
  | zero => exact ⟨⟨rfl, rfl⟩, rfl⟩
  | succ n ih =>
    obtain ⟨later, said⟩ := ih
    constructor
    · refine ends_andThen.mpr ⟨ends.1, ?_⟩
      rw [ends.2]
      exact later
    · rw [runTimes, lines_andThen ends, said, List.replicate_succ, List.flatten_cons]

theorem runTimes_of_failed {f : Failure} (failed : (run s).failure = some f) {n : Nat}
    (some : 0 < n) : runTimes run n s = run s := by
  cases n with
  | zero => cases some
  | succ n => exact andThen_of_failed failed _

theorem runAll_replicate (run : Executor) (node : Node) (n : Nat) (s : Scope) :
    runAll run (List.replicate n node) s = runTimes (run node) n s := by
  induction n generalizing s with
  | zero => rfl
  | succ n ih => rw [List.replicate_succ, runAll, funext ih, runTimes]

end Rounds

section Statements
variable {verbosity : Nat} {node : Node} (limit : Nat) (s : Scope)

theorem execute_opensScope (opens : node.opensScope = true) :
    (execute verbosity limit node s).scope = s := by
  cases limit with
  | zero => rfl
  | succ limit =>
    rw [execute, executeWith, scope_stamp]
    exact andThen_scope (scope_traced ..)
      (perform_opensScope verbosity (execute_confined verbosity limit) opens s)

/-- A statement that can be traced says what it performs, and its failure is given its
offset. -/
theorem execute_traceable (traceable : verbosity = 0 ∨ ∃ shown, executeText node = .ok shown) :
    (execute verbosity (limit + 1) node s).lines =
        (perform verbosity (execute verbosity limit) node s).lines ∧
      (execute verbosity (limit + 1) node s).failure =
        (perform verbosity (execute verbosity limit) node s).failure.map (·.placedAt node.offset) ∧
      (execute verbosity (limit + 1) node s).scope =
        (perform verbosity (execute verbosity limit) node s).scope := by
  have trace := executeText_ends traceable s
  rw [execute, executeWith, lines_stamp, failure_stamp, scope_stamp, lines_andThen trace,
    lines_traced, List.nil_append, andThen, trace.1, trace.2]
  exact ⟨rfl, rfl, rfl⟩

theorem execute_untraced {f : Fault} (unwritten : executeText node = .error f)
    (shown : 1 ≤ verbosity) : (execute verbosity (limit + 1) node s).failure = some (.fault f) := by
  simp [execute, executeWith, traced, shown, unwritten, attempt, fail, andThen, stamp]

end Statements

/-- A loop keeps no state. Where its body, a block, ends normally once, the loop says the
lines of the block once for each round and leaves the scope unchanged. Where the body fails,
the loop says its lines and fails with its failure, which the offset of the loop only
completes. A call keeps no state either. -/
theorem repetition_stateless (verbosity limit : Nat) (s : Scope) :
    (∀ (count : Int) (statements : List Node) (o offset : Datum),
      (verbosity = 0 ∨
        ∃ shown, executeText (.loop count (.block statements o) offset) = .ok shown) →
      let once := execute verbosity limit (.block statements o) s
      let loop := execute verbosity (limit + 1) (.loop count (.block statements o) offset) s
      (once.failure = none →
        loop.Ends s ∧ loop.lines = (List.replicate count.toNat once.lines).flatten) ∧
      ∀ failure, once.failure = some failure → 1 ≤ count →
        loop.failure = some (failure.placedAt offset) ∧ loop.lines = once.lines ∧ loop.scope = s) ∧
    ∀ (name : Datum) (args : List Datum) (o : Datum),
      let once := execute verbosity limit (.call name args o) s
      let twice := runAll (execute verbosity limit) [.call name args o, .call name args o] s
      once.failure = none → twice.Ends s ∧ twice.lines = once.lines ++ once.lines := by
  constructor
  · intro count statements o offset traceable once loop
    obtain ⟨lines, failure, scope⟩ := execute_traceable limit s traceable
    have kept : once.scope = s := execute_opensScope limit s rfl
    constructor
    · intro ended
      obtain ⟨ends, said⟩ := runTimes_ends ⟨ended, kept⟩ count.toNat
      refine ⟨⟨failure.trans ?_, scope.trans ends.2⟩, lines.trans said⟩
      rw [perform, ends.1, Option.map_none]
    · intro cause failed positive
      have first : runTimes (execute verbosity limit (.block statements o)) count.toNat s = once :=
        runTimes_of_failed failed (by omega)
      rw [perform, first] at lines failure scope
      refine ⟨failure.trans ?_, lines, scope.trans kept⟩
      rw [failed, Option.map_some, Node.offset]
  · intro name args o once twice ended
    have ends : once.Ends s := ⟨ended, execute_opensScope limit s rfl⟩
    obtain ⟨later, said⟩ := runTimes_ends ends 2
    rw [← runAll_replicate] at later said
    exact ⟨later, said.trans (by simp [List.replicate, once])⟩

/-- A block that divides by zero, without offsets as in a tree that was built by hand. -/
def dividingBlock : Node := .block [.math .divide [1, 0] .null .null] .null

/-- A loop fails with an offset of its own where its body has none, and it fails where its
own offset cannot be traced. -/
theorem loop_fails_otherwise :
    (execute 0 2 dividingBlock .root).failure = some (.diagnostic ⟨.divisionByZero, .null, none⟩) ∧
    (execute 0 3 (.loop 1 dividingBlock (.int 5)) .root).failure =
      some (.diagnostic ⟨.divisionByZero, .int 5, none⟩) ∧
    (execute 1 1 (.block [] .null) .root).failure = none ∧
    (execute 1 2 (.loop 1 (.block [] .null) (.int (tenTo digitLimit))) .root).failure =
      some (.fault .numberTooLong) := by
  refine ⟨rfl, rfl, rfl, ?_⟩
  have tooLong : writeWhole (tenTo digitLimit) = .error .numberTooLong :=
    writeWhole_error.mpr ⟨(Int.natAbs_natCast _).ge, rfl⟩
  have untraced : executeText (.loop 1 (.block [] .null) (.int (tenTo digitLimit))) =
      .error .numberTooLong := by
    simp only [executeText, Node.offset, Datum.display, Datum.inspect, tooLong, error_bind]
  exact execute_untraced 1 .root untraced (Nat.le_refl 1)

/-- A function that greets by name. -/
def greeting : Definition :=
  ⟨.text "f", [.text "n"], .block [.say (.text "hi $n") .null] .null, .null⟩

/-- Three rounds of a block that binds a name, two of one that fails, and a call made twice. -/
theorem repetition_stateless_greeting :
    let s := (globalScope [(.text "f", greeting)]).set (.text "n") (.text "all")
    let block := Node.block [.assign (.text "x") (.text "one") .null, .say (.text "$n $x") .null] .null
    let call := Node.call (.text "f") [.text "n"] .null
    (execute 0 9 (.loop 3 block (.int 4)) s).lines = ["all one", "all one", "all one"] ∧
    (execute 0 9 (.loop 3 block (.int 4)) s).Ends s ∧
    (execute 0 9 (.loop 2 dividingBlock (.int 4)) s).failure =
      some (.diagnostic ⟨.divisionByZero, .int 4, none⟩) ∧
    (runAll (execute 0 8) [call, call] s).lines = ["hi all", "hi all"] := by
  intro s block call
  obtain ⟨loops, calls⟩ := repetition_stateless 0 8 s
  obtain ⟨rounds, said⟩ := (loops 3 _ _ (.int 4) (.inl rfl)).1
    (show (execute 0 8 block s).failure = none by rfl)
  have fails := (loops 2 _ _ (.int 4) (.inl rfl)).2 _
    (show (execute 0 8 dividingBlock s).failure = _ by rfl) (by decide)
  have twice := calls (.text "f") [.text "n"] .null (by rfl)
  refine ⟨said.trans ?_, rounds, fails.1, twice.2.trans ?_⟩
  · decide +kernel
  · decide +kernel

end Primer
