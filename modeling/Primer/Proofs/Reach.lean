import Primer.Proofs.Values

/-! Which statements an execution comes to, and in which scopes. A statement enters
another one directly if it is next in a block, the body of a loop or of a function, or
a branch; it reaches what is entered from there on. -/
namespace Primer

namespace Outcome

/-- Ended in a scope without a failure. -/
def Ends (o : Outcome) (s : Scope) : Prop := o.failure = none ∧ o.scope = s

/-- Ended with a failure that is no diagnostic. -/
def Faulted (o : Outcome) : Prop := ∃ f, o.failure = some (.fault f)

theorem ends_andThen {o : Outcome} {next : Scope → Outcome} {s : Scope} :
    (o.andThen next).Ends s ↔ o.failure = none ∧ (next o.scope).Ends s := by
  unfold andThen Ends
  cases ended : o.failure <;> simp [ended]

theorem faulted_andThen {o : Outcome} {next : Scope → Outcome} :
    (o.andThen next).Faulted ↔ o.Faulted ∨ o.failure = none ∧ (next o.scope).Faulted := by
  simp only [Faulted, failure_andThen, exists_or, exists_and_left]

theorem faulted_attempt {r : Except Fault α} {s : Scope} {next : α → Outcome} :
    (attempt r s next).Faulted ↔ (∃ f, r = .error f) ∨ ∃ a, r = .ok a ∧ (next a).Faulted := by
  cases r with
  | ok a => simp [attempt]
  | error f => simp [attempt, Faulted, fail]

theorem faulted_traced {verbosity level : Nat} {text : Unit → Except Fault String} {s : Scope} :
    (traced verbosity level text s).Faulted ↔ level ≤ verbosity ∧ ∃ f, text () = .error f := by
  unfold traced
  split
  · rename_i shown
    rw [faulted_attempt]
    simp [shown, Faulted]
  · rename_i hidden
    simp [hidden, Faulted, done]

/-- A trace can only fail with a fault. -/
theorem traced_ends {verbosity level : Nat} {text : Unit → Except Fault String} {s : Scope}
    (quiet : ¬ (traced verbosity level text s).Faulted) : (traced verbosity level text s).Ends s := by
  refine ⟨?_, scope_traced ..⟩
  unfold traced at quiet ⊢
  split
  · rename_i shown
    cases ok : text () with
    | ok t => rfl
    | error f =>
      rw [if_pos shown, ok] at quiet
      exact absurd ⟨f, rfl⟩ quiet
  · rfl

theorem traced_ok_ends (verbosity level : Nat) {text : Unit → Except Fault String} {shown : String}
    (ok : text () = .ok shown) (s : Scope) : (traced verbosity level text s).Ends s := by
  apply traced_ends
  rw [faulted_traced, ok]
  simp

/-- The trace of a statement ends if it is not shown or can be written. -/
theorem executeText_ends {verbosity : Nat} {node : Node}
    (traceable : verbosity = 0 ∨ ∃ shown, executeText node = .ok shown) (s : Scope) :
    (traced verbosity 1 (fun _ => executeText node) s).Ends s := by
  rcases traceable with rfl | ⟨shown, text⟩
  · exact ⟨rfl, rfl⟩
  · exact traced_ok_ends verbosity 1 text s

theorem faulted_andThen_of_ends {o : Outcome} {next : Scope → Outcome} {s : Scope}
    (ends : o.Ends s) : (o.andThen next).Faulted ↔ (next s).Faulted := by
  rw [faulted_andThen, ends.1, ends.2]
  simp [Faulted, ends.1]

theorem faulted_stamp {o : Outcome} {offset : Datum} : (o.stamp offset).Faulted ↔ o.Faulted := by
  unfold stamp Faulted
  split
  · rename_i diagnostic
    simp [diagnostic]
  · rfl

theorem faulted_leave {o : Outcome} : o.leave.Faulted ↔ o.Faulted := Iff.rfl

theorem not_faulted_done (s : Scope) : ¬ (done s).Faulted := by simp [Faulted, done]

theorem not_faulted_ofProblem (s : Scope) (p : Problem) : ¬ (fail s (.ofProblem p)).Faulted := by
  simp [Faulted, fail, Failure.ofProblem]

end Outcome

open Outcome

/-- A list of statements fails in one of them, after those before it have ended. -/
theorem runAll_faulted {run : Executor} {nodes : List Node} {s : Scope} :
    (runAll run nodes s).Faulted ↔ ∃ before node after t, nodes = before ++ node :: after ∧
      (runAll run before s).Ends t ∧ (run node t).Faulted := by
  induction nodes generalizing s with
  | nil => simp [runAll, not_faulted_done]
  | cons first nodes ih =>
    rw [runAll, faulted_andThen, ih]
    constructor
    · rintro (here | ⟨ended, before, node, after, t, rfl, ends, faulted⟩)
      · exact ⟨[], first, nodes, s, rfl, ⟨rfl, rfl⟩, here⟩
      · exact ⟨first :: before, node, after, t, rfl, ends_andThen.mpr ⟨ended, ends⟩, faulted⟩
    · rintro ⟨before, node, after, t, split, ends, faulted⟩
      cases before with
      | nil =>
        cases split
        cases ends.2
        exact .inl faulted
      | cons _ before =>
        cases split
        obtain ⟨ended, ends⟩ := ends_andThen.mp ends
        exact .inr ⟨ended, before, node, after, t, rfl, ends, faulted⟩

theorem runTimes_faulted {run : Scope → Outcome} {n : Nat} {s : Scope} :
    (runTimes run n s).Faulted ↔
      ∃ done t, done < n ∧ (runTimes run done s).Ends t ∧ (run t).Faulted := by
  induction n generalizing s with
  | zero => simp [runTimes, not_faulted_done]
  | succ n ih =>
    rw [runTimes, faulted_andThen, ih]
    constructor
    · rintro (here | ⟨ended, k, t, few, ends, faulted⟩)
      · exact ⟨0, s, Nat.succ_pos n, ⟨rfl, rfl⟩, here⟩
      · exact ⟨k + 1, t, Nat.succ_lt_succ few, ends_andThen.mpr ⟨ended, ends⟩, faulted⟩
    · rintro ⟨k, t, few, ends, faulted⟩
      cases k with
      | zero =>
        cases ends.2
        exact .inl faulted
      | succ k =>
        obtain ⟨ended, ends⟩ := ends_andThen.mp ends
        exact .inr ⟨ended, k, t, Nat.lt_of_succ_lt_succ few, ends, faulted⟩

/-- Parameters are bound up to the first argument that has no value. -/
theorem bindParams_faulted {run : Executor} {caller : Scope} {pairs : List (Datum × Datum)}
    {s : Scope} (quiet : ∀ pair ∈ pairs, ∀ value t, caller.argument pair.2 = .ok value →
      ¬ (run (.declare pair.1 value .null) t).Faulted) :
    (bindParams run caller pairs s).Faulted ↔ ∃ before param arg after,
      pairs = before ++ (param, arg) :: after ∧ (bindParams run caller before s).failure = none ∧
      ∃ f, caller.argument arg = .error f := by
  induction pairs generalizing s with
  | nil => simp [bindParams, not_faulted_done]
  | cons pair pairs ih =>
    obtain ⟨first, others⟩ := List.forall_mem_cons.mp quiet
    simp only [bindParams, faulted_attempt, faulted_andThen]
    constructor
    · rintro (⟨f, unresolved⟩ | ⟨value, resolved, faulted | ⟨ended, later⟩⟩)
      · exact ⟨[], pair.1, pair.2, pairs, rfl, rfl, f, unresolved⟩
      · exact absurd faulted (first value s resolved)
      · obtain ⟨before, param, arg, after, rfl, bound, unresolved⟩ := (ih others).mp later
        refine ⟨pair :: before, param, arg, after, rfl, ?_, unresolved⟩
        simp only [bindParams, resolved, attempt, andThen, ended]
        exact bound
    · rintro ⟨before, param, arg, after, split, bound, f, unresolved⟩
      cases before with
      | nil =>
        cases split
        exact .inl ⟨f, unresolved⟩
      | cons _ before =>
        cases split
        cases resolved : caller.argument pair.2 with
        | error g => exact .inl ⟨g, rfl⟩
        | ok value =>
          simp only [bindParams, resolved, attempt, andThen] at bound
          split at bound
          · rename_i failed
            rw [failed] at bound
            cases bound
          · rename_i ended
            exact .inr ⟨value, rfl, .inr ⟨ended,
              (ih others).mpr ⟨before, param, arg, after, rfl, bound, f, unresolved⟩⟩⟩

/-- A statement comes directly to another one in a scope. -/
inductive Enters (run : Executor) : Node → Scope → Node → Scope → Prop
  | statement {before after : List Node} {node : Node} {o : Datum} {s t : Scope} :
      (runAll run before s.child).Ends t →
      Enters run (.block (before ++ node :: after) o) s node t
  | round {count : Int} {body : Node} {o : Datum} {s t : Scope} {rounds : Nat} :
      rounds < count.toNat → (runTimes (run body) rounds s).Ends t →
      Enters run (.loop count body o) s body t
  | body {name o : Datum} {args : List Datum} {s t : Scope} {key : Key} {d : Definition} :
      name.key = .ok key → s.function? key = some d → d.params.length = args.length →
      (bindParams run s (d.params.zip args) s.child).Ends t →
      Enters run (.call name args o) s d.body t
  | yes {condition o : Datum} {yes no : Node} {s : Scope} : s.test condition = .ok true →
      Enters run (.branch condition yes no o) s yes s
  | no {condition o : Datum} {yes no : Node} {s : Scope} : s.test condition = .ok false →
      no ≠ .missing → Enters run (.branch condition yes no o) s no s

/-- A statement that is executed under a limit comes to a statement whose nested
statements are executed under another limit. -/
inductive Reaches (verbosity : Nat) : Nat → Node → Scope → Nat → Node → Scope → Prop
  | refl {limit : Nat} {node : Node} {s : Scope} :
      Reaches verbosity (limit + 1) node s limit node s
  | step {limit last : Nat} {node inner final : Node} {s t u : Scope} :
      Enters (execute verbosity limit) node s inner t →
      Reaches verbosity limit inner t last final u →
      Reaches verbosity (limit + 1) node s last final u

theorem Enters.valid {run : Executor} (nested : ValidRun run) {node inner : Node} {s t : Scope}
    (enters : Enters run node s inner t) (formed : node.WellFormed) (valid : s.Valid) :
    inner.WellFormed ∧ t.Valid := by
  cases enters with
  | @statement before after _ _ _ _ ends =>
    cases formed with
    | block all =>
      obtain ⟨earlier, later⟩ := List.forall_mem_append.mp all
      have kept := runAll_valid nested (Scope.valid_child valid) earlier
      exact ⟨later inner List.mem_cons_self, ends.2 ▸ kept⟩
  | @round _ _ _ _ _ rounds _ ends =>
    cases formed with
    | loop _ _ body => exact ⟨body, ends.2 ▸ runTimes_valid nested valid body rounds⟩
  | @body _ _ args _ _ _ d _ found _ ends =>
    have formed := Scope.function?_wellFormed valid found
    have kept := bindParams_valid nested (Scope.valid_child valid) valid (zip_params_named formed args)
    exact ⟨definition_body formed, ends.2 ▸ kept⟩
  | yes _ =>
    cases formed with
    | branch _ _ yes => exact ⟨yes, valid⟩
    | branchElse _ _ yes => exact ⟨yes, valid⟩
  | no _ present =>
    cases formed with
    | branch => exact absurd rfl present
    | branchElse _ _ _ _ no => exact ⟨no, valid⟩

end Primer
