import Primer.Proofs.Flat
import Primer.Proofs.Iteration

/-! The parameters of a call. They are bound one after another in the scope of the body, but
each takes the value that its argument has in the scope of the call. Main statement: the body
runs in a new scope in which all parameters hold their values as if bound at once, so that
parameters of different names can be bound in any order. -/
namespace Primer

open Outcome

mutual

/-- A datum that cannot be shown holds a number that is too long. -/
theorem inspect_error : (d : Datum) → ∀ f, d.inspect = .error f → f = .numberTooLong
  | .int n => fun f failed => by
    rw [Datum.inspect] at failed
    exact (writeWhole_error.mp failed).2
  | .list items => fun f failed => by
    rw [Datum.inspect] at failed
    rcases bind_eq_error.mp failed with inside | ⟨_, _, done⟩
    · exact inspectAll_error items f inside
    · cases done
  | .record fields => fun f failed => by
    rw [Datum.inspect] at failed
    rcases bind_eq_error.mp failed with inside | ⟨_, _, done⟩
    · exact inspectFields_error fields f inside
    · cases done
  | .null | .bool _ | .float _ | .text _ => fun f failed => by
    rw [Datum.inspect] at failed
    cases failed

theorem inspectAll_error : (ds : List Datum) → ∀ f, Datum.inspectAll ds = .error f →
    f = .numberTooLong
  | [] => fun f failed => by
    rw [Datum.inspectAll] at failed
    cases failed
  | d :: ds => fun f failed => by
    rw [Datum.inspectAll] at failed
    rcases bind_eq_error.mp failed with first | ⟨_, _, failed⟩
    · exact inspect_error d f first
    · rcases bind_eq_error.mp failed with later | ⟨_, _, done⟩
      · exact inspectAll_error ds f later
      · cases done

theorem inspectFields_error : (fields : List (String × Datum)) → ∀ f,
    Datum.inspectFields fields = .error f → f = .numberTooLong
  | [] => fun f failed => by
    rw [Datum.inspectFields] at failed
    cases failed
  | (_, d) :: fields => fun f failed => by
    rw [Datum.inspectFields] at failed
    rcases bind_eq_error.mp failed with first | ⟨_, _, failed⟩
    · exact inspect_error d f first
    · rcases bind_eq_error.mp failed with later | ⟨_, _, done⟩
      · exact inspectFields_error fields f later
      · cases done

end

theorem display_error {d : Datum} {f : Fault} (failed : d.display = .error f) : f = .numberTooLong := by
  cases d with
  | text s => cases failed
  | _ => exact inspect_error _ f failed

theorem bindingText_error {verb : String} {name value : Datum} {f : Fault}
    (failed : bindingText verb name value = .error f) : f = .numberTooLong := by
  rcases bind_eq_error.mp failed with shown | ⟨_, _, failed⟩
  · exact display_error shown
  · rcases bind_eq_error.mp failed with shown | ⟨_, _, done⟩
    · exact inspect_error _ f shown
    · cases done

/-- Why a parameter cannot be bound to an argument: the argument has no value in the scope of
the call, the parameter is no name, or the trace of the binding cannot be written. -/
inductive Unbindable (verbosity : Nat) (caller : Scope) : Datum × Datum → Fault → Prop
  | argument {param arg : Datum} {f : Fault} : caller.argument arg = .error f →
      Unbindable verbosity caller (param, arg) f
  | name {param arg : Datum} {f : Fault} : param.key = .error f →
      Unbindable verbosity caller (param, arg) f
  | trace {param arg value : Datum} {f : Fault} : 2 ≤ verbosity → caller.argument arg = .ok value →
      bindingText "declare" param value = .error f → Unbindable verbosity caller (param, arg) f

/-- A scope in which a body runs: new inside the caller's, and with all parameters bound at
once. A name that several parameters have holds the value of the last of them. -/
structure BoundAtOnce (caller : Scope) (pairs : List (Datum × Datum)) (t : Scope) : Prop where
  around : t.parents = caller.frames
  functions : t.frame.functions = []
  resolved : ∀ pair ∈ pairs, ∃ value, caller.argument pair.2 = .ok value
  holds : ∀ before param arg after k, pairs = before ++ (param, arg) :: after →
    param.key = .ok k → (∀ later ∈ after, later.1.key ≠ .ok k) →
    ∃ value, caller.argument arg = .ok value ∧ (t.frame.values.find? k).map Variable.value = some value
  others : ∀ k, (∀ pair ∈ pairs, pair.1.key ≠ .ok k) → t.frame.values.find? k = none

theorem traced_cases (verbosity level : Nat) (text : Unit → Except Fault String) (s : Scope) :
    (level ≤ verbosity → ∃ shown, text () = .ok shown) ∧ (traced verbosity level text s).Ends s ∨
    ∃ f, level ≤ verbosity ∧ text () = .error f ∧
      (traced verbosity level text s).failure = some (.fault f) := by
  unfold traced
  by_cases shown : level ≤ verbosity
  · rw [if_pos shown]
    cases text () with
    | ok t => exact .inl ⟨fun _ => ⟨t, rfl⟩, rfl, rfl⟩
    | error f => exact .inr ⟨f, shown, rfl, rfl⟩
  · rw [if_neg shown]
    exact .inl ⟨fun le => absurd le shown, rfl, rfl⟩

/-- A declaration says nothing. It binds its name, or fails as the name or the trace does. -/
theorem declare_cases (verbosity limit : Nat) (param value : Datum) (s : Scope) :
    (execute verbosity (limit + 1) (.declare param value .null) s).lines = [] ∧
    ((∃ k, param.key = .ok k ∧
        (2 ≤ verbosity → ∃ shown, bindingText "declare" param value = .ok shown) ∧
        (execute verbosity (limit + 1) (.declare param value .null) s).Ends (s.set k value param)) ∨
      ∃ f, (execute verbosity (limit + 1) (.declare param value .null) s).failure = some (.fault f) ∧
        (param.key = .error f ∨ 2 ≤ verbosity ∧ bindingText "declare" param value = .error f)) := by
  have shown : ∃ shown, executeText (.declare param value .null) = .ok shown := ⟨_, rfl⟩
  obtain ⟨lines, failure, scope⟩ := execute_traceable limit s (Or.inr shown : verbosity = 0 ∨ _)
  unfold Ends
  rw [lines, failure, scope, perform, runBinding]
  cases param.key with
  | error f => exact ⟨rfl, .inr ⟨f, rfl, .inl rfl⟩⟩
  | ok k =>
    simp only [attempt]
    refine ⟨lines_traced .., ?_⟩
    rcases traced_cases verbosity 2 (fun _ => bindingText "declare" param value)
      (s.set k value param) with ⟨written, ends⟩ | ⟨f, loud, text, failed⟩
    · rw [ends.1, ends.2]
      exact .inl ⟨k, rfl, written, rfl, rfl⟩
    · rw [failed]
      exact .inr ⟨f, rfl, .inr ⟨loud, text⟩⟩

theorem Scope.own_set (s : Scope) (k : Key) (v name : Datum) :
    ((s.set k v name).frame.values.find? k).map Variable.value = some v := by
  rw [Scope.set, Table.find?_insert_self]
  rfl

theorem Scope.own_set_of_ne (s : Scope) {j k : Key} (other : k ≠ j) (v name : Datum) :
    (s.set k v name).frame.values.find? j = s.frame.values.find? j :=
  Table.find?_insert_of_ne _ other _

section Binding
variable {verbosity limit : Nat} {caller s t : Scope} {pairs : List (Datum × Datum)}

theorem bindParams_cases (verbosity limit : Nat) (caller : Scope) (pairs : List (Datum × Datum))
    (s : Scope) :
    (bindParams (execute verbosity (limit + 1)) caller pairs s).lines = [] ∧
    ((bindParams (execute verbosity (limit + 1)) caller pairs s).failure = none ∨
      ∃ pair ∈ pairs, ∃ f, Unbindable verbosity caller pair f ∧
        (bindParams (execute verbosity (limit + 1)) caller pairs s).failure = some (.fault f)) := by
  induction pairs generalizing s with
  | nil => exact ⟨rfl, .inl rfl⟩
  | cons pair pairs ih =>
    obtain ⟨param, arg⟩ := pair
    rw [bindParams]
    cases resolved : caller.argument arg with
    | error f => exact ⟨rfl, .inr ⟨_, List.mem_cons_self, f, .argument resolved, rfl⟩⟩
    | ok value =>
      simp only [attempt]
      obtain ⟨silent, ⟨k, named, written, ends⟩ | ⟨f, failed, cause⟩⟩ :=
        declare_cases verbosity limit param value s
      · obtain ⟨later, outcome⟩ := ih (s.set k value param)
        refine ⟨by rw [lines_andThen ends, silent, later]; rfl, ?_⟩
        rw [andThen, ends.1, ends.2]
        rcases outcome with ended | ⟨pair, inside, f, cause, failed⟩
        · exact .inl ended
        · exact .inr ⟨pair, List.mem_cons_of_mem _ inside, f, cause, failed⟩
      · rw [andThen_of_failed failed]
        refine ⟨silent, .inr ⟨_, List.mem_cons_self, f, ?_, failed⟩⟩
        rcases cause with unnamed | ⟨loud, text⟩
        · exact .name unnamed
        · exact .trace loud resolved text

theorem bindParams_cons_ends {param arg : Datum}
    (ends : (bindParams (execute verbosity (limit + 1)) caller ((param, arg) :: pairs) s).Ends t) :
    ∃ k value, caller.argument arg = .ok value ∧ param.key = .ok k ∧
      (2 ≤ verbosity → ∃ shown, bindingText "declare" param value = .ok shown) ∧
      (bindParams (execute verbosity (limit + 1)) caller pairs (s.set k value param)).Ends t := by
  rw [bindParams] at ends
  cases resolved : caller.argument arg with
  | error f =>
    rw [resolved] at ends
    cases ends.1
  | ok value =>
    rw [resolved] at ends
    obtain ⟨ended, later⟩ := ends_andThen.mp ends
    obtain ⟨-, ⟨k, named, written, declared⟩ | ⟨f, failed, -⟩⟩ :=
      declare_cases verbosity limit param value s
    · rw [declared.2] at later
      exact ⟨k, value, rfl, named, written, later⟩
    · cases failed.symm.trans ended

theorem bindable_of_ends
    (ends : (bindParams (execute verbosity (limit + 1)) caller pairs s).Ends t) :
    ∀ pair ∈ pairs, ∀ f, ¬ Unbindable verbosity caller pair f := by
  induction pairs generalizing s with
  | nil => exact nofun
  | cons pair pairs ih =>
    obtain ⟨param, arg⟩ := pair
    obtain ⟨k, value, resolved, named, written, later⟩ := bindParams_cons_ends ends
    refine List.forall_mem_cons.mpr ⟨fun f cause => ?_, ih later⟩
    cases cause with
    | argument failed => cases resolved.symm.trans failed
    | name failed => cases named.symm.trans failed
    | trace loud again failed =>
      cases resolved.symm.trans again
      obtain ⟨shown, text⟩ := written loud
      cases text.symm.trans failed

theorem find?_of_ends (ends : (bindParams (execute verbosity (limit + 1)) caller pairs s).Ends t)
    {k : Key} (none : ∀ pair ∈ pairs, pair.1.key ≠ .ok k) :
    t.frame.values.find? k = s.frame.values.find? k := by
  induction pairs generalizing s with
  | nil => rw [← ends.2]; rfl
  | cons pair pairs ih =>
    obtain ⟨param, arg⟩ := pair
    obtain ⟨here, others⟩ := List.forall_mem_cons.mp none
    obtain ⟨j, value, -, named, -, later⟩ := bindParams_cons_ends ends
    have other : j ≠ k := by
      rintro rfl
      exact here named
    rw [ih later others, Scope.own_set_of_ne s other]

theorem holds_of_ends (ends : (bindParams (execute verbosity (limit + 1)) caller pairs s).Ends t)
    {before after : List (Datum × Datum)} {param arg : Datum} {k : Key}
    (split : pairs = before ++ (param, arg) :: after) (named : param.key = .ok k)
    (last : ∀ later ∈ after, later.1.key ≠ .ok k) :
    ∃ value, caller.argument arg = .ok value ∧
      (t.frame.values.find? k).map Variable.value = some value := by
  induction before generalizing pairs s with
  | nil =>
    subst split
    obtain ⟨j, value, resolved, again, -, later⟩ := bindParams_cons_ends ends
    cases named.symm.trans again
    exact ⟨value, resolved, by rw [find?_of_ends later last, Scope.own_set]⟩
  | cons first before ih =>
    subst split
    obtain ⟨j, value, -, -, -, later⟩ := bindParams_cons_ends ends
    exact ih later rfl

theorem boundAtOnce_of_ends
    (ends : (bindParams (execute verbosity (limit + 1)) caller pairs caller.child).Ends t) :
    BoundAtOnce caller pairs t := by
  have confined := bindParams_confined (execute_confined verbosity (limit + 1)) caller pairs caller.child
  rw [ends.2] at confined
  refine ⟨confined.parents, confined.functions, fun pair inside => ?_, ?_, ?_⟩
  · cases resolved : caller.argument pair.2 with
    | ok value => exact ⟨value, rfl⟩
    | error f => exact absurd (.argument resolved) (bindable_of_ends ends pair inside f)
  · intro before param arg after k split named last
    exact holds_of_ends ends split named last
  · intro k none
    exact find?_of_ends ends none

end Binding

section Order
variable {caller t t' : Scope} {pairs pairs' : List (Datum × Datum)}

theorem Scope.get_own {s : Scope} {k : Key} {v : Datum}
    (own : (s.frame.values.find? k).map Variable.value = some v) : s.get k = v := by
  simp [Scope.get, Scope.frames, own]

theorem exists_last {k : Key} (distinct : (pairs.map (·.1.key)).Nodup) {param arg : Datum}
    (inside : (param, arg) ∈ pairs) (named : param.key = .ok k) :
    ∃ before after, pairs = before ++ (param, arg) :: after ∧
      ∀ later ∈ after, later.1.key ≠ .ok k := by
  obtain ⟨before, after, rfl⟩ := List.append_of_mem inside
  refine ⟨before, after, rfl, fun later member same => ?_⟩
  rw [List.map_append, List.map_cons] at distinct
  have fresh := (List.nodup_cons.mp (List.nodup_append.mp distinct).2.1).1
  exact fresh (List.mem_map.mpr ⟨later, member, same.trans named.symm⟩)

/-- Parameters of different names that are bound at once are bound in any order. -/
theorem BoundAtOnce.agrees (first : BoundAtOnce caller pairs t) (second : BoundAtOnce caller pairs' t')
    (perm : pairs'.Perm pairs) (distinct : (pairs.map (·.1.key)).Nodup) : t.Agrees t' := by
  have distinct' : (pairs'.map (·.1.key)).Nodup := (perm.map _).nodup_iff.mpr distinct
  constructor
  · intro k
    by_cases bound : ∃ pair ∈ pairs, pair.1.key = .ok k
    · obtain ⟨⟨param, arg⟩, inside, named⟩ := bound
      obtain ⟨before, after, split, last⟩ := exists_last distinct inside named
      obtain ⟨before', after', split', last'⟩ := exists_last distinct' (perm.mem_iff.mpr inside) named
      obtain ⟨value, resolved, own⟩ := first.holds before param arg after k split named last
      obtain ⟨value', resolved', own'⟩ := second.holds before' param arg after' k split' named last'
      cases resolved.symm.trans resolved'
      rw [Scope.get_own own, Scope.get_own own']
    · have none : ∀ pair ∈ pairs, pair.1.key ≠ .ok k := fun pair inside named => bound ⟨pair, inside, named⟩
      have none' : ∀ pair ∈ pairs', pair.1.key ≠ .ok k := fun pair inside => none pair (perm.mem_iff.mp inside)
      simp only [Scope.get, Scope.frames, List.findSome?_cons, first.others k none, second.others k none',
        first.around, second.around]
  · intro k
    simp only [Scope.function?, Scope.frames, List.findSome?_cons, first.functions, second.functions,
      first.around, second.around]

end Order

/-- Runs a body in a new scope inside the caller's, with parameters bound in an order. -/
def enterBound (run : Executor) (caller : Scope) (pairs : List (Datum × Datum)) (body : Node) : Outcome :=
  ((bindParams run caller pairs caller.child).andThen (run body)).leave

theorem enter_eq (run : Executor) (d : Definition) (args : List Datum) (s : Scope) :
    enter run d args s = enterBound run s (d.params.zip args) d.body := rfl

theorem enterBound_scope (verbosity limit : Nat) (caller : Scope) (pairs : List (Datum × Datum))
    (body : Node) : (enterBound (execute verbosity limit) caller pairs body).scope = caller := by
  have nested := execute_confined verbosity limit
  have params := bindParams_confined nested caller pairs caller.child
  exact (andThen_confined params (nested body)).leave_eq

section Bodies
variable (verbosity limit : Nat) (caller : Scope) (pairs : List (Datum × Datum)) (body : Node)

/-- Once its parameters are bound, a body says and ends as it does in that scope. Otherwise
nothing is said, because one of them cannot be bound. -/
theorem enterBound_cases :
    (∃ t, (bindParams (execute verbosity (limit + 1)) caller pairs caller.child).Ends t ∧
      (enterBound (execute verbosity (limit + 1)) caller pairs body).lines =
        (execute verbosity (limit + 1) body t).lines ∧
      (enterBound (execute verbosity (limit + 1)) caller pairs body).failure =
        (execute verbosity (limit + 1) body t).failure) ∨
    (enterBound (execute verbosity (limit + 1)) caller pairs body).lines = [] ∧
      ∃ pair ∈ pairs, ∃ f, Unbindable verbosity caller pair f ∧
        (enterBound (execute verbosity (limit + 1)) caller pairs body).failure = some (.fault f) := by
  obtain ⟨silent, ended | ⟨pair, inside, f, cause, failed⟩⟩ :=
    bindParams_cases verbosity limit caller pairs caller.child
  · left
    generalize bound : bindParams (execute verbosity (limit + 1)) caller pairs caller.child = o at *
    refine ⟨o.scope, ⟨ended, rfl⟩, ?_, ?_⟩
    · change ((bindParams _ caller pairs caller.child).andThen _).lines = _
      rw [bound, lines_andThen ⟨ended, rfl⟩, silent, List.nil_append]
    · change ((bindParams _ caller pairs caller.child).andThen _).failure = _
      rw [bound, andThen, ended]
  · right
    have first : enterBound (execute verbosity (limit + 1)) caller pairs body =
        (bindParams (execute verbosity (limit + 1)) caller pairs caller.child).leave := by
      rw [enterBound, andThen_of_failed failed]
    rw [first]
    exact ⟨silent, pair, inside, f, cause, failed⟩

variable {caller pairs} {pairs' : List (Datum × Datum)}

theorem enterBound_perm (perm : pairs'.Perm pairs) (distinct : (pairs.map (·.1.key)).Nodup)
    (named : ∀ pair ∈ pairs, ∃ k, pair.1.key = .ok k)
    (resolved : ∀ pair ∈ pairs, ∃ value, caller.argument pair.2 = .ok value) :
    (enterBound (execute verbosity (limit + 1)) caller pairs' body).lines =
        (enterBound (execute verbosity (limit + 1)) caller pairs body).lines ∧
      (enterBound (execute verbosity (limit + 1)) caller pairs' body).failure =
        (enterBound (execute verbosity (limit + 1)) caller pairs body).failure := by
  -- with names and values at hand only the trace of a binding can fail, and in one way only
  have tooLong : ∀ pair ∈ pairs, ∀ f, Unbindable verbosity caller pair f → f = .numberTooLong := by
    intro pair inside f cause
    cases cause with
    | argument failed =>
      obtain ⟨value, ok⟩ := resolved _ inside
      cases ok.symm.trans failed
    | name failed =>
      obtain ⟨k, ok⟩ := named _ inside
      cases ok.symm.trans failed
    | trace _ _ failed => exact bindingText_error failed
  rcases enterBound_cases verbosity limit caller pairs body with
    ⟨t, ends, lines, failure⟩ | ⟨silent, pair, inside, f, cause, failed⟩
  · rcases enterBound_cases verbosity limit caller pairs' body with
      ⟨t', ends', lines', failure'⟩ | ⟨-, pair', inside', f', cause', -⟩
    · have agree := (boundAtOnce_of_ends ends).agrees (boundAtOnce_of_ends ends') perm distinct
      have bodies : (execute verbosity (limit + 1) body t).Agrees (execute verbosity (limit + 1) body t') :=
        execute_congr verbosity (limit + 1) agree
      rw [lines, lines', failure, failure', Outcome.lines, Outcome.lines, bodies.events]
      exact ⟨rfl, bodies.failure.symm⟩
    · exact absurd cause' (bindable_of_ends ends pair' (perm.mem_iff.mp inside') f')
  · rcases enterBound_cases verbosity limit caller pairs' body with
      ⟨t', ends', -, -⟩ | ⟨silent', pair', inside', f', cause', failed'⟩
    · exact absurd cause (bindable_of_ends ends' pair (perm.mem_iff.mpr inside) f)
    · rw [silent, silent', failed, failed', tooLong pair inside f cause,
        tooLong pair' (perm.mem_iff.mp inside') f' cause']
      exact ⟨rfl, rfl⟩

end Bodies

section Calls
variable (verbosity limit : Nat) {s : Scope} {name : Datum} {args : List Datum} {key : Key}
  {d : Definition}

/-- A call runs the body of its function with the parameters bound at once, or says nothing
and fails because of a parameter or of its own trace. -/
theorem runCall_cases (isName : name.key = .ok key) (found : s.function? key = some d)
    (arity : d.params.length = args.length) :
    let run := execute verbosity (limit + 1)
    let call := runCall verbosity run name args s
    let inside := (bindParams run s (d.params.zip args) s.child).scope
    (BoundAtOnce s (d.params.zip args) inside ∧ call.lines = (run d.body inside).lines ∧
        call.failure = (run d.body inside).failure) ∨
      call.lines = [] ∧ ∃ f, call.failure = some (.fault f) ∧
        ((∃ pair ∈ d.params.zip args, Unbindable verbosity s pair f) ∨
          2 ≤ verbosity ∧ callText name args = .error f) := by
  intro run call inside
  have calls : call = (traced verbosity 2 (fun _ => callText name args) s).andThen (enter run d args) := by
    simp only [call, runCall, isName, attempt, found, callFound, if_pos arity]
  rcases traced_cases verbosity 2 (fun _ => callText name args) s with
    ⟨-, ends⟩ | ⟨f, loud, text, failed⟩
  · have said : call.lines = (enter run d args s).lines := by
      rw [calls, lines_andThen ends, lines_traced, List.nil_append]
    have failure : call.failure = (enter run d args s).failure := by
      rw [calls, andThen, ends.1, ends.2]
    rw [said, failure, enter_eq]
    rcases enterBound_cases verbosity limit s (d.params.zip args) d.body with
      ⟨t, bound, lines, ending⟩ | ⟨silent, pair, inside, f, cause, failed⟩
    · cases bound.2
      exact .inl ⟨boundAtOnce_of_ends bound, lines, ending⟩
    · exact .inr ⟨silent, f, failed, .inl ⟨pair, inside, cause⟩⟩
  · rw [calls, andThen_of_failed failed]
    exact .inr ⟨lines_traced .., f, failed, .inr ⟨loud, text⟩⟩

/-- A body runs alike for any order in which its parameters are bound. -/
theorem enter_perm (arity : d.params.length = args.length)
    (named : ∀ param ∈ d.params, ∃ k, param.key = .ok k) (distinct : (d.params.map Datum.key).Nodup)
    (resolved : ∀ arg ∈ args, ∃ value, s.argument arg = .ok value) {pairs : List (Datum × Datum)}
    (perm : pairs.Perm (d.params.zip args)) :
    let run := execute verbosity (limit + 1)
    (enterBound run s pairs d.body).lines = (enter run d args s).lines ∧
      (enterBound run s pairs d.body).failure = (enter run d args s).failure ∧
      (enterBound run s pairs d.body).scope = (enter run d args s).scope := by
  intro run
  have params : (d.params.zip args).map Prod.fst = d.params := List.map_fst_zip arity.le
  have keys : (d.params.zip args).map (·.1.key) = d.params.map Datum.key := by
    have parts := congrArg (List.map Datum.key) params
    rwa [List.map_map] at parts
  have same := enterBound_perm verbosity limit d.body perm (keys ▸ distinct)
    (fun pair inside => named _ (List.of_mem_zip inside).1)
    (fun pair inside => resolved _ (List.of_mem_zip inside).2)
  rw [enter_eq]
  exact ⟨same.1, same.2, by rw [enterBound_scope, enterBound_scope]⟩

end Calls

/-- A call runs the body of its function in the scope in which binding its parameters ends: a new
scope in which they hold, at once, the values that the arguments have in the scope of the call. Or
it says nothing and fails because of an argument, a parameter or a trace. Parameters of different
names whose arguments have values may be bound in any order. -/
theorem parameters_bound_at_once (verbosity limit : Nat) {s : Scope} {name : Datum}
    {args : List Datum} {key : Key} {d : Definition} (isName : name.key = .ok key)
    (found : s.function? key = some d) (arity : d.params.length = args.length) :
    let run := execute verbosity (limit + 1)
    let call := runCall verbosity run name args s
    let inside := (bindParams run s (d.params.zip args) s.child).scope
    call.scope = s ∧
    ((BoundAtOnce s (d.params.zip args) inside ∧ call.lines = (run d.body inside).lines ∧
        call.failure = (run d.body inside).failure) ∨
      call.lines = [] ∧ ∃ f, call.failure = some (.fault f) ∧
        ((∃ pair ∈ d.params.zip args, Unbindable verbosity s pair f) ∨
          2 ≤ verbosity ∧ callText name args = .error f)) ∧
    ((∀ param ∈ d.params, ∃ k, param.key = .ok k) → (d.params.map Datum.key).Nodup →
      (∀ arg ∈ args, ∃ value, s.argument arg = .ok value) →
      ∀ pairs, pairs.Perm (d.params.zip args) →
        (enterBound run s pairs d.body).lines = (enter run d args s).lines ∧
        (enterBound run s pairs d.body).failure = (enter run d args s).failure ∧
        (enterBound run s pairs d.body).scope = (enter run d args s).scope) := by
  intro run call inside
  refine ⟨runCall_scope verbosity (execute_confined verbosity (limit + 1)) name args s,
    runCall_cases verbosity limit isName found arity, ?_⟩
  intro named distinct resolved pairs perm
  exact enter_perm verbosity limit arity named distinct resolved perm

def pairing : Definition :=
  ⟨.text "f", [.text "a", .text "b"], .block [.say (.text "$a $b") .null] .null, .null⟩

/-- A call that gives each parameter the variable of the other one's name. -/
theorem parameters_bound_at_once_pairing :
    let s := ((globalScope [(.text "f", pairing)]).set (.text "a") (.int 1)).set (.text "b") (.int 2)
    let run := execute 0 9
    let call := runCall 0 run (.text "f") [.text "b", .text "a"] s
    let pairs := [(.text "a", .text "b"), (.text "b", .text "a")]
    let inside := (bindParams run s pairs s.child).scope
    s.function? (.text "f") = some pairing ∧ call.lines = ["2 1"] ∧
    (BoundAtOnce s pairs inside ∧
      (inside.get (.text "a"), inside.get (.text "b")) = (.int 2, .int 1) ∧
      call.lines = (run pairing.body inside).lines) ∧
    (enterBound run s pairs.reverse pairing.body).lines =
      (enter run pairing [.text "b", .text "a"] s).lines := by
  intro s run call pairs inside
  have isName : (Datum.text "f").key = .ok (.text "f") := rfl
  have found : s.function? (.text "f") = some pairing := rfl
  have arity : pairing.params.length = [Datum.text "b", Datum.text "a"].length := rfl
  have first : s.argument (.text "b") = .ok (.int 2) := rfl
  have second : s.argument (.text "a") = .ok (.int 1) := rfl
  have said : call.lines = ["2 1"] := by decide +kernel
  obtain ⟨-, called, order⟩ := parameters_bound_at_once 0 8 isName found arity
  refine ⟨found, said, ?_, ?_⟩
  · rcases called with ⟨bound, lines, -⟩ | ⟨silent, -⟩
    · obtain ⟨_, resolved, own⟩ := bound.holds [] (.text "a") (.text "b") [(.text "b", .text "a")]
        (.text "a") rfl rfl (by decide)
      obtain ⟨_, resolved', own'⟩ := bound.holds [(.text "a", .text "b")] (.text "b") (.text "a") []
        (.text "b") rfl rfl nofun
      cases first.symm.trans resolved
      cases second.symm.trans resolved'
      have values : (inside.get (.text "a"), inside.get (.text "b")) = (.int 2, .int 1) :=
        congrArg₂ Prod.mk (Scope.get_own own) (Scope.get_own own')
      exact ⟨bound, values, lines⟩
    · cases said.symm.trans silent
  · have names : ∀ param ∈ pairing.params, ∃ k, param.key = .ok k := by simp [pairing, Datum.key]
    have distinct : (pairing.params.map Datum.key).Nodup := by simp [pairing, Datum.key]
    have values : ∀ arg ∈ [Datum.text "b", Datum.text "a"], ∃ value, s.argument arg = .ok value := by
      simp [first, second]
    exact (order names distinct values _ (List.Perm.swap _ _ _)).1

end Primer
