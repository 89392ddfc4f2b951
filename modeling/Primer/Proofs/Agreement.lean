import Primer.Proofs.Frame

/-! Scopes that answer every lookup alike. A statement looks names up, binds names in
its own frame and opens new frames, and shows nothing else of its scope: in two scopes
that agree it says and traces the same, ends the same way, and leaves scopes that agree
again. So a chain of frames can be replaced by one flat map which is copied where a new
frame would be opened. -/
namespace Primer

open Outcome

/-- Two scopes in which every name has the same value and the same function. -/
structure Scope.Agrees (s t : Scope) : Prop where
  get : ∀ k, s.get k = t.get k
  function? : ∀ k, s.function? k = t.function? k

namespace Scope

namespace Agrees
variable {s t u : Scope}

theorem refl (s : Scope) : s.Agrees s := ⟨fun _ => rfl, fun _ => rfl⟩

theorem symm (agree : s.Agrees t) : t.Agrees s :=
  ⟨fun k => (agree.get k).symm, fun k => (agree.function? k).symm⟩

theorem trans (first : s.Agrees t) (second : t.Agrees u) : s.Agrees u :=
  ⟨fun k => (first.get k).trans (second.get k),
    fun k => (first.function? k).trans (second.function? k)⟩

/-- A new frame hides nothing of what lies around it. -/
theorem child (agree : s.Agrees t) : s.child.Agrees t := ⟨agree.get, agree.function?⟩

theorem set (agree : s.Agrees t) (k : Key) (v name : Datum) :
    (s.set k v name).Agrees (t.set k v name) := by
  refine ⟨fun j => ?_, agree.function?⟩
  by_cases same : k = j
  · subst same
    rw [get_set_self, get_set_self]
  · rw [get_set_of_ne s same, get_set_of_ne t same, agree.get]

end Agrees
end Scope

/-- Two frames with the same variables, in which each name has related functions. -/
structure Frame.Alike (related : Definition → Definition → Prop) (f g : Frame) : Prop where
  values : f.values = g.values
  function? : ∀ k, Option.Rel related (f.functions.find? k) (g.functions.find? k)

/-- Two chains of frames that are alike one by one. -/
def Scope.Alike (related : Definition → Definition → Prop) (s t : Scope) : Prop :=
  List.Forall₂ (Frame.Alike related) s.frames t.frames

namespace Scope.Alike
variable {related : Definition → Definition → Prop} {s t : Scope} (alike : s.Alike related t)
include alike

theorem values : s.frame.values = t.frame.values := (List.forall₂_cons.mp alike).1.values

theorem get (k : Key) : s.get k = t.get k := by
  have found {fs gs : List Frame} (frames : List.Forall₂ (Frame.Alike related) fs gs) :
      (fs.findSome? fun f => (f.values.find? k).map Variable.value) =
        gs.findSome? fun f => (f.values.find? k).map Variable.value := by
    induction frames with
    | nil => rfl
    | cons first _ ih => simp only [List.findSome?_cons, first.values, ih]
  simp only [Scope.get, found alike]

theorem function? (k : Key) : Option.Rel related (s.function? k) (t.function? k) := by
  have found {fs gs : List Frame} (frames : List.Forall₂ (Frame.Alike related) fs gs) :
      Option.Rel related (fs.findSome? fun f => f.functions.find? k)
        (gs.findSome? fun f => f.functions.find? k) := by
    induction frames with
    | nil => exact .none
    | @cons f g _ _ first _ ih =>
      have here := first.function? k
      simp only [List.findSome?_cons]
      generalize f.functions.find? k = d, g.functions.find? k = e at here
      cases here with
      | none => exact ih
      | some both => exact .some both
  exact found alike

theorem child : s.child.Alike related t.child := .cons ⟨rfl, fun _ => .none⟩ alike

theorem leave : s.leave.Alike related t.leave := by
  obtain ⟨f, parents⟩ := s
  obtain ⟨g, parents'⟩ := t
  obtain ⟨-, around⟩ := List.forall₂_cons.mp alike
  cases around with
  | nil => exact alike
  | cons first rest => exact .cons first rest

theorem set (k : Key) (v name : Datum) : (s.set k v name).Alike related (t.set k v name) := by
  obtain ⟨own, around⟩ := List.forall₂_cons.mp alike
  refine .cons ⟨?_, own.function?⟩ around
  change Table.insert _ _ _ = Table.insert _ _ _
  rw [own.values]

omit alike in
theorem agrees (alike : s.Alike Eq t) : s.Agrees t := by
  refine ⟨alike.get, fun k => ?_⟩
  have found := alike.function? k
  generalize s.function? k = d, t.function? k = e at found
  cases found with
  | none => rfl
  | some same => rw [same]

end Scope.Alike

/-- Two outcomes that show the same and leave scopes that agree. -/
structure Outcome.Agrees (o p : Outcome) : Prop where
  events : o.events = p.events
  failure : o.failure = p.failure
  scope : o.scope.Agrees p.scope

namespace Outcome.Agrees
variable {o p q : Outcome} {s t : Scope}

theorem symm (agree : o.Agrees p) : p.Agrees o :=
  ⟨agree.events.symm, agree.failure.symm, agree.scope.symm⟩

theorem trans (first : o.Agrees p) (second : p.Agrees q) : o.Agrees q :=
  ⟨first.events.trans second.events, first.failure.trans second.failure,
    first.scope.trans second.scope⟩

theorem done (agree : s.Agrees t) : (done s).Agrees (done t) := ⟨rfl, rfl, agree⟩

theorem fail (agree : s.Agrees t) (f : Failure) : (fail s f).Agrees (fail t f) := ⟨rfl, rfl, agree⟩

theorem andThen_ended {next next' : Scope → Outcome} (first : o.Agrees p)
    (rest : o.failure = none → p.failure = none → (next o.scope).Agrees (next' p.scope)) :
    (o.andThen next).Agrees (p.andThen next') := by
  unfold Outcome.andThen
  have failure := first.failure
  cases ended : p.failure with
  | some f =>
    rw [failure, ended]
    exact first
  | none =>
    have later := rest (failure.trans ended) ended
    rw [failure, ended]
    refine ⟨?_, later.failure, later.scope⟩
    simp only [first.events, later.events]

theorem andThen {next next' : Scope → Outcome} (first : o.Agrees p)
    (rest : ∀ ⦃s t⦄, s.Agrees t → (next s).Agrees (next' t)) :
    (o.andThen next).Agrees (p.andThen next') :=
  first.andThen_ended fun _ _ => rest first.scope

theorem attempt {next next' : α → Outcome} (agree : s.Agrees t) (r : Except Fault α)
    (rest : ∀ a, (next a).Agrees (next' a)) : (attempt r s next).Agrees (attempt r t next') := by
  cases r with
  | ok a => exact rest a
  | error f => exact .fail agree (.fault f)

theorem traced (agree : s.Agrees t) (verbosity level : Nat) (text : Unit → Except Fault String) :
    (traced verbosity level text s).Agrees (traced verbosity level text t) := by
  unfold Outcome.traced
  split
  · exact .attempt agree (text ()) fun shown => ⟨rfl, rfl, agree⟩
  · exact .done agree

theorem stamp (agree : o.Agrees p) (offset : Datum) :
    (o.stamp offset).Agrees (p.stamp offset) := by
  have failures : (o.stamp offset).failure = (p.stamp offset).failure := by
    unfold Outcome.stamp
    rw [agree.failure]
    split <;> simp [agree.failure]
  refine ⟨?_, failures, ?_⟩
  · unfold Outcome.stamp
    rw [agree.failure]
    split <;> exact agree.events
  · rw [scope_stamp, scope_stamp]
    exact agree.scope

end Outcome.Agrees
end Primer
