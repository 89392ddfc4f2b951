import Primer.Parser

/-! How results that may be failures are taken apart. -/
namespace Primer

theorem bind_eq_ok {x : Except ε α} {f : α → Except ε β} {b : β} :
    x >>= f = .ok b ↔ ∃ a, x = .ok a ∧ f a = .ok b := by
  cases x <;> simp [bind, Except.bind]

theorem bind_eq_error {x : Except ε α} {f : α → Except ε β} {e : ε} :
    x >>= f = .error e ↔ x = .error e ∨ ∃ a, x = .ok a ∧ f a = .error e := by
  cases x <;> simp [bind, Except.bind]

@[simp] theorem ok_bind (a : α) (f : α → Except ε β) : Except.ok a >>= f = f a := rfl

@[simp] theorem error_bind (e : ε) (f : α → Except ε β) : Except.error e >>= f = .error e := rfl

@[simp] theorem pure_eq_ok (a : α) : (pure a : Except ε α) = .ok a := rfl

@[simp] theorem orFault_ok (a : α) : orFault (.ok a) = .ok a := rfl

@[simp] theorem orFault_error (f : Fault) : orFault (.error f : Except Fault α) = .error (.fault f) :=
  rfl

theorem orFault_eq_ok {r : Except Fault α} {a : α} : orFault r = .ok a ↔ r = .ok a := by
  cases r <;> simp

theorem orFault_eq_fault {r : Except Fault α} {f : Fault} :
    orFault r = .error (.fault f) ↔ r = .error f := by
  cases r <;> simp

section Sources
variable {source : List Char}

theorem parse_eq_ok {body : List Node} :
    parse source = .ok (.program body) ↔ readBody source = .ok body := by
  unfold parse
  split
  · rename_i read
    simp [read]
  · rename_i read
    simp [read]

theorem parse_eq_diagnostic {d : Diagnostic} : parse source = .error (.diagnostic d) ↔
    ∃ p offset, readBody source = reject p offset ∧
      d = ⟨p, atOffset offset, some (snippet source offset)⟩ := by
  unfold parse
  split
  · rename_i read
    simp [read, reject]
  · rename_i r read
    cases r with
    | problem p offset =>
      constructor
      · intro failed
        cases failed
        exact ⟨p, offset, read, rfl⟩
      · rintro ⟨_, _, again, rfl⟩
        cases read.symm.trans again
        rfl
    | fault f => simp [read, reject, Rejection.failure]
    | exhausted => simp [read, reject, Rejection.failure]

theorem parse_eq_fault {f : Fault} :
    parse source = .error (.fault f) ↔ readBody source = .error (.fault f) := by
  unfold parse
  split
  · rename_i read
    simp [read]
  · rename_i r read
    cases r <;> simp [read, Rejection.failure]

end Sources
end Primer
