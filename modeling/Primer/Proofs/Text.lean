import Primer.Number.Whole
import Mathlib.Algebra.GroupWithZero.Nat
import Mathlib.Data.List.DropRight

/-! Laws of trimming, cutting and decimal numerals, by which text that was written
with blanks and separators around its parts is taken apart again. -/
namespace Primer

theorem trimEnd_eq_rdropWhile (s : List Char) : trimEnd s = s.rdropWhile isBlank := rfl

theorem trimEnd_cons {c : Char} (solid : isBlank c = false) (s : List Char) :
    trimEnd (c :: s) = c :: trimEnd s := by
  unfold trimEnd
  rw [List.reverse_cons, List.dropWhile_append]
  split
  · rename_i none
    have blank : s.reverse.dropWhile isBlank = [] := List.isEmpty_iff.mp none
    simp [blank, solid]
  · simp

theorem trim_cons {c : Char} (solid : isBlank c = false) (s : List Char) :
    trim (c :: s) = c :: trimEnd s := by
  simp only [trim, trimStart, List.dropWhile_cons, solid, Bool.false_eq_true, if_false]
  exact trimEnd_cons solid s

theorem trim_blank_cons {c : Char} (blank : isBlank c = true) (s : List Char) :
    trim (c :: s) = trim s := by
  simp only [trim, trimStart, List.dropWhile_cons, blank, if_true]

theorem trim_append_blank {c : Char} (blank : isBlank c = true) (s : List Char) :
    trim (s ++ [c]) = trim s := by
  induction s with
  | nil => exact trim_blank_cons blank []
  | cons x s ih =>
    cases solid : isBlank x with
    | true => rw [List.cons_append, trim_blank_cons solid, trim_blank_cons solid, ih]
    | false =>
      rw [List.cons_append, trim_cons solid, trim_cons solid, trimEnd_eq_rdropWhile,
        List.rdropWhile_concat_pos _ _ _ blank, trimEnd_eq_rdropWhile]

theorem trim_trim (s : List Char) : trim (trim s) = trim s := by
  induction s with
  | nil => rfl
  | cons c s ih =>
    cases solid : isBlank c with
    | true => rw [trim_blank_cons solid, ih]
    | false =>
      rw [trim_cons solid, trim_cons solid]
      simp only [trimEnd_eq_rdropWhile, List.rdropWhile_idempotent]

theorem mem_of_mem_trim {c : Char} {s : List Char} (inside : c ∈ trim s) : c ∈ s := by
  have start : c ∈ trimStart s := (List.rdropWhile_prefix isBlank _).mem inside
  exact (List.dropWhile_suffix isBlank).mem start

theorem trimmed_cons {c : Char} {s : List Char} (trimmed : trim (c :: s) = c :: s) :
    isBlank c = false ∧ trimEnd s = s := by
  cases solid : isBlank c with
  | true =>
    -- the first character would be dropped, and trimming never lengthens a text
    rw [trim_blank_cons solid] at trimmed
    have short : (trim s).length ≤ s.length :=
      (List.rdropWhile_prefix isBlank _).length_le.trans (List.dropWhile_suffix isBlank).length_le
    rw [trimmed, List.length_cons] at short
    omega
  | false =>
    rw [trim_cons solid] at trimmed
    exact ⟨rfl, (List.cons.inj trimmed).2⟩

theorem trimEnd_of_trimmed {s : List Char} (trimmed : trim s = s) : trimEnd s = s := by
  cases s with
  | nil => rfl
  | cons c s =>
    obtain ⟨solid, rest⟩ := trimmed_cons trimmed
    rw [trimEnd_cons solid, rest]

theorem trimEnd_solid {s : List Char} (solid : ∀ c ∈ s, isBlank c = false) : trimEnd s = s := by
  induction s with
  | nil => rfl
  | cons c s ih =>
    obtain ⟨first, others⟩ := List.forall_mem_cons.mp solid
    rw [trimEnd_cons first, ih others]

theorem trim_solid {s : List Char} (solid : ∀ c ∈ s, isBlank c = false) : trim s = s := by
  cases s with
  | nil => rfl
  | cons c s =>
    obtain ⟨first, others⟩ := List.forall_mem_cons.mp solid
    rw [trim_cons first, trimEnd_solid others]

section Cutting
variable {separates : Char → Bool}

theorem cut_ne_nil (s : List Char) : cut separates s ≠ [] := by
  cases s with
  | nil => exact List.cons_ne_nil _ _
  | cons c s =>
    unfold cut
    split
    · exact List.cons_ne_nil _ _
    · split <;> exact List.cons_ne_nil _ _

theorem cut_of_none {s : List Char} (none : ∀ c ∈ s, separates c = false) :
    cut separates s = [s] := by
  induction s with
  | nil => rfl
  | cons c s ih =>
    obtain ⟨first, others⟩ := List.forall_mem_cons.mp none
    simp [cut, first, ih others]

theorem cut_append {c : Char} (here : separates c = true) {s : List Char}
    (none : ∀ c ∈ s, separates c = false) (rest : List Char) :
    cut separates (s ++ c :: rest) = s :: cut separates rest := by
  induction s with
  | nil => simp [cut, here]
  | cons x s ih =>
    obtain ⟨first, others⟩ := List.forall_mem_cons.mp none
    simp [cut, first, ih others]

theorem sum_length_cut (s : List Char) :
    ((cut separates s).map (·.length + 1)).sum = s.length + 1 := by
  induction s with
  | nil => rfl
  | cons ch s ih =>
    unfold cut
    split
    · simp only [List.map_cons, List.sum_cons, ih, List.length_nil, List.length_cons]
      omega
    · split
      · rename_i none
        exact absurd none (cut_ne_nil s)
      · rename_i piece pieces pieced
        rw [pieced] at ih
        simp only [List.map_cons, List.sum_cons, List.length_cons] at ih ⊢
        omega

/-- The first piece is all of the text, or a separator and the text of the others follow it. -/
theorem cut_eq_cons {s piece : List Char} {pieces : List (List Char)}
    (cuts : cut separates s = piece :: pieces) :
    s = piece ∧ pieces = [] ∨ ∃ c rest, s = piece ++ c :: rest ∧ cut separates rest = pieces := by
  induction s generalizing piece with
  | nil =>
    cases cuts
    exact .inl ⟨rfl, rfl⟩
  | cons c s ih =>
    rw [cut] at cuts
    split at cuts
    · cases cuts
      exact .inr ⟨c, s, rfl, rfl⟩
    · split at cuts
      · rename_i none
        exact absurd none (cut_ne_nil s)
      · rename_i first others pieced
        cases cuts
        rcases ih pieced with ⟨rfl, rfl⟩ | ⟨x, rest, rfl, later⟩
        · exact .inl ⟨rfl, rfl⟩
        · exact .inr ⟨x, rest, rfl, later⟩

/-- A piece stands after those before it and a separator for each of them. -/
theorem cut_eq_append {s entry : List Char} {before after : List (List Char)}
    (cuts : cut separates s = before ++ entry :: after) :
    entry <+: s.drop (before.map (·.length + 1)).sum := by
  induction before generalizing s with
  | nil =>
    rcases cut_eq_cons cuts with ⟨rfl, -⟩ | ⟨c, rest, rfl, -⟩
    · exact List.prefix_rfl
    · exact List.prefix_append _ _
  | cons piece before ih =>
    rcases cut_eq_cons cuts with ⟨-, none⟩ | ⟨c, rest, rfl, later⟩
    · cases before <;> cases none
    · have skipped : (piece ++ c :: rest).drop (piece.length + 1) = rest := by simp
      rw [List.map_cons, List.sum_cons, ← List.drop_drop, skipped]
      exact ih later

/-- A blank before a piece does not show once the pieces are trimmed. -/
theorem map_trim_cut_blank {c : Char} (blank : isBlank c = true) (other : separates c = false)
    (s : List Char) : (cut separates (c :: s)).map trim = (cut separates s).map trim := by
  rw [cut, if_neg (by simp [other])]
  split
  · rename_i none
    exact absurd none (cut_ne_nil s)
  · rename_i piece pieces pieced
    rw [pieced, List.map_cons, List.map_cons, trim_blank_cons blank]

end Cutting

end Primer
