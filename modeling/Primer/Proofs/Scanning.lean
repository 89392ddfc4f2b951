import Mathlib.Data.List.Infix
import Primer.Cursor
import Primer.Proofs.Text

/-! What a cursor finds in a text whose next part is known: a run of characters that
are skipped, a word, a line, or the text before a separator. -/
namespace Primer

/-- The next character, if there is one, is not of a class. -/
def Stops (p : Char → Bool) (s : List Char) : Prop := ∀ c ∈ s.head?, p c = false

theorem forall_head_cons {P : Char → Prop} {c : Char} {s : List Char} (here : P c) :
    ∀ x ∈ (c :: s).head?, P x := by
  intro x first
  cases Option.some.inj first
  exact here

theorem stops_cons {p : Char → Bool} {c : Char} {s : List Char} (stop : p c = false) :
    Stops p (c :: s) := forall_head_cons stop

theorem stops_nil {p : Char → Bool} : Stops p [] := by
  intro x first
  cases first

theorem takeWhile_stops {p : Char → Bool} {s : List Char} (stop : Stops p s) :
    s.takeWhile p = [] := by
  cases s with
  | nil => rfl
  | cons c s => simp [stop c rfl]

theorem dropWhile_stops {p : Char → Bool} {s : List Char} (stop : Stops p s) :
    s.dropWhile p = s := by
  cases s with
  | nil => rfl
  | cons c s => simp [stop c rfl]

theorem stops_dropWhile (p : Char → Bool) (s : List Char) : Stops p (s.dropWhile p) := by
  intro c first
  have stop := List.head?_dropWhile_not p s
  rwa [Option.mem_def.mp first] at stop

theorem isBlank_of_isInlineBlank {c : Char} (inline : isInlineBlank c = true) :
    isBlank c = true := by
  simp only [isInlineBlank, Bool.or_eq_true, beq_iff_eq] at inline
  rcases inline with (((rfl | rfl) | rfl) | rfl) | rfl <;> rfl

theorem stops_inline {s : List Char} (stop : Stops isBlank s) : Stops isInlineBlank s := by
  intro c first
  cases inline : isInlineBlank c with
  | false => rfl
  | true => rw [← stop c first, isBlank_of_isInlineBlank inline]

theorem splitAtFirst_append {ch : Char} {before : List Char} (absent : ch ∉ before)
    (rest : List Char) : splitAtFirst ch (before ++ ch :: rest) = some (before, rest) := by
  induction before with
  | nil => simp [splitAtFirst]
  | cons c before ih =>
    have other : c ≠ ch := fun same => absent (same ▸ List.mem_cons_self)
    have later := ih fun inside => absent (List.mem_cons_of_mem c inside)
    simp [splitAtFirst, other, later]

namespace Cursor

theorem skipWhile_append {p : Char → Bool} (pos : Nat) (run : List Char) {rest : List Char}
    (all : ∀ c ∈ run, p c = true) (stop : Stops p rest) :
    skipWhile p ⟨pos, run ++ rest⟩ = ⟨pos + run.length, rest⟩ := by
  simp only [skipWhile, List.takeWhile_append_of_pos all, List.dropWhile_append_of_pos all,
    takeWhile_stops stop, dropWhile_stops stop, List.append_nil]

theorem skipBlanks_stops {rest : List Char} (pos : Nat) (stop : Stops isBlank rest) :
    skipBlanks ⟨pos, rest⟩ = ⟨pos, rest⟩ :=
  skipWhile_append pos [] (by simp) stop

theorem skipBlanks_newline {rest : List Char} (pos : Nat) (stop : Stops isBlank rest) :
    skipBlanks ⟨pos, '\n' :: rest⟩ = ⟨pos + 1, rest⟩ :=
  skipWhile_append pos ['\n'] (List.forall_mem_singleton.mpr rfl) stop

theorem skipBlanks_space {rest : List Char} (pos : Nat) (stop : Stops isBlank rest) :
    skipBlanks ⟨pos, ' ' :: rest⟩ = ⟨pos + 1, rest⟩ :=
  skipWhile_append pos [' '] (List.forall_mem_singleton.mpr rfl) stop

theorem skipInlineBlanks_stops {rest : List Char} (pos : Nat) (stop : Stops isInlineBlank rest) :
    skipInlineBlanks ⟨pos, rest⟩ = ⟨pos, rest⟩ :=
  skipWhile_append pos [] (by simp) stop

theorem skipInlineBlanks_space {rest : List Char} (pos : Nat) (stop : Stops isInlineBlank rest) :
    skipInlineBlanks ⟨pos, ' ' :: rest⟩ = ⟨pos + 1, rest⟩ :=
  skipWhile_append pos [' '] (by simp [isInlineBlank]) stop

section Words
variable {name rest : List Char} (solid : ∀ c ∈ name, isWordStop c = false)
  (stop : ∀ c ∈ rest.head?, isWordStop c = true) (pos : Nat)
include solid stop

theorem word_append : word ⟨pos, name ++ rest⟩ = name := by
  have all : ∀ c ∈ name, (!isWordStop c) = true := fun c inside => by simp [solid c inside]
  have ends : Stops (fun c => !isWordStop c) rest := fun c first => by simp [stop c first]
  simp only [word, List.takeWhile_append_of_pos all, takeWhile_stops ends, List.append_nil]

theorem afterWord_append : afterWord ⟨pos, name ++ rest⟩ = ⟨pos + name.length, rest⟩ :=
  skipWhile_append pos name (fun c inside => by simp [solid c inside])
    (fun c first => by simp [stop c first])

end Words

theorem advance_append (pos : Nat) (run rest : List Char) :
    advance ⟨pos, run ++ rest⟩ run.length = ⟨pos + run.length, rest⟩ := by
  simp [advance]

theorem upTo_append {ch : Char} {before : List Char} (absent : ch ∉ before) (pos : Nat)
    (rest : List Char) :
    upTo ⟨pos, before ++ ch :: rest⟩ ch = some (before, ⟨pos + before.length, ch :: rest⟩) := by
  simp only [upTo, splitAtFirst_append absent, Option.map_some, advance_append]

end Cursor

/-- A text in which no brace closes more than was opened before it in the text. -/
def ClosesNothing (s : List Char) : Prop := ∀ p, p <+: s → p.count '}' ≤ p.count '{'

instance (s : List Char) : Decidable (ClosesNothing s) :=
  decidable_of_iff (∀ p ∈ s.inits, p.count '}' ≤ p.count '{') (by simp only [ClosesNothing, List.mem_inits])

theorem closesNothing_cons {c : Char} (other : c ≠ '}') {s : List Char} (closed : ClosesNothing s) :
    ClosesNothing (c :: s) := by
  intro p inside
  cases p with
  | nil => simp
  | cons x p =>
    obtain ⟨rfl, tail⟩ := List.cons_prefix_cons.mp inside
    have bound := closed p tail
    rw [List.count_cons_of_ne other, List.count_cons]
    omega

theorem closesNothing_append {a s : List Char} (none : '}' ∉ a) (closed : ClosesNothing s) :
    ClosesNothing (a ++ s) := by
  induction a with
  | nil => exact closed
  | cons c a ih =>
    have other : c ≠ '}' := fun same => none (same ▸ List.mem_cons_self)
    exact closesNothing_cons other (ih fun inside => none (List.mem_cons_of_mem c inside))

theorem closesNothing_concat {c : Char} (other : c ≠ '}') {s : List Char}
    (closed : ClosesNothing s) : ClosesNothing (s ++ [c]) := by
  intro p inside
  rcases List.prefix_concat_iff.mp inside with rfl | shorter
  · have bound := closed s List.prefix_rfl
    rw [List.count_append, List.count_append, List.count_singleton, List.count_singleton]
    simp only [beq_iff_eq, other, if_false]
    omega
  · exact closed p shorter

/-- A line ends at its newline. In a block it does so only if, counting the braces
that are open before, no brace on the line closes more than is open. -/
theorem lineSegment_append {inBlock : Bool} {s : List Char} (depth : Nat) (oneLine : '\n' ∉ s)
    (closed : inBlock = true → ∀ p, p <+: s → p.count '}' ≤ depth + p.count '{')
    (rest : List Char) : lineSegment inBlock depth (s ++ '\n' :: rest) = s := by
  induction s generalizing depth with
  | nil => simp [lineSegment]
  | cons c s ih =>
    have head : c ≠ '\n' := fun same => oneLine (same ▸ List.mem_cons_self)
    have tail : '\n' ∉ s := fun inside => oneLine (List.mem_cons_of_mem c inside)
    rw [List.cons_append]
    unfold lineSegment
    rw [if_neg head]
    cases inBlock with
    | false => simp [ih depth tail]
    | true =>
      have prefixes : ∀ p, p <+: s → (c :: p).count '}' ≤ depth + (c :: p).count '{' :=
        fun p inside => closed rfl (c :: p) (List.cons_prefix_cons.mpr ⟨rfl, inside⟩)
      by_cases opens : c = '{'
      · have deeper : ∀ p, p <+: s → p.count '}' ≤ (depth + 1) + p.count '{' := by
          intro p inside
          have bound := prefixes p inside
          simp [opens] at bound
          omega
        simp [opens, ih (depth + 1) tail fun _ => deeper]
      · by_cases closes : c = '}'
        · have first := prefixes [] List.nil_prefix
          simp [closes] at first
          obtain ⟨outer, rfl⟩ := Nat.exists_eq_succ_of_ne_zero (Nat.pos_iff_ne_zero.mp first)
          have shallower : ∀ p, p <+: s → p.count '}' ≤ outer + p.count '{' := by
            intro p inside
            have bound := prefixes p inside
            simp [closes] at bound
            omega
          simp [closes, ih outer tail fun _ => shallower]
        · have same : ∀ p, p <+: s → p.count '}' ≤ depth + p.count '{' := by
            intro p inside
            have bound := prefixes p inside
            simp [opens, closes] at bound
            exact bound
          simp [opens, closes, ih depth tail fun _ => same]

theorem Cursor.line_append {inBlock : Bool} {s : List Char} (oneLine : '\n' ∉ s)
    (closed : inBlock = true → ClosesNothing s) (pos : Nat) (rest : List Char) :
    Cursor.line ⟨pos, s ++ '\n' :: rest⟩ inBlock = s :=
  lineSegment_append 0 oneLine (fun inside p => by simpa using closed inside p) rest

theorem Cursor.afterLine_append {inBlock : Bool} {s : List Char} (oneLine : '\n' ∉ s)
    (closed : inBlock = true → ClosesNothing s) (pos : Nat) (rest : List Char) :
    Cursor.afterLine ⟨pos, s ++ '\n' :: rest⟩ inBlock = ⟨pos + s.length, '\n' :: rest⟩ := by
  rw [afterLine, line_append oneLine closed, advance_append]

end Primer
