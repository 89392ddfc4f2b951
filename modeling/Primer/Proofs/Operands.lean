import Primer.Proofs.Decimal
import Primer.Proofs.Progress

/-! The operands of arithmetic commands. Between its parentheses a command has entries with
commas between them, and each entry is blank or a numeral. Main statement: the operands are
the numbers of the numerals, and an entry that is neither is reported where it stands. -/
namespace Primer

/-- An entry that is neither blank nor a numeral. -/
def Misread (entry : List Char) : Prop := trim entry ≠ [] ∧ ∀ n, ¬ Denotes (trim entry) n

instance (entry : List Char) : Decidable (Misread entry) :=
  decidable_of_iff (trim entry ≠ [] ∧ ¬ IsDigits (splitSign (trim entry)).2) (by simp [Misread, denotes_iff])

/-- The trimmed text of an entry stands after the blanks that the entry starts with. -/
theorem trim_starts (entry : List Char) :
    trim entry <+: entry.drop (entry.takeWhile isBlank).length := by
  have rest : (entry.takeWhile isBlank ++ entry.dropWhile isBlank).drop
      (entry.takeWhile isBlank).length = entry.dropWhile isBlank := List.drop_left
  rw [List.takeWhile_append_dropWhile] at rest
  rw [rest]
  exact List.rdropWhile_prefix isBlank _

/-- Where the trimmed text of an entry stands in a list of entries, whatever comes after it. -/
theorem trim_starts_entries {inner entry : List Char} {before later : List (List Char)}
    (split : cut (· == ',') inner = before ++ entry :: later) (rest : List Char) :
    trim entry <+: (inner ++ rest).drop
      ((before.map (·.length + 1)).sum + (entry.takeWhile isBlank).length) := by
  have whole : inner.drop (before.map (·.length + 1)).sum <+:
      (inner ++ rest).drop (before.map (·.length + 1)).sum := by
    rw [List.drop_append]
    exact List.prefix_append _ _
  rw [← List.drop_drop]
  exact (trim_starts entry).trans (((cut_eq_append split).trans whole).drop _)

/-- The words of entries that are not blank. -/
def tokens (entries : List (List Char)) : List (List Char) :=
  (entries.map trim).filter fun token => !token.isEmpty

theorem tokens_eq_nil {entries : List (List Char)} : tokens entries = [] ↔ ∀ e ∈ entries, trim e = [] := by
  simp [tokens, List.filter_eq_nil_iff]

section Entries
variable (op : Operator) {entries : List (List Char)}

theorem readOperands_step {entry : List Char} (fits : ¬ IsTooLong (trim entry))
    (sound : ¬ Misread entry) (pos : Nat) (entries : List (List Char)) :
    trim entry = [] ∧ readOperands op pos (entry :: entries) =
        readOperands op (pos + entry.length + 1) entries ∨
    ∃ n, trim entry ≠ [] ∧ Denotes (trim entry) n ∧ readOperands op pos (entry :: entries) =
      (readOperands op (pos + entry.length + 1) entries >>= fun ns => .ok (n :: ns)) := by
  by_cases blank : trim entry = []
  · exact .inl ⟨blank, by simp [readOperands, blank]⟩
  · have numeral : ∃ n, Denotes (trim entry) n := by
      by_contra none
      exact sound ⟨blank, fun n denotes => none ⟨n, denotes⟩⟩
    obtain ⟨n, denotes⟩ := numeral
    refine .inr ⟨n, blank, denotes, ?_⟩
    simp [readOperands, blank, denotes.readWhole fits]

theorem readOperands_numbers (fits : ∀ e ∈ entries, ¬ IsTooLong (trim e))
    (sound : ∀ e ∈ entries, ¬ Misread e) (pos : Nat) :
    ∃ ns, readOperands op pos entries = .ok ns ∧ List.Forall₂ Denotes (tokens entries) ns := by
  induction entries generalizing pos with
  | nil => exact ⟨[], rfl, .nil⟩
  | cons entry entries ih =>
    obtain ⟨fit, fits⟩ := List.forall_mem_cons.mp fits
    obtain ⟨first, sound⟩ := List.forall_mem_cons.mp sound
    obtain ⟨ns, read, denote⟩ := ih fits sound (pos + entry.length + 1)
    rcases readOperands_step op fit first pos entries with ⟨blank, step⟩ | ⟨n, some, denotes, step⟩
    · refine ⟨ns, step.trans read, ?_⟩
      rw [tokens, List.map_cons, blank, List.filter_cons_of_neg (by simp)]
      exact denote
    · refine ⟨n :: ns, by rw [step, read, ok_bind], ?_⟩
      rw [tokens, List.map_cons, List.filter_cons_of_pos (by simpa using some)]
      exact .cons denotes denote

theorem readOperands_misread {before : List (List Char)} {entry : List Char}
    (fits : ∀ e ∈ before, ¬ IsTooLong (trim e)) (sound : ∀ e ∈ before, ¬ Misread e)
    (misread : Misread entry) (pos : Nat) (after : List (List Char)) :
    readOperands op pos (before ++ entry :: after) =
      reject (.badOperand op (String.ofList (trim entry)))
        (pos + (before.map (·.length + 1)).sum + (entry.takeWhile isBlank).length) := by
  induction before generalizing pos with
  | nil => simp [readOperands, misread.1, readWhole_of_not_denotes misread.2]
  | cons first before ih =>
    obtain ⟨fit, fits⟩ := List.forall_mem_cons.mp fits
    obtain ⟨whole, sound⟩ := List.forall_mem_cons.mp sound
    have later := ih fits sound (pos + first.length + 1)
    have place : pos + first.length + 1 + (before.map (·.length + 1)).sum =
        pos + ((first :: before).map (·.length + 1)).sum := by
      rw [List.map_cons, List.sum_cons]
      omega
    rw [place] at later
    rw [List.cons_append]
    rcases readOperands_step op fit whole pos (before ++ entry :: after) with
      ⟨-, step⟩ | ⟨n, -, -, step⟩
    · rw [step, later]
    · rw [step, later]
      rfl

end Entries

/-- A character ends a word in any case of its letters. -/
theorem isWordStop_toLower (ch : Char) : isWordStop ch.toLower = isWordStop ch := by
  by_cases upper : 65 ≤ ch.toNat ∧ ch.toNat ≤ 90
  · have letters : ∀ n, 65 ≤ n → n ≤ 90 →
        isWordStop (Char.ofNat n).toLower = isWordStop (Char.ofNat n) := by
      intro n low high
      interval_cases n <;> decide
    have same := letters ch.toNat upper.1 upper.2
    rwa [Char.ofNat_toNat] at same
  · have same : ch.toLower = ch := dif_neg upper
    rw [same]

section Keywords
variable {word : List Char} {op : Operator} (keyword : lower word = op.name.toList)
include keyword

theorem keyword_solid : ∀ ch ∈ word, isWordStop ch = false := by
  intro ch inside
  have letter : ch.toLower ∈ op.name.toList := keyword ▸ List.mem_map_of_mem inside
  have solid : ∀ x ∈ op.name.toList, isWordStop x = false := by
    cases op <;> exact solid_of_all rfl
  rw [← isWordStop_toLower]
  exact solid _ letter

theorem keyword_command : Command.ofWord? word (some '(') = some (.math op) := by
  rw [Command.ofWord?, keyword, String.ofList_toList]
  cases op <;> decide

end Keywords

section Commands
variable (op : Operator) (word : List Char) (start p : Nat) {inner after : List Char}
  (closes : ')' ∉ inner)

theorem readMath_unclosed {rest : List Char} (unclosed : ')' ∉ rest) :
    readMath op word start ⟨p, '(' :: rest⟩ = reject (.unclosedOperands op) p := by
  have none : Cursor.upTo ⟨p, '(' :: rest⟩ ')' = none :=
    Cursor.upTo_none.mpr (by simpa using unclosed)
  simp only [readMath, none]

include closes

theorem readMath_closed :
    readMath op word start ⟨p, '(' :: (inner ++ ')' :: after)⟩ = do
      let operands ← readOperands op (p + 1) (cut (· == ',') inner)
      if operands.isEmpty then reject (.noOperands op) start
      else return (.math op operands (textOf word) (atOffset start), ⟨p + 1 + inner.length + 1, after⟩) := by
  have absent : ')' ∉ '(' :: inner := by simpa using closes
  have found := Cursor.upTo_append absent p after
  have next : Cursor.advance ⟨p + ('(' :: inner).length, ')' :: after⟩ 1 =
      ⟨p + 1 + inner.length + 1, after⟩ := by
    simp [Cursor.advance]
    omega
  rw [List.cons_append] at found
  simp only [readMath, found, next, List.drop_one, List.tail_cons]

variable (fits : ∀ e ∈ cut (· == ',') inner, ¬ IsTooLong (trim e))
include fits

theorem readMath_misread {before later : List (List Char)} {entry : List Char}
    (split : cut (· == ',') inner = before ++ entry :: later) (sound : ∀ e ∈ before, ¬ Misread e)
    (misread : Misread entry) :
    readMath op word start ⟨p, '(' :: (inner ++ ')' :: after)⟩ =
      reject (.badOperand op (String.ofList (trim entry)))
        (p + 1 + (before.map (·.length + 1)).sum + (entry.takeWhile isBlank).length) := by
  have fit : ∀ e ∈ before, ¬ IsTooLong (trim e) :=
    fun e inside => fits e (split ▸ List.mem_append_left _ inside)
  rw [readMath_closed op word start p closes, split, readOperands_misread op fit sound misread]
  rfl

theorem readMath_sound (sound : ∀ e ∈ cut (· == ',') inner, ¬ Misread e) :
    ∃ operands, List.Forall₂ Denotes (tokens (cut (· == ',') inner)) operands ∧
      readMath op word start ⟨p, '(' :: (inner ++ ')' :: after)⟩ =
        if operands = [] then reject (.noOperands op) start
        else .ok (.math op operands (textOf word) (atOffset start), ⟨p + 1 + inner.length + 1, after⟩) := by
  obtain ⟨operands, read, denote⟩ := readOperands_numbers op fits sound (p + 1)
  refine ⟨operands, denote, ?_⟩
  rw [readMath_closed op word start p closes, read, ok_bind]
  simp only [List.isEmpty_iff]
  rfl

theorem readMath_blank (blank : ∀ e ∈ cut (· == ',') inner, trim e = []) :
    readMath op word start ⟨p, '(' :: (inner ++ ')' :: after)⟩ = reject (.noOperands op) start := by
  have sound : ∀ e ∈ cut (· == ',') inner, ¬ Misread e :=
    fun e member misread => misread.1 (blank e member)
  obtain ⟨operands, denote, read⟩ := readMath_sound op word start p closes fits sound
  rw [tokens_eq_nil.mpr blank] at denote
  cases denote
  exact read

theorem readMath_numbers (sound : ∀ e ∈ cut (· == ',') inner, ¬ Misread e)
    (some : ∃ e ∈ cut (· == ',') inner, trim e ≠ []) :
    ∃ operands, List.Forall₂ Denotes (tokens (cut (· == ',') inner)) operands ∧
      readMath op word start ⟨p, '(' :: (inner ++ ')' :: after)⟩ =
        .ok (.math op operands (textOf word) (atOffset start), ⟨p + 1 + inner.length + 1, after⟩) := by
  obtain ⟨operands, denote, read⟩ := readMath_sound op word start p closes fits sound
  have given : operands ≠ [] := by
    rintro rfl
    obtain ⟨e, member, solid⟩ := some
    exact solid (tokens_eq_nil.mp (List.forall₂_nil_right_iff.mp denote) e member)
  rw [if_neg given] at read
  exact ⟨operands, denote, read⟩

end Commands

/-- An arithmetic command is read from its keyword, in any case of the letters, up to the
first closing parenthesis. Without one it is rejected at the opening parenthesis; with an entry
that is neither blank nor a numeral it is rejected at the text of the first such entry; with
blank entries alone it is rejected where it starts. Otherwise its operands are the numbers of
the entries that are not blank, in order. -/
theorem operands_read {source word rest : List Char} {start : Nat} {op : Operator}
    (keyword : lower word = op.name.toList) (here : source.drop start = word ++ '(' :: rest)
    (bound depth : Nat) :
    let p := start + word.length
    let reading := readMath op word start ⟨p, source.drop p⟩
    readStatement (bound + 1) depth ⟨start, source.drop start⟩ = reading ∧
    (')' ∉ rest → reading = reject (.unclosedOperands op) p) ∧
    ∀ inner after, rest = inner ++ ')' :: after → ')' ∉ inner →
      (∀ e ∈ cut (· == ',') inner, ¬ IsTooLong (trim e)) →
      (∀ before entry later, cut (· == ',') inner = before ++ entry :: later →
        (∀ e ∈ before, ¬ Misread e) → Misread entry →
        ∃ t, reading = reject (.badOperand op (String.ofList (trim entry))) t ∧
          (Problem.badOperand op (String.ofList (trim entry))).kind = .malformed ∧
          p < t ∧ (source.drop t).take (trim entry).length = trim entry) ∧
      ((∀ e ∈ cut (· == ',') inner, trim e = []) → reading = reject (.noOperands op) start) ∧
      ((∀ e ∈ cut (· == ',') inner, ¬ Misread e) → (∃ e ∈ cut (· == ',') inner, trim e ≠ []) →
        ∃ operands, List.Forall₂ Denotes (tokens (cut (· == ',') inner)) operands ∧
          reading = .ok (.math op operands (textOf word) (atOffset start),
            ⟨p + 1 + inner.length + 1, source.drop (p + 1 + inner.length + 1)⟩)) := by
  intro p reading
  have opens : source.drop p = '(' :: rest := by
    rw [← List.drop_drop, here, List.drop_left]
  have nonempty : word ≠ [] := by
    rintro rfl
    cases op <;> cases keyword
  have same : reading = readMath op word start ⟨p, '(' :: rest⟩ := by rw [← opens]
  rw [same]
  refine ⟨?_, readMath_unclosed op word start p, ?_⟩
  · rw [here, readStatement]
    exact readStatementWith_word _ depth start (.math op) nonempty (keyword_solid keyword)
      (forall_head_cons rfl) (keyword_command keyword)
  rintro inner after rfl closes fits
  have inside : source.drop (p + 1) = inner ++ ')' :: after := by
    rw [← List.drop_drop, opens, List.drop_one, List.tail_cons]
  have beyond : source.drop (p + 1 + inner.length + 1) = after := by
    rw [Nat.add_assoc (p + 1), ← List.drop_drop, inside]
    simp
  rw [beyond]
  refine ⟨fun before entry later split sound misread => ?_,
    readMath_blank op word start p closes fits, readMath_numbers op word start p closes fits⟩
  refine ⟨_, readMath_misread op word start p closes fits split sound misread, rfl, by omega, ?_⟩
  have stands := trim_starts_entries split (')' :: after)
  rw [← inside, List.drop_drop, ← Nat.add_assoc] at stands
  exact (List.prefix_iff_eq_take.mp stands).symm

/-- An operand that is no number, on the second line and after a blank entry. -/
def operandSample : List Char := "say a\nADD( 1,, x2 ,3)".toList

theorem operands_read_operandSample :
    lower "ADD".toList = Operator.add.name.toList ∧ Misread " x2 ".toList ∧
      ∃ t, readStatement 1 0 ⟨6, operandSample.drop 6⟩ = reject (.badOperand .add "x2") t ∧
        9 < t ∧ (operandSample.drop t).take 2 = "x2".toList := by
  have keyword : lower "ADD".toList = Operator.add.name.toList := by decide
  have misread : Misread " x2 ".toList := by decide
  have here : operandSample.drop 6 = "ADD".toList ++ '(' :: " 1,, x2 ,3)".toList := by decide
  obtain ⟨read, -, closed⟩ := operands_read keyword here 0 0
  obtain ⟨rejected, -⟩ := closed " 1,, x2 ,3".toList [] (by decide) (by decide) (by decide)
  obtain ⟨t, failed, -, later, token⟩ := rejected [" 1".toList, []] " x2 ".toList ["3".toList]
    (by decide) (by decide) misread
  exact ⟨keyword, misread, t, read.trans failed, later, token⟩

end Primer
