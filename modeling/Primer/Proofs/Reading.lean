import Primer.Proofs.Results
import Primer.Proofs.Scanning

/-! Single steps of the readers, for a cursor whose next character or word is known. -/
namespace Primer

theorem not_blank_of_solid {c : Char} (solid : isWordStop c = false) : isBlank c = false := by
  simp only [isWordStop, Bool.or_eq_false_iff] at solid
  exact solid.1.1.1

theorem solid_of_all {word : List Char} (all : word.all (fun ch => !isWordStop ch) = true) :
    ∀ ch ∈ word, isWordStop ch = false := by
  intro ch inside
  simpa using List.all_eq_true.mp all ch inside

section Steps
variable {c : Cursor}

theorem readUntilClose_close (read : Cursor → Reading (Node × Cursor)) (opened bound : Nat)
    (here : c.skipBlanks.peek = some '}') :
    readUntilClose read opened (bound + 1) c = .ok ([], c.skipBlanks.advance 1) := by
  simp only [readUntilClose, here]

theorem readUntilClose_next (read : Cursor → Reading (Node × Cursor)) (opened bound : Nat)
    {ch : Char} (here : c.skipBlanks.peek = some ch) (other : ch ≠ '}') :
    readUntilClose read opened (bound + 1) c = do
      let (node, c) ← read c.skipBlanks
      let (nodes, c) ← readUntilClose read opened bound c
      return (node :: nodes, c) := by
  simp only [readUntilClose, here]

theorem readUntilEnd_next (read : Cursor → Reading (Node × Cursor)) (bound : Nat) {ch : Char}
    (here : c.skipBlanks.peek = some ch) :
    readUntilEnd read (bound + 1) c = do
      let (node, c) ← read c.skipBlanks
      return node :: (← readUntilEnd read bound c) := by
  have more : c.skipBlanks.atEnd = false := by
    cases rest : c.skipBlanks.rest with
    | nil => simp [Cursor.peek, rest] at here
    | cons x xs => simp [Cursor.atEnd, rest]
  simp only [readUntilEnd, more]
  rfl

theorem readStatementWith_open (read : StatementReader) (depth : Nat)
    (here : c.skipBlanks.peek = some '{') :
    readStatementWith read depth c = readBlock read depth c.skipBlanks := by
  simp only [readStatementWith, here]

/-- The reader that goes on after the word of a command. -/
def readCommand (read : StatementReader) (depth start : Nat) (word : List Char) (c : Cursor) :
    Command → Reading (Node × Cursor)
  | .say => readSay depth start c
  | .define => readDefine read depth start c
  | .call => readCall depth start c
  | .loop => readLoop read depth start c
  | .branch => readBranch read depth (c.rest.length + 1) start c
  | .assign => readAssign depth start c
  | .math op => readMath op word start c

/-- The statement at a cursor starts with the word of a command. -/
def Cursor.HasCommand (c : Cursor) (command : Command) : Prop :=
  Command.ofWord? c.word c.afterWord.peek = some command

theorem word_eq_nil {ch : Char} (here : c.peek = some ch) (stop : isWordStop ch = true) :
    c.word = [] := by
  obtain ⟨pos, rest⟩ := c
  cases rest with
  | nil => cases here
  | cons x rest =>
    cases Option.some.inj here
    simp [Cursor.word, stop]

theorem HasCommand.word_ne_nil {command : Command} (named : c.HasCommand command) : c.word ≠ [] := by
  intro empty
  have none : ∀ next, Command.ofWord? [] next = none := fun next => ite_self none
  rw [Cursor.HasCommand, empty, none] at named
  cases named

/-- The word of a command, in lower case. -/
def Command.word : Command → String
  | .say => "say"
  | .define => "function"
  | .call => "call"
  | .loop => "repeat"
  | .branch => "if"
  | .assign => "set"
  | .math op => op.name

theorem lower_of_eq {word : List Char} {name : String} (same : String.ofList (lower word) = name) :
    lower word = name.toList := by
  rw [← same, String.toList_ofList]

theorem Command.lower_word {word : List Char} {next : Option Char} {command : Command}
    (named : ofWord? word next = some command) : lower word = command.word.toList := by
  unfold ofWord? at named
  split at named
  case h_7 =>
    split at named
    · obtain ⟨op, found, rfl⟩ := Option.map_eq_some_iff.mp named
      have same : op.name = String.ofList (lower word) := by simpa using List.find?_some found
      exact lower_of_eq same.symm
    · cases named
  all_goals
    rename_i same
    cases named
    exact lower_of_eq same

/-- An operator is a command only before a parenthesis. -/
theorem Command.ofWord?_math {word : List Char} {next : Option Char} {op : Operator}
    (named : ofWord? word next = some (.math op)) : next = some '(' := by
  unfold ofWord? at named
  split at named
  case h_7 =>
    split at named
    · assumption
    · cases named
  all_goals cases named

theorem readStatementWith_command (read : StatementReader) (depth : Nat) {command : Command}
    (named : c.skipBlanks.HasCommand command) :
    readStatementWith read depth c = readCommand read depth c.skipBlanks.pos c.skipBlanks.word
      c.skipBlanks.afterWord command := by
  have nonempty := HasCommand.word_ne_nil named
  have shown : c.skipBlanks.word.isEmpty = false := List.isEmpty_eq_false_iff.mpr nonempty
  rw [Cursor.HasCommand] at named
  simp only [readStatementWith]
  split
  · rename_i here
    exact absurd (word_eq_nil here rfl) nonempty
  · rename_i here
    exact absurd (word_eq_nil here rfl) nonempty
  · simp only [shown, named]
    cases command <;> rfl

/-- A statement that starts neither with a brace nor with a command is rejected. -/
theorem readStatementWith_other (read : StatementReader) (depth : Nat)
    (noBrace : c.skipBlanks.peek ≠ some '{') (unnamed : ∀ command, ¬ c.skipBlanks.HasCommand command) :
    ∃ p offset, readStatementWith read depth c = .error (.problem p offset) := by
  simp only [readStatementWith]
  split
  · rename_i here
    exact absurd here noBrace
  · exact ⟨_, _, rfl⟩
  · split
    · exact ⟨_, _, rfl⟩
    · split
      case h_8 => exact ⟨_, _, rfl⟩
      all_goals
        rename_i named
        exact absurd named (unnamed _)

theorem readStatementWith_word (read : StatementReader) (depth pos : Nat) {word rest : List Char}
    (command : Command) (nonempty : word ≠ []) (solid : ∀ ch ∈ word, isWordStop ch = false)
    (stop : ∀ ch ∈ rest.head?, isWordStop ch = true)
    (named : Command.ofWord? word rest.head? = some command) :
    readStatementWith read depth ⟨pos, word ++ rest⟩ =
      readCommand read depth pos word ⟨pos + word.length, rest⟩ command := by
  obtain ⟨first, others, rfl⟩ := List.exists_cons_of_ne_nil nonempty
  have letter := solid first List.mem_cons_self
  have here : Cursor.skipBlanks ⟨pos, (first :: others) ++ rest⟩ = ⟨pos, (first :: others) ++ rest⟩ :=
    Cursor.skipBlanks_stops pos (stops_cons (not_blank_of_solid letter))
  have word := Cursor.word_append solid stop pos
  have after := Cursor.afterWord_append solid stop pos
  have command : Cursor.HasCommand (Cursor.skipBlanks ⟨pos, (first :: others) ++ rest⟩) command := by
    rw [Cursor.HasCommand, here, word, after]
    exact named
  rw [readStatementWith_command read depth command, here, word, after]

end Steps
end Primer
