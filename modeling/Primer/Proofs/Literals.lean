import Primer.Proofs.Reading

/-! Which literals the reading of a source comes to. A statement may convert a literal of
its own, open blocks, and read the statements in them; a fault of reading is that of a
literal which is come to in this way. -/
namespace Primer

/-- Reading statements in turn comes to one of them, `bound` of them at most. -/
inductive Visits (read : Cursor → Reading (Node × Cursor)) (goesOn : Cursor → Prop) :
    Nat → Cursor → Cursor → Prop
  | here {bound : Nat} {c : Cursor} : goesOn c.skipBlanks →
      Visits read goesOn (bound + 1) c c.skipBlanks
  | next {bound : Nat} {c after target : Cursor} {node : Node} : goesOn c.skipBlanks →
      read c.skipBlanks = .ok (node, after) → Visits read goesOn bound after target →
      Visits read goesOn (bound + 1) c target

/-- The next character is not the end of a block or of the source. -/
def Cursor.InBlock (c : Cursor) : Prop := ∃ ch, c.peek = some ch ∧ ch ≠ '}'

theorem readUntilClose_fault {read : Cursor → Reading (Node × Cursor)} {opened bound : Nat}
    {c : Cursor} {f : Fault} :
    readUntilClose read opened bound c = .error (.fault f) ↔
      ∃ target, Visits read Cursor.InBlock bound c target ∧ read target = .error (.fault f) := by
  induction bound generalizing c with
  | zero =>
    constructor
    · rintro ⟨⟩
    · rintro ⟨_, ⟨⟩, _⟩
  | succ bound ih =>
    constructor
    · intro failed
      by_cases more : c.skipBlanks.InBlock
      · obtain ⟨ch, here, other⟩ := more
        rw [readUntilClose_next read opened bound here other] at failed
        rcases bind_eq_error.mp failed with first | ⟨⟨node, after⟩, first, failed⟩
        · exact ⟨_, .here ⟨ch, here, other⟩, first⟩
        · rcases bind_eq_error.mp failed with later | ⟨_, _, done⟩
          · obtain ⟨target, visits, stops⟩ := ih.mp later
            exact ⟨target, .next ⟨ch, here, other⟩ first visits, stops⟩
          · cases done
      · -- at the end of the source, or of the block, nothing more is read
        exfalso
        cases here : c.skipBlanks.peek with
        | none => simp [readUntilClose, here, reject] at failed
        | some ch =>
          by_cases close : ch = '}'
          · subst close
            rw [readUntilClose_close read opened bound here] at failed
            cases failed
          · exact more ⟨ch, here, close⟩
    · rintro ⟨target, visits, stops⟩
      cases visits with
      | here more =>
        obtain ⟨ch, here, other⟩ := more
        rw [readUntilClose_next read opened bound here other, stops]
        rfl
      | next more first visits =>
        obtain ⟨ch, here, other⟩ := more
        rw [readUntilClose_next read opened bound here other, first, ok_bind]
        simp only [ih.mpr ⟨target, visits, stops⟩, error_bind]

theorem readUntilEnd_fault {read : Cursor → Reading (Node × Cursor)} {bound : Nat} {c : Cursor}
    {f : Fault} :
    readUntilEnd read bound c = .error (.fault f) ↔
      ∃ target, Visits read (·.atEnd = false) bound c target ∧ read target = .error (.fault f) := by
  induction bound generalizing c with
  | zero =>
    constructor
    · rintro ⟨⟩
    · rintro ⟨_, ⟨⟩, _⟩
  | succ bound ih =>
    constructor
    · intro failed
      simp only [readUntilEnd] at failed
      split at failed
      · cases failed
      · rename_i more
        have more : c.skipBlanks.atEnd = false := by simpa using more
        rcases bind_eq_error.mp failed with first | ⟨⟨node, after⟩, first, failed⟩
        · exact ⟨_, .here more, first⟩
        · rcases bind_eq_error.mp failed with later | ⟨_, _, done⟩
          · obtain ⟨target, visits, stops⟩ := ih.mp later
            exact ⟨target, .next more first visits, stops⟩
          · cases done
    · rintro ⟨target, visits, stops⟩
      cases visits with
      | here more =>
        simp only [readUntilEnd, more, stops]
        rfl
      | next more first visits =>
        simp only [readUntilEnd, more, first, ok_bind, ih.mpr ⟨target, visits, stops⟩]
        rfl

section Statements
variable {read : StatementReader} {depth start : Nat} {c : Cursor} {f : Fault}

theorem readBlock_fault :
    readBlock read depth c = .error (.fault f) ↔
      ∃ target, Visits (read (depth + 1)) Cursor.InBlock (c.rest.length + 1) (c.advance 1) target ∧
        read (depth + 1) target = .error (.fault f) := by
  rw [readBlock, bind_eq_error, readUntilClose_fault]
  simp

theorem expectBlock_fault {what : String} :
    expectBlock read what depth c = .error (.fault f) ↔
      c.skipBlanks.peek = some '{' ∧ readBlock read depth c.skipBlanks = .error (.fault f) := by
  simp only [expectBlock]
  split
  · rename_i here
    simp [here]
  · rename_i other
    simp [other, reject]

/-- A conditional, read from the text after its keyword on, comes to a block. -/
inductive BranchOpens (read : StatementReader) (depth : Nat) : Nat → Cursor → Cursor → Prop
  | yes {bound : Nat} {c brace : Cursor} {text : List Char} :
      c.skipInlineBlanks.upTo '{' = some (text, brace) → trim text ≠ [] →
      BranchOpens read depth (bound + 1) c brace
  | no {bound : Nat} {c brace after : Cursor} {text : List Char} {yes : Node} :
      c.skipInlineBlanks.upTo '{' = some (text, brace) → trim text ≠ [] →
      readBlock read depth brace = .ok (yes, after) → lower after.nextWord = ['e', 'l', 's', 'e'] →
      lower after.skipBlanks.afterWord.nextWord ≠ ['i', 'f'] →
      after.skipBlanks.afterWord.skipBlanks.peek = some '{' →
      BranchOpens read depth (bound + 1) c after.skipBlanks.afterWord.skipBlanks
  | elseIf {bound : Nat} {c brace after target : Cursor} {text : List Char} {yes : Node} :
      c.skipInlineBlanks.upTo '{' = some (text, brace) → trim text ≠ [] →
      readBlock read depth brace = .ok (yes, after) → lower after.nextWord = ['e', 'l', 's', 'e'] →
      lower after.skipBlanks.afterWord.nextWord = ['i', 'f'] →
      BranchOpens read depth bound after.skipBlanks.afterWord.skipBlanks.afterWord target →
      BranchOpens read depth (bound + 1) c target

theorem readBranch_fault {bound : Nat} :
    readBranch read depth bound start c = .error (.fault f) ↔
      ∃ brace, BranchOpens read depth bound c brace ∧
        readBlock read depth brace = .error (.fault f) := by
  induction bound generalizing start c with
  | zero =>
    constructor
    · rintro ⟨⟩
    · rintro ⟨_, ⟨⟩, _⟩
  | succ bound ih =>
    constructor
    · intro failed
      simp only [readBranch] at failed
      split at failed
      · cases failed
      · rename_i text brace found
        split at failed
        · cases failed
        · rename_i shown
          have shown : trim text ≠ [] := by simpa using shown
          rcases bind_eq_error.mp failed with first | ⟨⟨yes, after⟩, first, failed⟩
          · exact ⟨brace, .yes found shown, first⟩
          · simp only at failed
            split at failed
            · rename_i isElse
              split at failed
              · rename_i isIf
                rcases bind_eq_error.mp failed with later | ⟨_, _, done⟩
                · obtain ⟨target, opens, stops⟩ := ih.mp later
                  exact ⟨target, .elseIf found shown first isElse isIf opens, stops⟩
                · cases done
              · rename_i noIf
                rcases bind_eq_error.mp failed with later | ⟨_, _, done⟩
                · obtain ⟨here, stops⟩ := expectBlock_fault.mp later
                  exact ⟨_, .no found shown first isElse noIf here, stops⟩
                · cases done
            · cases failed
    · rintro ⟨target, opens, stops⟩
      cases opens with
      | yes found shown =>
        have shown : (trim _).isEmpty = false := List.isEmpty_eq_false_iff.mpr shown
        simp only [readBranch, found, shown, stops]
        rfl
      | no found shown first isElse noIf here =>
        have shown : (trim _).isEmpty = false := List.isEmpty_eq_false_iff.mpr shown
        have later : expectBlock read "else" depth _ = .error (.fault f) :=
          expectBlock_fault.mpr ⟨here, stops⟩
        simp only [readBranch, found, shown, first, ok_bind, isElse, if_true, if_neg noIf, later]
        rfl
      | elseIf found shown first isElse isIf opens =>
        have shown : (trim _).isEmpty = false := List.isEmpty_eq_false_iff.mpr shown
        simp only [readBranch, found, shown, first, ok_bind, isElse, isIf, if_true,
          ih.mpr ⟨target, opens, stops⟩]
        rfl

theorem readEntries_not_fault {what : String} : readEntries what c ≠ .error (.fault f) := by
  intro failed
  unfold readEntries at failed
  split at failed
  · cases failed
  · simp only at failed
    split at failed
    · cases failed
    · split at failed <;> cases failed

theorem readParams_not_fault {name : List Char} : readParams name c ≠ .error (.fault f) := by
  intro failed
  unfold readParams at failed
  split at failed
  · exact readEntries_not_fault failed
  · split at failed <;> cases failed

theorem readCall_not_fault : readCall depth start c ≠ .error (.fault f) := by
  intro failed
  simp only [readCall] at failed
  split at failed
  · cases failed
  · split at failed
    · rcases bind_eq_error.mp failed with entries | ⟨_, _, done⟩
      · exact readEntries_not_fault entries
      · cases done
    · cases failed

/-- A command, read from the text after its word on, comes to a block. -/
inductive Opens (read : StatementReader) (depth : Nat) (c : Cursor) : Command → Cursor → Prop
  | define {entries : List (List Char)} {after : Cursor} : c.skipInlineBlanks.word ≠ [] →
      readParams c.skipInlineBlanks.word c.skipInlineBlanks.afterWord.skipInlineBlanks =
        .ok (entries, after) →
      (∀ e ∈ entries, dropDollar e ≠ []) → after.skipBlanks.peek = some '{' →
      Opens read depth c .define after.skipBlanks
  | loop {count : Int} : readWhole c.skipInlineBlanks.word = .ok (some count) →
      c.skipInlineBlanks.afterWord.skipBlanks.peek = some '{' →
      Opens read depth c .loop c.skipInlineBlanks.afterWord.skipBlanks
  | branch {brace : Cursor} : BranchOpens read depth (c.rest.length + 1) c brace →
      Opens read depth c .branch brace

/-- A command, read from the text after its word on, comes to convert a literal. -/
inductive Converts (depth : Nat) (c : Cursor) : Command → List Char → Prop
  | count : Converts depth c .loop c.skipInlineBlanks.word
  | value {before after : List Char} :
      splitAtFirst '=' (c.skipInlineBlanks.line (decide (0 < depth))) = some (before, after) →
      dropDollar (trim before) ≠ [] →
      Converts depth c .assign
        (trim ((c.skipInlineBlanks.advance (before.length + 1)).line (decide (0 < depth))))
  | operand {op : Operator} {text entry : List Char} {close : Cursor}
      {before after : List (List Char)} : c.upTo ')' = some (text, close) →
      cut (· == ',') (text.drop 1) = before ++ entry :: after →
      (∀ e ∈ before, trim e = [] ∨ ∃ n, readWhole (trim e) = .ok (some n)) →
      Converts depth c (.math op) (trim entry)

theorem readDefine_fault :
    readDefine read depth start c = .error (.fault f) ↔
      ∃ brace, Opens read depth c .define brace ∧ readBlock read depth brace = .error (.fault f) := by
  constructor
  · intro failed
    simp only [readDefine] at failed
    split at failed
    · cases failed
    · rename_i named
      rcases bind_eq_error.mp failed with params | ⟨⟨entries, after⟩, params, failed⟩
      · exact absurd params readParams_not_fault
      · simp only at failed
        split at failed
        · cases failed
        · rename_i full
          rcases bind_eq_error.mp failed with block | ⟨_, _, done⟩
          · obtain ⟨here, stops⟩ := expectBlock_fault.mp block
            refine ⟨_, .define (by simpa using named) params ?_ here, stops⟩
            simpa using full
          · cases done
  · rintro ⟨brace, opens, stops⟩
    cases opens with
    | @define entries after named params full here =>
      have block : ∀ what, expectBlock read what depth after = .error (.fault f) :=
        fun _ => expectBlock_fault.mpr ⟨here, stops⟩
      have named : c.skipInlineBlanks.word.isEmpty = false := List.isEmpty_eq_false_iff.mpr named
      have full : (entries.map dropDollar).any (·.isEmpty) = false := by simpa using full
      simp only [readDefine, named, params, ok_bind, full, block]
      rfl

theorem readLoop_fault :
    readLoop read depth start c = .error (.fault f) ↔
      (∃ s, Converts depth c .loop s ∧ readWhole s = .error f) ∨
      ∃ brace, Opens read depth c .loop brace ∧ readBlock read depth brace = .error (.fault f) := by
  constructor
  · intro failed
    rcases bind_eq_error.mp failed with number | ⟨count, number, failed⟩
    · exact .inl ⟨_, .count, orFault_eq_fault.mp number⟩
    · cases count with
      | none => cases failed
      | some count =>
        rcases bind_eq_error.mp failed with block | ⟨_, _, done⟩
        · obtain ⟨here, stops⟩ := expectBlock_fault.mp block
          exact .inr ⟨_, .loop (orFault_eq_ok.mp number) here, stops⟩
        · cases done
  · rintro (⟨s, ⟨⟩, long⟩ | ⟨brace, ⟨⟩, stops⟩)
    · simp only [readLoop, long, orFault_error, error_bind]
    · rename_i count number here
      have block : expectBlock read "repeat" depth _ = .error (.fault f) :=
        expectBlock_fault.mpr ⟨here, stops⟩
      simp only [readLoop, number, orFault_ok, ok_bind, block, error_bind]

theorem literal_error {s : List Char} : literal s = .error f ↔ readWhole s = .error f := by
  rw [literal, bind_eq_error]
  constructor
  · rintro (long | ⟨number, _, done⟩)
    · exact long
    · cases number <;> cases done
  · exact .inl

theorem readAssign_fault :
    readAssign depth start c = .error (.fault f) ↔
      ∃ s, Converts depth c .assign s ∧ readWhole s = .error f := by
  constructor
  · intro failed
    simp only [readAssign] at failed
    split at failed
    · cases failed
    · rename_i before after found
      split at failed
      · cases failed
      · rename_i named
        rcases bind_eq_error.mp failed with value | ⟨_, _, done⟩
        · exact ⟨_, .value found (by simpa using named), literal_error.mp (orFault_eq_fault.mp value)⟩
        · cases done
  · rintro ⟨s, ⟨⟩, long⟩
    rename_i before after found named
    have named : (dropDollar (trim before)).isEmpty = false := List.isEmpty_eq_false_iff.mpr named
    simp only [readAssign, found, named, literal_error.mpr long, orFault_error, error_bind]
    rfl

theorem readOperands_fault {op : Operator} {pos : Nat} {entries : List (List Char)} :
    readOperands op pos entries = .error (.fault f) ↔ ∃ before entry after,
      entries = before ++ entry :: after ∧
      (∀ e ∈ before, trim e = [] ∨ ∃ n, readWhole (trim e) = .ok (some n)) ∧
      readWhole (trim entry) = .error f := by
  induction entries generalizing pos with
  | nil => simp [readOperands]
  | cons first entries ih =>
    constructor
    · intro failed
      simp only [readOperands] at failed
      split at failed
      · rename_i blank
        obtain ⟨before, entry, after, rfl, passed, long⟩ := ih.mp failed
        exact ⟨first :: before, entry, after, rfl,
          List.forall_mem_cons.mpr ⟨.inl (by simpa using blank), passed⟩, long⟩
      · rcases bind_eq_error.mp failed with number | ⟨number, read, failed⟩
        · exact ⟨[], first, entries, rfl, by simp, orFault_eq_fault.mp number⟩
        · cases number with
          | none => cases failed
          | some n =>
            rcases bind_eq_error.mp failed with later | ⟨_, _, done⟩
            · obtain ⟨before, entry, after, rfl, passed, long⟩ := ih.mp later
              exact ⟨first :: before, entry, after, rfl,
                List.forall_mem_cons.mpr ⟨.inr ⟨n, orFault_eq_ok.mp read⟩, passed⟩, long⟩
            · cases done
    · rintro ⟨before, entry, after, split, passed, long⟩
      cases before with
      | nil =>
        cases split
        have some : (trim first).isEmpty = false := by
          rw [List.isEmpty_eq_false_iff]
          intro empty
          rw [empty] at long
          cases long
        simp only [readOperands, some, long, orFault_error, error_bind]
        rfl
      | cons _ before =>
        rw [List.cons_append] at split
        obtain ⟨rfl, rfl⟩ := List.cons.inj split
        obtain ⟨here, others⟩ := List.forall_mem_cons.mp passed
        have later : ∀ pos, readOperands op pos (before ++ entry :: after) = .error (.fault f) :=
          fun _ => ih.mpr ⟨before, entry, after, rfl, others, long⟩
        simp only [readOperands, later]
        split
        · rfl
        · rename_i shown
          obtain ⟨n, read⟩ := here.resolve_left (by simpa using shown)
          simp only [read, orFault_ok, ok_bind, error_bind]

theorem readMath_fault {op : Operator} {keyword : List Char} :
    readMath op keyword start c = .error (.fault f) ↔
      ∃ s, Converts depth c (.math op) s ∧ readWhole s = .error f := by
  constructor
  · intro failed
    unfold readMath at failed
    split at failed
    · cases failed
    · rename_i text close found
      rcases bind_eq_error.mp failed with operands | ⟨ns, _, done⟩
      · obtain ⟨before, entry, after, split, passed, long⟩ := readOperands_fault.mp operands
        exact ⟨_, .operand found split passed, long⟩
      · split at done <;> cases done
  · rintro ⟨s, ⟨⟩, long⟩
    rename_i before after found split passed
    have operands : readOperands op (c.pos + 1) _ = .error (.fault f) :=
      readOperands_fault.mpr ⟨before, _, after, split, passed, long⟩
    simp only [readMath, found, operands, error_bind]

theorem readCommand_fault {word : List Char} {command : Command} :
    readCommand read depth start word c command = .error (.fault f) ↔
      (∃ s, Converts depth c command s ∧ readWhole s = .error f) ∨
      ∃ brace, Opens read depth c command brace ∧ readBlock read depth brace = .error (.fault f) := by
  cases command with
  | say =>
    refine iff_of_false nofun ?_
    rintro (⟨_, ⟨⟩, _⟩ | ⟨_, ⟨⟩, _⟩)
  | call =>
    refine iff_of_false readCall_not_fault ?_
    rintro (⟨_, ⟨⟩, _⟩ | ⟨_, ⟨⟩, _⟩)
  | loop => exact readLoop_fault
  | define =>
    refine readDefine_fault.trans (or_iff_right ?_).symm
    rintro ⟨_, ⟨⟩, _⟩
  | branch =>
    refine readBranch_fault.trans (Iff.trans ?_ (or_iff_right ?_).symm)
    · constructor
      · rintro ⟨brace, opens, stops⟩
        exact ⟨brace, .branch opens, stops⟩
      · rintro ⟨brace, opens, stops⟩
        cases opens with
        | branch opens => exact ⟨brace, opens, stops⟩
    · rintro ⟨_, ⟨⟩, _⟩
  | assign =>
    refine readAssign_fault.trans (or_iff_left ?_).symm
    rintro ⟨_, ⟨⟩, _⟩
  | math op =>
    refine readMath_fault.trans (or_iff_left ?_).symm
    rintro ⟨_, ⟨⟩, _⟩

/-- Reading the statement at a cursor converts a literal of its own. -/
def ConvertsAt (depth : Nat) (c : Cursor) (s : List Char) : Prop :=
  ∃ command, c.HasCommand command ∧ Converts depth c.afterWord command s

/-- Reading the statement at a cursor comes to a block of its own. -/
def OpensAt (read : StatementReader) (depth : Nat) (c brace : Cursor) : Prop :=
  c.peek = some '{' ∧ brace = c ∨
    ∃ command, c.HasCommand command ∧ Opens read depth c.afterWord command brace

/-- Reading the statement at a cursor comes to a statement nested in it. -/
def Nests (read : StatementReader) (depth : Nat) (c target : Cursor) : Prop :=
  ∃ brace, OpensAt read depth c brace ∧
    Visits (read (depth + 1)) Cursor.InBlock (brace.rest.length + 1) (brace.advance 1) target

theorem readStatementWith_fault :
    readStatementWith read depth c = .error (.fault f) ↔
      (∃ s, ConvertsAt depth c.skipBlanks s ∧ readWhole s = .error f) ∨
      ∃ brace, OpensAt read depth c.skipBlanks brace ∧
        readBlock read depth brace = .error (.fault f) := by
  by_cases named : ∃ command, c.skipBlanks.HasCommand command
  · obtain ⟨command, named⟩ := named
    have unique : ∀ {other}, c.skipBlanks.HasCommand other → other = command := by
      intro other also
      rw [Cursor.HasCommand] at also named
      exact Option.some.inj (also.symm.trans named)
    have noBrace : c.skipBlanks.peek ≠ some '{' := fun here =>
      HasCommand.word_ne_nil named (word_eq_nil here rfl)
    rw [readStatementWith_command read depth named, readCommand_fault]
    constructor
    · rintro (⟨s, converts, long⟩ | ⟨brace, opens, stops⟩)
      · exact .inl ⟨s, ⟨command, named, converts⟩, long⟩
      · exact .inr ⟨brace, .inr ⟨command, named, opens⟩, stops⟩
    · rintro (⟨s, ⟨other, also, converts⟩, long⟩ | ⟨brace, ⟨here, _⟩ | ⟨other, also, opens⟩, stops⟩)
      · cases unique also
        exact .inl ⟨s, converts, long⟩
      · exact absurd here noBrace
      · cases unique also
        exact .inr ⟨brace, opens, stops⟩
  · have unnamed : ∀ command, ¬ c.skipBlanks.HasCommand command := fun command here =>
      named ⟨command, here⟩
    by_cases here : c.skipBlanks.peek = some '{'
    · rw [readStatementWith_open read depth here]
      constructor
      · intro failed
        exact .inr ⟨_, .inl ⟨here, rfl⟩, failed⟩
      · rintro (⟨s, ⟨other, also, _⟩, _⟩ | ⟨brace, ⟨_, rfl⟩ | ⟨other, also, _⟩, stops⟩)
        · exact absurd also (unnamed other)
        · exact stops
        · exact absurd also (unnamed other)
    · obtain ⟨p, offset, rejected⟩ := readStatementWith_other read depth here unnamed
      rw [rejected]
      constructor
      · rintro ⟨⟩
      · rintro (⟨s, ⟨other, also, _⟩, _⟩ | ⟨brace, ⟨also, _⟩ | ⟨other, also, _⟩, _⟩)
        · exact absurd also (unnamed other)
        · exact absurd also here
        · exact absurd also (unnamed other)

end Statements

/-- Reading a statement, in which blocks nest less deep than a bound, comes to a statement
at a number of enclosing blocks. -/
inductive ReadsTo : Nat → Nat → Cursor → Nat → Cursor → Prop
  | refl {bound depth : Nat} {c : Cursor} : ReadsTo (bound + 1) depth c depth c
  | step {bound depth last : Nat} {c inner target : Cursor} :
      Nests (readStatement bound) depth c.skipBlanks inner → ReadsTo bound (depth + 1) inner last target →
      ReadsTo (bound + 1) depth c last target

/-- Reading a statement faults exactly at a literal it comes to that cannot be converted. -/
theorem readStatement_fault {bound depth : Nat} {c : Cursor} {f : Fault} :
    readStatement bound depth c = .error (.fault f) ↔ ∃ last target s,
      ReadsTo bound depth c last target ∧ ConvertsAt last target.skipBlanks s ∧
      readWhole s = .error f := by
  -- the statements in a block are read with a smaller bound
  induction bound generalizing depth c with
  | zero =>
    constructor
    · rintro ⟨⟩
    · rintro ⟨_, _, _, ⟨⟩, _⟩
  | succ bound ih =>
    rw [readStatement, readStatementWith_fault]
    constructor
    · rintro (⟨s, converts, long⟩ | ⟨brace, opens, stops⟩)
      · exact ⟨depth, c, s, .refl, converts, long⟩
      · obtain ⟨inner, visits, stops⟩ := readBlock_fault.mp stops
        obtain ⟨last, target, s, reads, converts, long⟩ := ih.mp stops
        exact ⟨last, target, s, .step ⟨brace, opens, visits⟩ reads, converts, long⟩
    · rintro ⟨last, target, s, reads, converts, long⟩
      cases reads with
      | refl => exact .inl ⟨s, converts, long⟩
      | step nests reads =>
        obtain ⟨brace, opens, visits⟩ := nests
        have stops := ih.mpr ⟨last, target, s, reads, converts, long⟩
        exact .inr ⟨brace, opens, readBlock_fault.mpr ⟨_, visits, stops⟩⟩

/-- Reading a source comes to convert a literal. -/
def SourceConverts (source s : List Char) : Prop :=
  ∃ first last target, Visits (readStatement (source.length + 1) 0) (·.atEnd = false)
      (source.length + 1) (.start source) first ∧
    ReadsTo (source.length + 1) 0 first last target ∧ ConvertsAt last target.skipBlanks s

theorem parse_fault {source : List Char} {f : Fault} :
    parse source = .error (.fault f) ↔ ∃ s, SourceConverts source s ∧ readWhole s = .error f := by
  have body : parse source = .error (.fault f) ↔ readBody source = .error (.fault f) := by
    unfold parse
    cases readBody source with
    | ok nodes => simp
    | error r => cases r <;> simp [Rejection.failure]
  rw [body, readBody, readUntilEnd_fault]
  constructor
  · rintro ⟨first, visits, stops⟩
    obtain ⟨last, target, s, reads, converts, long⟩ := readStatement_fault.mp stops
    exact ⟨s, ⟨first, last, target, visits, reads, converts⟩, long⟩
  · rintro ⟨s, ⟨first, last, target, visits, reads, converts⟩, long⟩
    exact ⟨first, visits, readStatement_fault.mpr ⟨last, target, s, reads, converts, long⟩⟩

end Primer
