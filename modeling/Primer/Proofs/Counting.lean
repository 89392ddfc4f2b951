import Primer.Proofs.Offsets

/-! The number of open blocks, kept by a counter. The same reading is done with a counter that
is raised where a block starts and lowered where it ends, beside a list of the open braces.
Main statement: from some bound on every bound gives the results of the reader, whatever is
accepted leaves the counter as it was, and the counter is never wrong. -/
namespace Primer

/-- What reading keeps besides its cursor: a counter of the blocks around it and, apart from
that, the places of the braces that were read and not closed, the innermost first. -/
structure Ledger where
  depth : Nat
  opened : List Nat

/-- Why counting comes to no tree. -/
inductive Halt
  | rejected (r : Rejection)
  /-- A statement was to be read while the counter was not the number of open blocks. -/
  | miscounted (l : Ledger)

abbrev Counter (α : Type) := Ledger → Cursor → Except Halt (α × Cursor × Ledger)

namespace Ledger

/-- The counter is the number of the open braces. -/
def Counted (l : Ledger) : Prop := l.depth = l.opened.length

instance (l : Ledger) : Decidable l.Counted :=
  inferInstanceAs (Decidable (l.depth = l.opened.length))

def raised (l : Ledger) : Ledger := { l with depth := l.depth + 1 }
def lowered (l : Ledger) : Ledger := { l with depth := l.depth - 1 }
def opening (l : Ledger) (brace : Nat) : Ledger := { l with opened := brace :: l.opened }
def closing (l : Ledger) : Ledger := { l with opened := l.opened.tail }

theorem Counted.inBlock {l : Ledger} (counted : l.Counted) (brace : Nat) :
    (l.opening brace).raised.Counted := congrArg (· + 1) counted

/-- A reading in which the ledger stays as it is. -/
def carry (l : Ledger) : Reading (α × Cursor) → Except Halt (α × Cursor × Ledger)
  | .ok (a, after) => .ok (a, after, l)
  | .error r => .error (.rejected r)

end Ledger

def refuse (p : Problem) (offset : Nat) : Except Halt α := .error (.rejected (.problem p offset))

/-- The statements up to the closing brace of a block. -/
def countUntilClose (count : Counter Node) (opened : Nat) : Nat → Counter (List Node)
  | 0, _, _ => .error (.rejected .exhausted)
  | bound + 1, l, c =>
    let c := c.skipBlanks
    match c.peek with
    | none => refuse .unclosedBlock opened
    | some '}' => .ok ([], c.advance 1, l.closing)
    | some _ => do
      let (node, c, l) ← count l c
      let (nodes, c, l) ← countUntilClose count opened bound l c
      return (node :: nodes, c, l)

/-- A block, around which the counter is raised and lowered. -/
def countBlock (count : Counter Node) (bound : Nat) : Counter Node := fun l c => do
  let (nodes, after, l) ← countUntilClose count c.pos bound (l.opening c.pos).raised (c.advance 1)
  return (.block nodes (atOffset c.pos), after, l.lowered)

def countExpected (count : Counter Node) (bound : Nat) (what : String) : Counter Node := fun l c =>
  let c := c.skipBlanks
  if c.peek = some '{' then countBlock count bound l c else refuse (.missingBlock what) c.pos

def countDefine (count : Counter Node) (bound start : Nat) : Counter Node := fun l c =>
  let c := c.skipInlineBlanks
  let name := c.word
  if name.isEmpty then refuse .unnamedFunction c.pos
  else do
    let (entries, c, l) ← l.carry (readParams name c.afterWord.skipInlineBlanks)
    let params := entries.map dropDollar
    if params.any (·.isEmpty) then refuse (.unnamedParameter (String.ofList name)) start
    else
      let (body, c, l) ←
        countExpected count bound ("body of function '" ++ String.ofList name ++ "'") l c
      return (.define (textOf name) (params.map textOf) body (atOffset start), c, l)

def countLoop (count : Counter Node) (bound start : Nat) : Counter Node := fun l c => do
  let c := c.skipInlineBlanks
  let (number, c, l) ← l.carry ((orFault (readWhole c.word)).map fun number => (number, c))
  match number with
  | none => refuse (.badCount (String.ofList c.word)) c.pos
  | some times =>
    let (body, c, l) ← countExpected count bound "repeat" l c.afterWord
    return (.loop times body (atOffset start), c, l)

def countBranch (count : Counter Node) (bound : Nat) : Nat → Nat → Counter Node
  | 0, _, _, _ => .error (.rejected .exhausted)
  | more + 1, start, l, c => do
    let c := c.skipInlineBlanks
    match c.upTo '{' with
    | none => refuse .missingBranch c.pos
    | some (text, brace) =>
      let condition := trim text
      if condition.isEmpty then refuse .missingCondition c.pos
      else
        let (yes, c, l) ← countBlock count bound l brace
        if lower c.nextWord = ['e', 'l', 's', 'e'] then
          let c := c.skipBlanks.afterWord
          if lower c.nextWord = ['i', 'f'] then
            let c := c.skipBlanks
            let (no, after, l) ← countBranch count bound more c.pos l c.afterWord
            return (.branch (textOf condition) yes no (atOffset start), after, l)
          else
            let (no, after, l) ← countExpected count bound "else" l c
            return (.branch (textOf condition) yes no (atOffset start), after, l)
        else return (.branch (textOf condition) yes .missing (atOffset start), c, l)

/-- What comes after the word of a command. Only blocks change the ledger. -/
def countCommand (count : Counter Node) (bound start : Nat) (word : List Char) (l : Ledger)
    (c : Cursor) : Command → Except Halt (Node × Cursor × Ledger)
  | .define => countDefine count bound start l c
  | .loop => countLoop count bound start l c
  | .branch => countBranch count bound (bound + 1) start l c
  | .say => l.carry (readSay l.depth start c)
  | .call => l.carry (readCall l.depth start c)
  | .assign => l.carry (readAssign l.depth start c)
  | .math op => l.carry (readMath op word start c)

def countStatementWith (count : Counter Node) (bound : Nat) : Counter Node := fun l c =>
  let c := c.skipBlanks
  match c.peek with
  | some '{' => countBlock count bound l c
  | some '}' => refuse .strayClose c.pos
  | next =>
    if c.word.isEmpty then refuse (.noCommand (String.ofList next.toList)) c.pos
    else match Command.ofWord? c.word c.afterWord.peek with
      | some command => countCommand count bound c.pos c.word l c.afterWord command
      | none => refuse (.unknownCommand (String.ofList c.word)) c.pos

/-- One statement. The bound limits the nesting of blocks, the statements in each of them and
the conditionals after an `else`. -/
def countStatement : Nat → Counter Node
  | 0, _, _ => .error (.rejected .exhausted)
  | bound + 1, l, c =>
    if l.Counted then countStatementWith (countStatement bound) bound l c
    else .error (.miscounted l)

def countUntilEnd (count : Counter Node) : Nat → Ledger → Cursor → Except Halt (List Node)
  | 0, _, _ => .error (.rejected .exhausted)
  | bound + 1, l, c =>
    let c := c.skipBlanks
    if c.atEnd then .ok []
    else do
      let (node, c, l) ← count l c
      return node :: (← countUntilEnd count bound l c)

def countBody (bound : Nat) (source : List Char) : Except Halt (List Node) :=
  countUntilEnd (countStatement bound) bound ⟨0, []⟩ (.start source)

section Following
variable {l : Ledger}

theorem carry_bind {l' : Ledger} {x : Except Halt (α × Cursor × Ledger)} {r : Reading (α × Cursor)}
    {f : α × Cursor × Ledger → Except Halt (β × Cursor × Ledger)}
    {g : α × Cursor → Reading (β × Cursor)} (first : x = l.carry r)
    (rest : ∀ a after, r = .ok (a, after) → f (a, after, l) = l'.carry (g (a, after))) :
    x >>= f = l'.carry (r >>= g) := by
  subst first
  match r with
  | .ok (a, after) => exact rest a after rfl
  | .error r => rfl

/-- On texts shorter than a number, a counter of nested statements does what a reader of them
does, and leaves the ledger as it was. -/
def CountsLike (count : Counter Node) (read : StatementReader) (size : Nat) : Prop :=
  ∀ ⦃l c⦄, l.Counted → c.rest.length < size → count l c = l.carry (read l.depth c)

/-- What is left after a reading that succeeded. -/
theorem Leaves.of_ok {n : Nat} {r : Reading (α × Cursor)} {a : α} {after : Cursor}
    (leaves : Leaves n r) (accepted : r = .ok (a, after)) : after.rest.length < n := by
  rw [accepted] at leaves
  exact leaves

variable {count : Counter Node} {read : StatementReader} {size : Nat}
  (follows : CountsLike count read size) (proceeds : Proceeds read size) (counted : l.Counted)
  (bound : Nat) {start : Nat} {c : Cursor}
include follows proceeds counted

theorem countUntilClose_eq (bound' opened : Nat) (short : c.rest.length < size)
    (enough : c.rest.length < bound) (enough' : c.rest.length < bound') :
    countUntilClose count opened bound l c =
      l.closing.carry (readUntilClose (read l.depth) opened bound' c) := by
  induction bound generalizing bound' c with
  | zero => omega
  | succ bound ih =>
    obtain ⟨bound', rfl⟩ := Nat.exists_eq_add_one.mpr (Nat.zero_lt_of_lt enough')
    have skipped := c.length_skipBlanks
    simp only [countUntilClose]
    split
    · rename_i here
      simp only [readUntilClose, here]
      rfl
    · rename_i here
      rw [readUntilClose_close _ opened bound' here]
      rfl
    · rename_i other here
      rw [readUntilClose_next _ opened bound' here other]
      have first : count l c.skipBlanks = l.carry (read l.depth c.skipBlanks) :=
        follows counted (by omega)
      refine carry_bind first fun node after accepted => ?_
      have left := (proceeds (by omega)).of_ok accepted
      have later := ih bound' (c := after) (by omega) (by omega) (by omega)
      exact carry_bind later fun nodes last _ => rfl

theorem countBlock_eq {ch : Char} (here : c.peek = some ch) (short : c.rest.length ≤ size)
    (enough : c.rest.length ≤ bound) :
    countBlock count bound l c = l.carry (readBlock read l.depth c) := by
  have some := Cursor.rest_ne_nil_of_peek here
  have moved := c.length_advance 1
  have inside := countUntilClose_eq follows proceeds (counted.inBlock c.pos) bound
    (c.rest.length + 1) c.pos (c := c.advance 1) (by omega) (by omega) (by omega)
  exact carry_bind inside fun nodes after _ => rfl

theorem countExpected_eq (what : String) (short : c.rest.length ≤ size)
    (enough : c.rest.length ≤ bound) :
    countExpected count bound what l c = l.carry (expectBlock read what l.depth c) := by
  have skipped := c.length_skipBlanks
  simp only [countExpected, expectBlock]
  split
  · rename_i here
    exact countBlock_eq follows proceeds counted bound here (by omega) (by omega)
  · rfl

theorem countDefine_eq (short : c.rest.length ≤ size) (enough : c.rest.length ≤ bound) :
    countDefine count bound start l c = l.carry (readDefine read l.depth start c) := by
  have inline := c.length_skipInlineBlanks
  have word := c.skipInlineBlanks.length_afterWord_le
  have again := c.skipInlineBlanks.afterWord.length_skipInlineBlanks
  simp only [countDefine, readDefine]
  split
  · rfl
  · refine carry_bind rfl fun entries after accepted => ?_
    have left := (readParams_leaves _ _).of_ok accepted
    dsimp only
    split
    · rfl
    · have body := countExpected_eq follows proceeds counted bound (c := after)
      exact carry_bind (body _ (by omega) (by omega)) fun node last _ => rfl

theorem countLoop_eq (short : c.rest.length ≤ size) (enough : c.rest.length ≤ bound) :
    countLoop count bound start l c = l.carry (readLoop read l.depth start c) := by
  have inline := c.length_skipInlineBlanks
  have word := c.skipInlineBlanks.length_afterWord_le
  simp only [countLoop, readLoop]
  cases orFault (readWhole c.skipInlineBlanks.word) with
  | error r => rfl
  | ok number =>
    cases number with
    | none => rfl
    | some times =>
      have body := countExpected_eq follows proceeds counted bound
        (c := c.skipInlineBlanks.afterWord) "repeat" (by omega) (by omega)
      exact carry_bind body fun node last _ => rfl

theorem countBranch_eq {more more' : Nat} (short : c.rest.length ≤ size)
    (enough : c.rest.length ≤ bound) (some : c.rest.length < more) (some' : c.rest.length < more') :
    countBranch count bound more start l c = l.carry (readBranch read l.depth more' start c) := by
  -- each alternative is read from a shorter text than the one before it
  induction more generalizing more' start c with
  | zero => omega
  | succ more ih =>
    obtain ⟨more', rfl⟩ := Nat.exists_eq_add_one.mpr (Nat.zero_lt_of_lt some')
    have inline := c.length_skipInlineBlanks
    simp only [countBranch, readBranch]
    cases found : c.skipInlineBlanks.upTo '{' with
    | none => rfl
    | some result =>
      obtain ⟨text, brace⟩ := result
      dsimp only
      split
      · rfl
      · obtain ⟨rest, split, isBrace⟩ := Cursor.upTo_some found
        have before := congrArg List.length split
        have here : brace.peek = .some '{' := by rw [isBrace]; rfl
        have length : brace.rest.length = rest.length + 1 := by rw [isBrace]; rfl
        simp only [List.length_append, List.length_cons] at before
        have first :=
          countBlock_eq follows proceeds counted bound here (by omega) (by omega)
        refine carry_bind first fun node after accepted => ?_
        have left := (readBlock_leaves proceeds l.depth here (by omega)).of_ok accepted
        have blanks := after.length_skipBlanks
        have keyword := after.skipBlanks.length_afterWord_le
        have blanksAgain := after.skipBlanks.afterWord.length_skipBlanks
        have wordAgain := after.skipBlanks.afterWord.skipBlanks.length_afterWord_le
        dsimp only
        split
        · split
          · exact carry_bind (ih (by omega) (by omega) (by omega) (by omega)) fun no last _ => rfl
          · have final := countExpected_eq follows proceeds counted bound
              (c := after.skipBlanks.afterWord) "else" (by omega) (by omega)
            exact carry_bind final fun no last _ => rfl
        · rfl

omit follows proceeds counted in
/-- A statement that does not start with a brace. -/
theorem readStatementWith_plain (read : StatementReader) (depth : Nat)
    (noOpen : c.skipBlanks.peek = some '{' → False)
    (noClose : c.skipBlanks.peek = some '}' → False) :
    readStatementWith read depth c =
      if c.skipBlanks.word.isEmpty then
        reject (.noCommand (String.ofList c.skipBlanks.peek.toList)) c.skipBlanks.pos
      else match Command.ofWord? c.skipBlanks.word c.skipBlanks.afterWord.peek with
        | some command =>
          readCommand read depth c.skipBlanks.pos c.skipBlanks.word c.skipBlanks.afterWord command
        | none => reject (.unknownCommand (String.ofList c.skipBlanks.word)) c.skipBlanks.pos := by
  simp only [readStatementWith]
  split
  · rfl
  · cases Command.ofWord? c.skipBlanks.word c.skipBlanks.afterWord.peek with
    | none => rfl
    | some command => cases command <;> rfl

theorem countCommand_eq (word : List Char) (command : Command) (short : c.rest.length ≤ size)
    (enough : c.rest.length ≤ bound) :
    countCommand count bound start word l c command =
      l.carry (readCommand read l.depth start word c command) := by
  cases command with
  | say | call | assign | math => rfl
  | define => exact countDefine_eq follows proceeds counted bound short enough
  | loop => exact countLoop_eq follows proceeds counted bound short enough
  | branch =>
    exact countBranch_eq follows proceeds counted bound short enough (by omega) (by omega)

theorem countStatementWith_eq (short : c.rest.length ≤ size) (enough : c.rest.length ≤ bound) :
    countStatementWith count bound l c = l.carry (readStatementWith read l.depth c) := by
  have skipped := c.length_skipBlanks
  have word := c.skipBlanks.length_afterWord_le
  simp only [countStatementWith]
  split
  · rename_i here
    rw [readStatementWith_open read l.depth here]
    exact countBlock_eq follows proceeds counted bound here (by omega) (by omega)
  · rename_i here
    simp only [readStatementWith, here]
    rfl
  · rename_i noOpen noClose
    rw [readStatementWith_plain read l.depth noOpen noClose]
    split
    · rfl
    · cases Command.ofWord? c.skipBlanks.word c.skipBlanks.afterWord.peek with
      | none => rfl
      | some command =>
        exact countCommand_eq follows proceeds counted bound _ command (by omega) (by omega)

end Following

/-- Counting a statement is reading it with the number of open blocks, whatever bounds beyond
the length of the text the two are given. -/
theorem countStatement_eq {l : Ledger} (counted : l.Counted) {bound : Nat} (bound' : Nat)
    {c : Cursor} (enough : c.rest.length < bound) (enough' : c.rest.length < bound') :
    countStatement bound l c = l.carry (readStatement bound' l.depth c) := by
  induction bound generalizing bound' l c with
  | zero => omega
  | succ bound ih =>
    obtain ⟨bound', rfl⟩ := Nat.exists_eq_add_one.mpr (Nat.zero_lt_of_lt enough')
    have follows : CountsLike (countStatement bound) (readStatement bound') c.rest.length :=
      fun l d counted shorter => ih counted bound' (by omega) (by omega)
    have proceeds : Proceeds (readStatement bound') c.rest.length :=
      fun depth d shorter => readStatement_proceeds bound' (by omega)
    rw [countStatement, if_pos counted, readStatement]
    exact countStatementWith_eq follows proceeds counted bound (Nat.le_refl _) (by omega)

theorem countUntilEnd_eq {bound more : Nat} (bound' more' : Nat) {l : Ledger}
    (counted : l.Counted) {c : Cursor} (enough : c.rest.length < bound)
    (enough' : c.rest.length < bound') (some : c.rest.length < more)
    (some' : c.rest.length < more') :
    countUntilEnd (countStatement bound) more l c =
      (readUntilEnd (readStatement bound' l.depth) more' c).mapError .rejected := by
  induction more generalizing more' c with
  | zero => omega
  | succ more ih =>
    obtain ⟨more', rfl⟩ := Nat.exists_eq_add_one.mpr (Nat.zero_lt_of_lt some')
    have skipped := c.length_skipBlanks
    simp only [countUntilEnd, readUntilEnd]
    split
    · rfl
    · rw [countStatement_eq counted bound' (by omega) (by omega)]
      cases accepted : readStatement bound' l.depth c.skipBlanks with
      | error r => rfl
      | ok result =>
        obtain ⟨node, after⟩ := result
        have left := (readStatement_proceeds bound' (by omega)).of_ok accepted
        have later := ih more' (c := after) (by omega) (by omega) (by omega) (by omega)
        simp only [Ledger.carry, ok_bind, later]
        cases readUntilEnd (readStatement bound' l.depth) more' after with
        | error r => rfl
        | ok nodes => rfl

theorem Cursor.skipBlanks_skipBlanks (c : Cursor) : c.skipBlanks.skipBlanks = c.skipBlanks :=
  skipBlanks_stops _ (stops_dropWhile isBlank c.rest)

/-- Blanks before a statement are not part of it. -/
theorem readStatement_skipBlanks (bound depth : Nat) (c : Cursor) :
    readStatement bound depth c.skipBlanks = readStatement bound depth c := by
  cases bound with
  | zero => rfl
  | succ bound => simp only [readStatement, readStatementWith, Cursor.skipBlanks_skipBlanks]

/-- What was read from a place of a source starts there and ends after it, in the source. -/
theorem Placed.moves {source : List Char} {c after : Cursor} {node : Node}
    (placed : Placed c node.nodes after) (reached : (Cursor.start source).LeadsTo c) :
    c.pos < after.pos ∧ after.pos ≤ source.length ∧ after.rest = source.drop after.pos := by
  obtain ⟨o, -, first, last⟩ := placed.ascending.mem (Node.self_mem_nodes node)
  have leads := reached.trans placed.leads
  have inside := leads.stop_eq ▸ after.pos_le_stop
  refine ⟨by omega, by simpa [Cursor.start, Cursor.stop] using inside, ?_⟩
  exact congrArg Cursor.rest leads.eq_drop

/-- Counting was refused, or it went on from a place to a later one in the source and left
the ledger as it was. -/
def GoesOn (source : List Char) (start : Nat) (l : Ledger)
    (r : Except Halt (Node × Cursor × Ledger)) : Prop :=
  (∃ rejection, r = .error (.rejected rejection) ∧ rejection ≠ .exhausted) ∨
  ∃ node after, r = .ok (node, after, l) ∧
    start < after.pos ∧ after.pos ≤ source.length ∧ after.rest = source.drop after.pos

theorem goesOn_carry {source : List Char} {c : Cursor} {n : Nat} (l : Ledger)
    {r : Reading (Node × Cursor)} (reached : (Cursor.start source).LeadsTo c) (leaves : Leaves n r)
    (placed : ∀ {node after}, r = .ok (node, after) → Placed c node.nodes after) :
    GoesOn source c.pos l (l.carry r) := by
  cases r with
  | error rejection =>
    refine .inl ⟨rejection, rfl, ?_⟩
    rintro rfl
    exact leaves
  | ok result =>
    obtain ⟨node, after⟩ := result
    exact .inr ⟨node, after, rfl, (placed rfl).moves reached⟩

section Sources
variable {source : List Char} {l : Ledger} (counted : l.Counted) {c : Cursor}
  (reached : (Cursor.start source).LeadsTo c) (short : c.rest.length ≤ source.length) {bound : Nat}
  (enough : source.length < bound)
include counted reached short enough

theorem countStatement_goesOn :
    countStatement bound l c = l.carry (readStatement (source.length + 1) l.depth c) ∧
      GoesOn source c.skipBlanks.pos l (countStatement bound l c) := by
  have counts : countStatement bound l c = l.carry (readStatement (source.length + 1) l.depth c) :=
    countStatement_eq counted _ (by omega) (by omega)
  refine ⟨counts, ?_⟩
  rw [counts, ← readStatement_skipBlanks]
  have blanks := c.length_skipBlanks
  exact goesOn_carry l (reached.trans (.skipBlanks c)) (readStatement_proceeds _ (by omega))
    fun accepted => readStatement_places _ accepted

theorem countBlock_goesOn (here : c.peek = some '{') :
    countBlock (countStatement bound) bound l c =
        l.carry (readBlock (readStatement (source.length + 1)) l.depth c) ∧
      GoesOn source c.pos l (countBlock (countStatement bound) bound l c) := by
  let read := readStatement (source.length + 1)
  have follows : CountsLike (countStatement bound) read c.rest.length :=
    fun _ _ counted shorter => countStatement_eq counted _ (by omega) (by omega)
  have proceeds : Proceeds read c.rest.length :=
    fun depth d shorter => readStatement_proceeds _ (by omega)
  have counts : countBlock (countStatement bound) bound l c = l.carry (readBlock read l.depth c) :=
    countBlock_eq follows proceeds counted bound here (Nat.le_refl _) (by omega)
  refine ⟨counts, ?_⟩
  rw [counts]
  exact goesOn_carry l reached (readBlock_leaves proceeds l.depth here (Nat.le_refl _))
    fun accepted => readBlock_placed (readStatement_places _) here accepted

end Sources

/-- Reading comes to an end on every text, and for all texts of one length some number bounds
it: any larger bound gives the same results. From whatever place and within whatever blocks it
is started, a statement or a block is rejected or read up to a later place of the text, the
counter is then what it was, and it was right at every statement on the way. -/
theorem counting_goes_on (length : Nat) :
    ∃ enough, ∀ source : List Char, source.length = length → ∀ bound, enough ≤ bound →
      (∀ pos ≤ length, ∀ opened : List Nat,
        let c : Cursor := ⟨pos, source.drop pos⟩
        let l : Ledger := ⟨opened.length, opened⟩
        let statement := countStatement bound l c
        let block := countBlock (countStatement bound) bound l c
        statement = l.carry (readStatement (length + 1) opened.length c) ∧
        GoesOn source c.skipBlanks.pos l statement ∧
        (source[pos]? = some '{' →
          block = l.carry (readBlock (readStatement (length + 1)) opened.length c) ∧
          GoesOn source pos l block)) ∧
      countBody bound source = (readBody source).mapError .rejected ∧
      readBody source ≠ .error .exhausted := by
  refine ⟨length + 1, ?_⟩
  rintro source rfl bound enough
  constructor
  · intro pos within opened c l statement block
    have counted : l.Counted := rfl
    have short : c.rest.length ≤ source.length := (List.drop_sublist pos source).length_le
    have reached : (Cursor.start source).LeadsTo c :=
      ⟨source.take pos, (List.take_append_drop pos source).symm, by simp [c, Cursor.start, within]⟩
    obtain ⟨counts, goesOn⟩ := countStatement_goesOn counted reached short enough
    refine ⟨counts, goesOn, ?_⟩
    intro opens
    have here : c.peek = some '{' := by rw [Cursor.peek, List.head?_drop, opens]
    exact countBlock_goesOn counted reached short enough here
  · refine ⟨?_, readBody_not_exhausted source⟩
    have counted : Ledger.Counted ⟨0, []⟩ := rfl
    exact countUntilEnd_eq _ _ counted enough (Nat.lt_succ_self _) enough (Nat.lt_succ_self _)

end Primer
