import Primer.Proofs.Lines

/-! The braces of a source and those of the texts in its tree. A block ends where a
statement could start with a closing brace, and no reader counts the braces in it. Every
brace that is read delimits a block or goes into a text, so what a text has more opening
braces than closing ones is the same before and after reading. Main statement: a block
that was read has equally many opening and closing braces just if the texts in it have. -/
namespace Primer

/-- By how many a text has more opening braces than closing ones. -/
def surplus (s : List Char) : Int := s.count '{' - s.count '}'

@[simp] theorem surplus_nil : surplus [] = 0 := rfl

@[simp] theorem surplus_append (s t : List Char) : surplus (s ++ t) = surplus s + surplus t := by
  simp only [surplus, List.count_append]
  omega

theorem surplus_cons (c : Char) (s : List Char) : surplus (c :: s) = surplus [c] + surplus s :=
  surplus_append [c] s

theorem surplus_reverse (s : List Char) : surplus s.reverse = surplus s := by
  simp only [surplus, List.count_reverse]

theorem surplus_eq_zero {s : List Char} : surplus s = 0 ↔ s.count '{' = s.count '}' := by
  unfold surplus
  omega

section Classes
variable {p : Char → Bool} (opens : p '{' = false) (closes : p '}' = false)
include opens closes

theorem surplus_of_all {s : List Char} (all : ∀ c ∈ s, p c = true) : surplus s = 0 := by
  have noOpen : '{' ∉ s := fun inside => by simp [all _ inside] at opens
  have noClose : '}' ∉ s := fun inside => by simp [all _ inside] at closes
  simp [surplus, List.count_eq_zero.mpr noOpen, List.count_eq_zero.mpr noClose]

theorem surplus_dropWhile (s : List Char) : surplus (s.dropWhile p) = surplus s := by
  have skipped : surplus (s.takeWhile p) = 0 :=
    surplus_of_all opens closes fun c => List.mem_takeWhile_imp
  have whole := congrArg surplus (List.takeWhile_append_dropWhile (p := p) (l := s))
  rwa [surplus_append, skipped, Int.zero_add] at whole

/-- Cutting at other characters keeps the braces in the pieces. -/
theorem surplus_cut (s : List Char) : ((cut p s).map surplus).sum = surplus s := by
  induction s with
  | nil => rfl
  | cons c s ih =>
    unfold cut
    split
    · rename_i separates
      have plain : surplus [c] = 0 :=
        surplus_of_all opens closes (List.forall_mem_singleton.mpr separates)
      rw [List.map_cons, List.sum_cons, ih, surplus_cons c s, plain, surplus_nil]
    · split
      · rename_i none
        exact absurd none (cut_ne_nil s)
      · rename_i piece pieces pieced
        rw [pieced, List.map_cons, List.sum_cons] at ih
        rw [List.map_cons, List.sum_cons, surplus_cons c piece, surplus_cons c s, ← ih,
          Int.add_assoc]

end Classes

@[simp] theorem surplus_trim (s : List Char) : surplus (trim s) = surplus s := by
  have blanks : ∀ t : List Char, surplus (t.dropWhile isBlank) = surplus t :=
    surplus_dropWhile (by decide) (by decide)
  rw [trim, trimEnd, surplus_reverse, blanks, surplus_reverse, trimStart, blanks]

theorem surplus_words (s : List Char) : ((words s).map surplus).sum = surplus s := by
  have kept : ∀ pieces : List (List Char),
      ((pieces.filter fun w => !w.isEmpty).map surplus).sum = (pieces.map surplus).sum := by
    intro pieces
    induction pieces with
    | nil => rfl
    | cons piece pieces ih => cases piece <;> simp [ih]
  rw [words, kept, surplus_cut (by decide) (by decide)]

@[simp] theorem surplus_dropDollar (s : List Char) : surplus (dropDollar s) = surplus s := by
  unfold dropDollar
  split
  · rename_i rest
    rw [surplus_cons '$' rest]
    simp [surplus]
  · rfl

theorem surplus_unquote (s : List Char) : surplus (unquote s) = surplus s := by
  unfold unquote
  split
  · rename_i rest
    split
    · rename_i last
      have quote : surplus ['"'] = 0 := rfl
      have whole := congrArg surplus (List.dropLast_append_getLast? '"' last)
      rw [surplus_append, quote, Int.add_zero] at whole
      rw [whole, surplus_cons, quote, Int.zero_add]
    · rfl
  · rfl

theorem surplus_splitSign (s : List Char) : surplus (splitSign s).2 = surplus s := by
  unfold splitSign
  split
  · rw [surplus_cons '-']
    simp [surplus]
  · rw [surplus_cons '+']
    simp [surplus]
  · rfl

/-- There are no braces in a number. -/
theorem surplus_readWhole {s : List Char} {n : Int} (read : readWhole s = .ok (some n)) :
    surplus s = 0 := by
  rw [← surplus_splitSign]
  unfold readWhole at read
  dsimp only at read
  split at read
  · rename_i form
    rw [Bool.and_eq_true] at form
    exact surplus_of_all (by decide) (by decide) (List.all_eq_true.mp form.2)
  · cases read

/-- The surplus of a datum that is a text. -/
def Datum.surplus : Datum → Int
  | .text s => Primer.surplus s.toList
  | _ => 0

@[simp] theorem Datum.surplus_textOf (s : List Char) : (textOf s).surplus = Primer.surplus s := by
  simp [textOf, surplus]

theorem surplus_literal {s : List Char} {value : Datum} (read : literal s = .ok value) :
    value.surplus = surplus s := by
  obtain ⟨number, found, result⟩ := bind_eq_ok.mp read
  cases number with
  | none =>
    cases result
    exact (Datum.surplus_textOf _).trans (surplus_unquote s)
  | some n =>
    cases result
    exact (surplus_readWhole found).symm

/-- The data that a node itself holds, its offset apart. -/
def Node.held : Node → List Datum
  | .say message _ => [message]
  | .math _ _ keyword _ => [keyword]
  | .define name params _ _ => name :: params
  | .call name args _ => name :: args
  | .declare name value _ | .assign name value _ => [name, value]
  | .branch condition _ _ _ => [condition]
  | .missing | .program _ | .block .. | .loop .. => []

/-- The surplus of all the texts that nodes hold. -/
def heldSurplus (nodes : List Node) : Int := ((nodes.flatMap Node.held).map Datum.surplus).sum

@[simp] theorem heldSurplus_nil : heldSurplus [] = 0 := rfl

theorem heldSurplus_cons (node : Node) (nodes : List Node) :
    heldSurplus (node :: nodes) = (node.held.map Datum.surplus).sum + heldSurplus nodes := by
  simp [heldSurplus]

@[simp] theorem heldSurplus_append (xs ys : List Node) :
    heldSurplus (xs ++ ys) = heldSurplus xs + heldSurplus ys := by
  simp [heldSurplus]

theorem sum_surplus_textOf (entries : List (List Char)) :
    ((entries.map textOf).map Datum.surplus).sum = (entries.map surplus).sum := by
  simp [Function.comp_def]

namespace Cursor
variable {c d : Cursor}

@[simp] theorem surplus_skipBlanks (c : Cursor) : surplus c.skipBlanks.rest = surplus c.rest :=
  surplus_dropWhile (by decide) (by decide) c.rest

@[simp] theorem surplus_skipInlineBlanks (c : Cursor) :
    surplus c.skipInlineBlanks.rest = surplus c.rest :=
  surplus_dropWhile (by decide) (by decide) c.rest

@[simp] theorem surplus_afterWord (c : Cursor) : surplus c.afterWord.rest = surplus c.rest :=
  surplus_dropWhile (by decide) (by decide) c.rest

@[simp] theorem surplus_word (c : Cursor) : surplus c.word = 0 :=
  surplus_of_all (by decide) (by decide) fun _ => List.mem_takeWhile_imp

theorem surplus_line (c : Cursor) (inBlock : Bool) :
    surplus c.rest = surplus (c.line inBlock) + surplus (c.afterLine inBlock).rest := by
  rw [← surplus_append, line_append_afterLine]

theorem surplus_upTo {ch : Char} {before : List Char} (found : c.upTo ch = some (before, d)) :
    surplus c.rest = surplus before + surplus d.rest := by
  obtain ⟨after, rest, rfl⟩ := upTo_some found
  rw [rest, surplus_append]

theorem surplus_advance {ch : Char} (here : c.peek = some ch) :
    surplus c.rest = surplus [ch] + surplus (c.advance 1).rest := by
  obtain ⟨tail, rest⟩ := List.head?_eq_some_iff.mp here
  rw [rest, surplus_cons, advance, rest]
  rfl

end Cursor

/-- A reader of nested statements in which each brace delimits a block or is held. -/
def Accounts (read : StatementReader) : Prop :=
  ∀ ⦃depth c node after⦄, read depth c = .ok (node, after) →
    surplus c.rest = heldSurplus node.nodes + surplus after.rest

section Readers
variable {read : StatementReader} {depth start : Nat} {c after : Cursor} {node : Node}

theorem readUntilClose_surplus (nested : Accounts read) {opened bound : Nat} {nodes : List Node}
    (accepted : readUntilClose (read depth) opened bound c = .ok (nodes, after)) :
    surplus c.rest = heldSurplus (Node.nodesIn nodes) - 1 + surplus after.rest := by
  induction bound generalizing c nodes with
  | zero => cases accepted
  | succ bound ih =>
    have blanks := c.surplus_skipBlanks
    simp only [readUntilClose] at accepted
    split at accepted
    · cases accepted
    · rename_i here
      cases accepted
      have close := Cursor.surplus_advance here
      have brace : surplus ['}'] = -1 := rfl
      simp only [Node.nodesIn, heldSurplus_nil]
      omega
    · obtain ⟨⟨first, next⟩, head, accepted⟩ := bind_eq_ok.mp accepted
      obtain ⟨⟨others, last⟩, tail, accepted⟩ := bind_eq_ok.mp accepted
      cases accepted
      have here := nested head
      have rest := ih tail
      dsimp only at here rest
      simp only [Node.nodesIn, heldSurplus_append]
      omega

theorem readBlock_surplus (nested : Accounts read) (here : c.peek = some '{')
    (accepted : readBlock read depth c = .ok (node, after)) :
    surplus c.rest = heldSurplus node.nodes + surplus after.rest := by
  obtain ⟨⟨statements, last⟩, inside, accepted⟩ := bind_eq_ok.mp accepted
  cases accepted
  have statement := readUntilClose_surplus nested inside
  have opening := Cursor.surplus_advance here
  have brace : surplus ['{'] = 1 := rfl
  have alone : ∀ o, ((Node.block statements o).held.map Datum.surplus).sum = 0 := fun _ => rfl
  rw [Node.nodes, heldSurplus_cons, alone]
  omega

theorem expectBlock_surplus (nested : Accounts read) {what : String}
    (accepted : expectBlock read what depth c = .ok (node, after)) :
    surplus c.rest = heldSurplus node.nodes + surplus after.rest := by
  simp only [expectBlock] at accepted
  split at accepted
  · rename_i here
    rw [← c.surplus_skipBlanks]
    exact readBlock_surplus nested here accepted
  · cases accepted

/-- A list in parentheses holds the braces between them. -/
theorem surplus_list {text : List Char} {close : Cursor} (here : c.peek = some '(')
    (found : c.upTo ')' = some (text, close)) :
    surplus c.rest = surplus (text.drop 1) + surplus (close.advance 1).rest := by
  obtain ⟨rest, whole, rfl⟩ := Cursor.upTo_some found
  rw [Cursor.peek, whole] at here
  rw [whole, surplus_append]
  cases text with
  | nil => cases here
  | cons first inner =>
    cases here
    rw [surplus_cons '(', surplus_cons ')']
    simp [surplus, Cursor.advance]

theorem readEntries_surplus {what : String} {entries : List (List Char)}
    (here : c.peek = some '(') (accepted : readEntries what c = .ok (entries, after)) :
    surplus c.rest = (entries.map surplus).sum + surplus after.rest := by
  unfold readEntries at accepted
  split at accepted
  · cases accepted
  · rename_i text close found
    have list := surplus_list here found
    dsimp only at accepted
    split at accepted
    · rename_i blank
      cases accepted
      have inner := surplus_trim (text.drop 1)
      rw [List.isEmpty_iff.mp blank, surplus_nil] at inner
      rw [list, ← inner]
      rfl
    · split at accepted
      · cases accepted
      · cases accepted
        have pieces := surplus_cut (p := (· == ',')) (by decide) (by decide) (text.drop 1)
        rw [list, ← pieces, List.map_map]
        simp only [Function.comp_def, surplus_trim]

theorem readParams_surplus {name : List Char} {entries : List (List Char)}
    (accepted : readParams name c = .ok (entries, after)) :
    surplus c.rest = (entries.map surplus).sum + surplus after.rest := by
  unfold readParams at accepted
  split at accepted
  · rename_i here
    exact readEntries_surplus here accepted
  · split at accepted
    · cases accepted
    · rename_i text body found
      cases accepted
      rw [surplus_words, Cursor.surplus_upTo found]

theorem readSay_surplus (accepted : readSay depth start c = .ok (node, after)) :
    surplus c.rest = heldSurplus node.nodes + surplus after.rest := by
  cases accepted
  have line := c.skipInlineBlanks.surplus_line (decide (0 < depth))
  rw [c.surplus_skipInlineBlanks] at line
  simpa [Node.nodes, heldSurplus_cons, Node.held] using line

theorem readDefine_surplus (nested : Accounts read)
    (accepted : readDefine read depth start c = .ok (node, after)) :
    surplus c.rest = heldSurplus node.nodes + surplus after.rest := by
  simp only [readDefine] at accepted
  split at accepted
  · cases accepted
  · obtain ⟨⟨entries, next⟩, listed, accepted⟩ := bind_eq_ok.mp accepted
    dsimp only at accepted
    split at accepted
    · cases accepted
    · obtain ⟨⟨body, last⟩, inside, accepted⟩ := bind_eq_ok.mp accepted
      cases accepted
      have params := readParams_surplus listed
      have block := expectBlock_surplus nested inside
      simp only [Cursor.surplus_skipInlineBlanks, Cursor.surplus_afterWord] at params
      have held : ((entries.map dropDollar).map surplus).sum = (entries.map surplus).sum := by
        simp [Function.comp_def]
      simp only [Node.nodes, heldSurplus_cons, Node.held, List.map_cons, List.sum_cons,
        sum_surplus_textOf, Datum.surplus_textOf, Cursor.surplus_word]
      omega

theorem readCall_surplus (accepted : readCall depth start c = .ok (node, after)) :
    surplus c.rest = heldSurplus node.nodes + surplus after.rest := by
  have name : surplus c.skipInlineBlanks.afterWord.skipInlineBlanks.rest = surplus c.rest := by simp
  have held : ∀ (args : List (List Char)) (o : Datum),
      heldSurplus (Node.call (textOf c.skipInlineBlanks.word) (args.map textOf) o).nodes =
        (args.map surplus).sum := by
    intro args o
    simp only [Node.nodes, heldSurplus_cons, heldSurplus_nil, Node.held, List.map_cons,
      List.sum_cons, sum_surplus_textOf, Datum.surplus_textOf, Cursor.surplus_word]
    omega
  simp only [readCall] at accepted
  split at accepted
  · cases accepted
  · split at accepted
    · rename_i here
      obtain ⟨⟨args, next⟩, listed, accepted⟩ := bind_eq_ok.mp accepted
      cases accepted
      rw [held, ← name]
      exact readEntries_surplus here listed
    · cases accepted
      rw [held, surplus_words, surplus_trim, ← name]
      exact Cursor.surplus_line _ _

theorem readLoop_surplus (nested : Accounts read)
    (accepted : readLoop read depth start c = .ok (node, after)) :
    surplus c.rest = heldSurplus node.nodes + surplus after.rest := by
  obtain ⟨count, number, accepted⟩ := bind_eq_ok.mp accepted
  cases count with
  | none => cases accepted
  | some count =>
    obtain ⟨⟨body, last⟩, inside, accepted⟩ := bind_eq_ok.mp accepted
    cases accepted
    have block := expectBlock_surplus nested inside
    simp only [Cursor.surplus_skipInlineBlanks, Cursor.surplus_afterWord] at block
    rw [block, Node.nodes, heldSurplus_cons, Node.held, List.map_nil, List.sum_nil, Int.zero_add]

theorem readAssign_surplus (accepted : readAssign depth start c = .ok (node, after)) :
    surplus c.rest = heldSurplus node.nodes + surplus after.rest := by
  obtain ⟨before, text, value, whole, -, -, -, -, number, rfl⟩ := readAssign_parts accepted
  have equals : surplus ['='] = 0 := rfl
  have read := surplus_literal number
  have line := congrArg surplus whole
  rw [c.surplus_skipInlineBlanks, surplus_append, surplus_cons, surplus_append, equals] at line
  rw [surplus_trim] at read
  simp only [Node.nodes, heldSurplus_cons, heldSurplus_nil, Node.held, List.map_cons, List.map_nil,
    List.sum_cons, List.sum_nil, Datum.surplus_textOf, surplus_dropDollar, surplus_trim]
  omega

theorem readOperands_surplus {op : Operator} {pos : Nat} {entries : List (List Char)} {ns : List Int}
    (accepted : readOperands op pos entries = .ok ns) : (entries.map surplus).sum = 0 := by
  induction entries generalizing pos ns with
  | nil => rfl
  | cons entry entries ih =>
    rw [List.map_cons, List.sum_cons, ← surplus_trim entry]
    simp only [readOperands] at accepted
    split at accepted
    · rename_i blank
      rw [List.isEmpty_iff.mp blank, ih accepted]
      rfl
    · obtain ⟨number, found, accepted⟩ := bind_eq_ok.mp accepted
      cases number with
      | none => cases accepted
      | some first =>
        obtain ⟨others, tail, accepted⟩ := bind_eq_ok.mp accepted
        rw [surplus_readWhole (orFault_eq_ok.mp found), ih tail]
        rfl

theorem readMath_surplus {op : Operator} {keyword : List Char} (here : c.peek = some '(')
    (plain : surplus keyword = 0) (accepted : readMath op keyword start c = .ok (node, after)) :
    surplus c.rest = heldSurplus node.nodes + surplus after.rest := by
  unfold readMath at accepted
  split at accepted
  · cases accepted
  · rename_i text close found
    obtain ⟨operands, listed, accepted⟩ := bind_eq_ok.mp accepted
    split at accepted
    · cases accepted
    · cases accepted
      have numbers := readOperands_surplus listed
      rw [surplus_cut (by decide) (by decide)] at numbers
      rw [surplus_list here found, numbers]
      simp [Node.nodes, heldSurplus_cons, Node.held, plain]

/-- A conditional without an else-branch holds no more than its condition and first branch. -/
theorem heldSurplus_branch (condition : Datum) (yes no : Node) (o : Datum) :
    heldSurplus (Node.branch condition yes no o).nodes =
      condition.surplus + heldSurplus yes.nodes + heldSurplus no.nodes := by
  by_cases absent : no = .missing
  · subst absent
    simp [Node.nodes, heldSurplus_cons, Node.held]
  · rw [Node.nodes_branch absent]
    simp [heldSurplus_cons, Node.held, Int.add_assoc]

theorem readBranch_surplus (nested : Accounts read) {bound : Nat}
    (accepted : readBranch read depth bound start c = .ok (node, after)) :
    surplus c.rest = heldSurplus node.nodes + surplus after.rest := by
  induction bound generalizing start c node after with
  | zero => cases accepted
  | succ bound ih =>
    simp only [readBranch] at accepted
    split at accepted
    · cases accepted
    · rename_i text brace found
      split at accepted
      · cases accepted
      · obtain ⟨⟨yes, next⟩, inside, accepted⟩ := bind_eq_ok.mp accepted
        have here : brace.peek = some '{' := by
          obtain ⟨rest, -, rfl⟩ := Cursor.upTo_some found
          rfl
        have condition := Cursor.surplus_upTo found
        have block := readBlock_surplus nested here inside
        rw [Cursor.surplus_skipInlineBlanks] at condition
        -- what follows the first branch adds what the else-branch holds
        have both : ∀ {no : Node} {last : Cursor},
            surplus next.rest = heldSurplus no.nodes + surplus last.rest →
            surplus c.rest =
              heldSurplus (Node.branch (textOf (trim text)) yes no (atOffset start)).nodes +
                surplus last.rest := by
          intro no last second
          rw [heldSurplus_branch, Datum.surplus_textOf, surplus_trim]
          omega
        dsimp only at accepted
        split at accepted
        · split at accepted
          · obtain ⟨⟨no, last⟩, chain, accepted⟩ := bind_eq_ok.mp accepted
            cases accepted
            have other := ih chain
            simp only [Cursor.surplus_afterWord, Cursor.surplus_skipBlanks] at other
            exact both other
          · obtain ⟨⟨no, last⟩, final, accepted⟩ := bind_eq_ok.mp accepted
            cases accepted
            have other := expectBlock_surplus nested final
            simp only [Cursor.surplus_afterWord, Cursor.surplus_skipBlanks] at other
            exact both other
        · cases accepted
          exact both (Int.zero_add _).symm

theorem readStatementWith_accounts (nested : Accounts read) : Accounts (readStatementWith read) := by
  intro depth c node after accepted
  rw [← c.surplus_skipBlanks]
  simp only [readStatementWith] at accepted
  split at accepted
  · rename_i here
    exact readBlock_surplus nested here accepted
  · cases accepted
  · split at accepted
    · cases accepted
    · rw [← Cursor.surplus_afterWord]
      split at accepted
      · exact readSay_surplus accepted
      · exact readDefine_surplus nested accepted
      · exact readCall_surplus accepted
      · exact readLoop_surplus nested accepted
      · exact readBranch_surplus nested accepted
      · exact readAssign_surplus accepted
      · rename_i op named
        exact readMath_surplus (Command.ofWord?_math named) (Cursor.surplus_word _) accepted
      · cases accepted

end Readers

theorem readStatement_accounts (bound : Nat) : Accounts (readStatement bound) := by
  induction bound with
  | zero =>
    intro depth c node after accepted
    cases accepted
  | succ bound ih => exact readStatementWith_accounts ih

theorem readUntilEnd_surplus {read : StatementReader} (nested : Accounts read) {depth bound : Nat}
    {c : Cursor} {body : List Node} (accepted : readUntilEnd (read depth) bound c = .ok body) :
    surplus c.rest = heldSurplus (Node.nodesIn body) := by
  induction bound generalizing c body with
  | zero => cases accepted
  | succ bound ih =>
    rw [← c.surplus_skipBlanks]
    simp only [readUntilEnd] at accepted
    split at accepted
    · rename_i none
      cases accepted
      rw [List.isEmpty_iff.mp none]
      rfl
    · obtain ⟨⟨first, next⟩, head, accepted⟩ := bind_eq_ok.mp accepted
      obtain ⟨others, tail, accepted⟩ := bind_eq_ok.mp accepted
      cases accepted
      rw [nested head, ih tail, Node.nodesIn, heldSurplus_append]

/-- The braces of a source that are not in its texts are paired. -/
theorem parse_surplus {source : List Char} {body : List Node}
    (accepted : parse source = .ok (.program body)) :
    surplus source = heldSurplus (Node.nodesIn body) := by
  have read := readUntilEnd_surplus (readStatement_accounts _) (parse_eq_ok.mp accepted)
  simpa [Cursor.start] using read

section Spans
variable {read : StatementReader} {depth : Nat} {c after : Cursor} {node : Node}

/-- The statements of a block end before a closing brace. -/
theorem readUntilClose_span (nested : Places read) {opened bound : Nat} {nodes : List Node}
    (accepted : readUntilClose (read depth) opened bound c = .ok (nodes, after)) :
    ∃ inner, c.rest = inner ++ '}' :: after.rest ∧ after.pos = c.pos + inner.length + 1 := by
  induction bound generalizing c nodes with
  | zero => cases accepted
  | succ bound ih =>
    have blanks := Cursor.LeadsTo.skipBlanks c
    simp only [readUntilClose] at accepted
    split at accepted
    · cases accepted
    · rename_i here
      cases accepted
      obtain ⟨text, rest, pos⟩ := blanks
      obtain ⟨tail, close⟩ := List.head?_eq_some_iff.mp here
      refine ⟨text, ?_, ?_⟩
      · rw [rest, close, Cursor.advance, close]
        rfl
      · rw [Cursor.pos_advance here, pos]
    · obtain ⟨⟨first, next⟩, head, accepted⟩ := bind_eq_ok.mp accepted
      obtain ⟨⟨others, last⟩, tail, accepted⟩ := bind_eq_ok.mp accepted
      cases accepted
      obtain ⟨text, rest, pos⟩ := blanks.trans (nested head).leads
      obtain ⟨inner, left, later⟩ := ih tail
      dsimp only at left later
      refine ⟨text ++ inner, ?_, ?_⟩
      · rw [rest, left, List.append_assoc]
      · rw [later, pos, List.length_append]
        omega

theorem readBlock_span (nested : Places read) (here : c.peek = some '{')
    (accepted : readBlock read depth c = .ok (node, after)) :
    ∃ inner, c.rest = '{' :: inner ++ ['}'] ++ after.rest ∧
      after.pos = c.pos + ('{' :: inner ++ ['}']).length := by
  obtain ⟨⟨statements, last⟩, inside, accepted⟩ := bind_eq_ok.mp accepted
  cases accepted
  obtain ⟨inner, rest, pos⟩ := readUntilClose_span nested inside
  obtain ⟨tail, opening⟩ := List.head?_eq_some_iff.mp here
  rw [Cursor.pos_advance here] at pos
  refine ⟨inner, ?_, ?_⟩
  · rw [Cursor.advance, opening] at rest
    rw [opening, List.append_assoc, List.singleton_append, List.cons_append, ← rest]
    rfl
  · simp [pos]
    omega

end Spans

/-- A block that was read from a brace of a source on ends at a closing one. The text
between them has more opening braces than closing ones by as many as the texts that the
block holds, so it is balanced just if these are. -/
theorem readBlock_balance {source : List Char} {p bound depth : Nat} {node : Node} {after : Cursor}
    (opened : source[p]? = some '{')
    (accepted : readBlock (readStatement bound) depth ⟨p, source.drop p⟩ = .ok (node, after)) :
    after.rest = source.drop after.pos ∧
    (∃ inner, source.extract p after.pos = '{' :: inner ++ ['}']) ∧
    surplus (source.extract p after.pos) = heldSurplus node.nodes ∧
    ((source.extract p after.pos).count '{' = (source.extract p after.pos).count '}' ↔
      heldSurplus node.nodes = 0) := by
  have here : Cursor.peek ⟨p, source.drop p⟩ = some '{' := by
    rw [Cursor.peek, List.head?_drop, opened]
  obtain ⟨inner, whole, pos⟩ := readBlock_span (readStatement_places bound) here accepted
  have held := readBlock_surplus (readStatement_accounts bound) here accepted
  obtain ⟨text, rest⟩ := extract_of_drop whole
  dsimp only at pos
  rw [← pos] at text rest
  have balance : surplus (source.extract p after.pos) = heldSurplus node.nodes := by
    rw [whole, surplus_append, ← text] at held
    omega
  rw [← balance]
  exact ⟨rest.symm, ⟨inner, text⟩, rfl, surplus_eq_zero.symm⟩

def pairedMessage : List Char := "repeat 2 \x7b say \x7ba\x7d \x7d".toList

theorem readBlock_balance_pairedMessage :
    ∃ node after,
      readBlock (readStatement 1) 0 ⟨9, pairedMessage.drop 9⟩ = .ok (node, after) ∧
      (pairedMessage.extract 9 after.pos).count '{' =
        (pairedMessage.extract 9 after.pos).count '}' := by
  have accepted : readBlock (readStatement 1) 0 ⟨9, pairedMessage.drop 9⟩ =
      .ok (.block [.say (textOf ['{', 'a', '}']) (atOffset 11)] (atOffset 9), ⟨20, []⟩) := rfl
  have balance := readBlock_balance (by decide) accepted
  have held : heldSurplus
      (Node.block [.say (textOf ['{', 'a', '}']) (atOffset 11)] (atOffset 9)).nodes = 0 := by
    simp [Node.nodes, Node.nodesIn, heldSurplus, Node.held, surplus]
  exact ⟨_, _, accepted, balance.2.2.2.mpr held⟩

/-- A message goes on to the end of its line and may open a brace that nothing closes. -/
def openMessage : List Char := "\x7b say \x7b\n\x7d".toList

theorem readBlock_openMessage :
    openMessage[0]? = some '{' ∧
    ∃ node after, readBlock (readStatement 1) 0 ⟨0, openMessage⟩ = .ok (node, after) ∧
      (openMessage.extract 0 after.pos).count '{' = 2 ∧
      (openMessage.extract 0 after.pos).count '}' = 1 :=
  ⟨rfl, .block [.say (textOf ['{']) (atOffset 2)] (atOffset 0), ⟨9, []⟩, rfl, by decide, by decide⟩

end Primer
