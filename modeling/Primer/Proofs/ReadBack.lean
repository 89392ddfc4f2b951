import Primer.Proofs.Rendering

/-! Main statement: a tree whose texts keep to the places they are written in is read
back from its source text, up to offsets and the spelling of keywords. -/
namespace Primer

open Node

/-- What may stand after a statement: a newline, and then nothing that reads as an
`else`. -/
structure Follows (rest : List Char) : Prop where
  newline : ∃ after, rest = '\n' :: after ∧ Stops isBlank after ∧ ∀ c ∈ after.head?, c.toLower ≠ 'e'

theorem Follows.of_stops {after : List Char} (stop : Stops isBlank after)
    (other : ∀ c ∈ after.head?, c.toLower ≠ 'e') : Follows ('\n' :: after) :=
  ⟨after, rfl, stop, other⟩

theorem Follows.nextWord {rest : List Char} (follows : Follows rest) (pos : Nat) :
    lower (Cursor.nextWord ⟨pos, rest⟩) ≠ ['e', 'l', 's', 'e'] := by
  obtain ⟨after, rfl, stop, other⟩ := follows.newline
  rw [Cursor.nextWord, Cursor.skipBlanks_newline pos stop]
  intro same
  cases after with
  | nil => cases same
  | cons c after =>
    simp only [Cursor.word, List.takeWhile_cons, lower] at same
    split at same
    · exact other c rfl (List.cons.inj same).1
    · cases same

/-- A character that a statement's text may start with. -/
def Leads (c : Char) : Prop := isBlank c = false ∧ c ≠ '}' ∧ c.toLower ≠ 'e'

instance (c : Char) : Decidable (Leads c) := inferInstanceAs (Decidable (_ ∧ _ ∧ _))

theorem render_head {inBlock : Bool} {node : Node} (writable : node.Writable inBlock) :
    ∃ c s, node.render = c :: s ∧ Leads c := by
  cases writable with
  | say => exact ⟨'s', _, rfl, by decide⟩
  | @math _ op =>
    cases op with
    | add => exact ⟨'a', _, rfl, by decide⟩
    | subtract => exact ⟨'s', _, rfl, by decide⟩
    | multiply | modulo => exact ⟨'m', _, rfl, by decide⟩
    | divide => exact ⟨'d', _, rfl, by decide⟩
    | power => exact ⟨'p', _, rfl, by decide⟩
  | block => exact ⟨'{', _, rfl, by decide⟩
  | loop => exact ⟨'r', _, rfl, by decide⟩
  | define => exact ⟨'f', _, rfl, by decide⟩
  | call => exact ⟨'c', _, rfl, by decide⟩
  | branch | branchElse => exact ⟨'i', _, rfl, by decide⟩
  | assignNumber | assignText => exact ⟨'s', _, rfl, by decide⟩

theorem render_pos {inBlock : Bool} {node : Node} (writable : node.Writable inBlock) :
    0 < node.render.length := by
  obtain ⟨c, s, text, _⟩ := render_head writable
  rw [text]
  exact Nat.succ_pos _

/-- The text of statements, or what comes after them, starts with no blank and no `else`. -/
theorem renderAll_stops {inBlock : Bool} {nodes : List Node}
    (writable : ∀ n ∈ nodes, n.Writable inBlock) {rest : List Char} (stop : Stops isBlank rest)
    (other : ∀ c ∈ rest.head?, c.toLower ≠ 'e') :
    Stops isBlank (renderAll nodes ++ rest) ∧
      ∀ c ∈ (renderAll nodes ++ rest).head?, c.toLower ≠ 'e' := by
  cases nodes with
  | nil => exact ⟨stop, other⟩
  | cons node nodes =>
    obtain ⟨c, s, text, solid, _, letter⟩ := render_head (writable node List.mem_cons_self)
    simp only [renderAll_cons, text, List.cons_append]
    exact ⟨stops_cons solid, forall_head_cons letter⟩

/-- A reader gives a statement back from its text and stops where the text ends. -/
abbrev Recovers (read : Cursor → Reading (Node × Cursor)) (node : Node) (rest : List Char)
    (pos : Nat) : Prop :=
  ∃ again, read ⟨pos, node.render ++ rest⟩ = .ok (again, ⟨pos + node.render.length, rest⟩) ∧
    again.same node = true

/-- A reader of nested statements that gives back every statement whose text is no longer
than a bound. -/
def ReadsBack (read : StatementReader) (size : Nat) : Prop :=
  ∀ ⦃depth node rest⦄, node.Writable (decide (0 < depth)) → node.render.length ≤ size →
    Follows rest → ∀ pos, Recovers (read depth) node rest pos

theorem params_written {params : List String} (all : ∀ p ∈ params, IsEntry p.toList) :
    ∀ e ∈ params.map fun p => '$' :: p.toList, IsEntry e := by
  intro e inside
  obtain ⟨p, member, rfl⟩ := List.mem_map.mp inside
  have entry := all p member
  exact ⟨List.cons_ne_nil _ _,
    by rw [trim_cons (by decide), trimEnd_of_trimmed entry.trimmed],
    by simpa using entry.noComma, by simpa using entry.noParen⟩

@[simp] theorem agrees_text (s : String) : (Datum.text s).agrees (.text s) = true := by
  simp [Datum.agrees, Datum.same]

@[simp] theorem agrees_int (n : Int) : (Datum.int n).agrees (.int n) = true := by
  simp [Datum.agrees, Datum.same, Datum.same.numberIs, Datum.number?, Datum.sameNumber]

theorem textOf_toList (s : String) : textOf s.toList = .text s := by simp [textOf]

theorem texts_toList (texts : List String) : (texts.map String.toList).map textOf = texts.map .text := by
  simp [textOf]

theorem sameAll_text (texts : List String) :
    Datum.sameAll (texts.map .text) (texts.map .text) = true := by
  induction texts with
  | nil => rfl
  | cons t texts ih => simp [Datum.sameAll, Datum.same, ih]

theorem block_head {body : Node} (isBlock : body.isBlock = true) : ∃ s, body.render = '{' :: s := by
  cases body with
  | block => exact ⟨_, rfl⟩
  | _ => cases isBlock

theorem length_le_renderAll (nodes : List Node) : nodes.length ≤ (renderAll nodes).length := by
  induction nodes with
  | nil => exact Nat.le_refl 0
  | cons node nodes ih =>
    simp only [renderAll_cons, List.length_cons, List.length_append]
    omega

theorem render_branch_length (condition : String) (yes no : Node) (o : Datum) :
    (branch (.text condition) yes no o).render.length =
      4 + condition.toList.length + yes.render.length + (elseText no no.render).length := by
  simp [render_branch]
  omega

theorem elseText_of_alternative {no : Node} (alternative : no.isAlternative = true)
    (text : List Char) : elseText no text = " else ".toList ++ text := by
  cases no with
  | block | branch => rfl
  | _ => cases alternative

theorem length_le_elseText (no : Node) : no.render.length ≤ (elseText no no.render).length := by
  cases no with
  | missing => exact Nat.le_refl 0
  | _ =>
    simp only [elseText, List.length_append]
    omega

theorem writable_branch {inBlock : Bool} {condition o : Datum} {yes no : Node}
    (writable : (branch condition yes no o).Writable inBlock) :
    ∃ text, condition = .text text ∧ IsCondition text.toList ∧ yes.isBlock = true ∧
      yes.Writable inBlock ∧ (no = .missing ∨ no.isAlternative = true ∧ no.Writable inBlock) := by
  cases writable with
  | branch free isBlock yes => exact ⟨_, rfl, free, isBlock, yes, .inl rfl⟩
  | branchElse free isBlock yes alternative no =>
    exact ⟨_, rfl, free, isBlock, yes, .inr ⟨alternative, no⟩⟩

theorem ok_place {a : α} {p q : Nat} {rest : List Char} (same : p = q) :
    (.ok (a, ⟨p, rest⟩) : Reading (α × Cursor)) = .ok (a, ⟨q, rest⟩) := by
  rw [same]

section Commands
variable {read : StatementReader} {depth pos : Nat} {node : Node}

/-- A statement is read back if its command is, from the space after its word on. -/
theorem recovers_command (word : List Char) (command : Command) {tail rest : List Char} {last : Nat}
    (text : node.render ++ rest = word ++ ' ' :: tail) (nonempty : word ≠ [])
    (solid : ∀ ch ∈ word, isWordStop ch = false)
    (named : Command.ofWord? word (some ' ') = some command)
    (step : ∃ again, readCommand read depth pos word ⟨pos + word.length, ' ' :: tail⟩ command =
      .ok (again, ⟨last, rest⟩) ∧ again.same node = true)
    (place : last = pos + node.render.length) :
    Recovers (readStatementWith read depth) node rest pos := by
  obtain ⟨again, step, same⟩ := step
  have stop : ∀ ch ∈ (' ' :: tail).head?, isWordStop ch = true :=
    forall_head_cons rfl
  refine ⟨again, ?_, same⟩
  rw [text, ← place, readStatementWith_word read depth pos command nonempty solid stop named, step]

theorem recovers_say {m : String} (message : IsMessage m.toList)
    (closed : decide (0 < depth) = true → ClosesNothing m.toList) (o : Datum) (after : List Char) :
    Recovers (readStatementWith read depth) (.say (.text m) o) ('\n' :: after) pos := by
  refine recovers_command "say".toList .say rfl (by decide) (solid_of_all rfl) rfl
    ⟨_, readSay_written message closed (pos + 3) after, ?_⟩ ?_
  · simp [Node.same, textOf_toList]
  · simp [render_say]
    omega

theorem recovers_math {ns : List Int} (nonempty : ns ≠ [])
    (small : ∀ n ∈ ns, n.natAbs < tenTo digitLimit) (op : Operator) (keyword o : Datum)
    (rest : List Char) :
    Recovers (readStatementWith read depth) (.math op ns keyword o) rest pos := by
  have named : Command.ofWord? op.name.toList (some '(') = some (.math op) := by cases op <;> rfl
  have solid : ∀ ch ∈ op.name.toList, isWordStop ch = false := by
    cases op <;> exact solid_of_all rfl
  have stop : ∀ ch ∈ (parenList (ns.map numeral) ++ rest).head?, isWordStop ch = true :=
    forall_head_cons rfl
  refine ⟨.math op ns (textOf op.name.toList) (atOffset pos), ?_, by simp [Node.same]⟩
  rw [render_math, List.append_assoc,
    readStatementWith_word read depth pos (.math op) (by cases op <;> decide) solid stop named]
  refine (readMath_parenList nonempty small op op.name.toList _ rest).trans ?_
  refine ok_place ?_
  simp only [List.length_append]
  omega

theorem recovers_call {name : String} (named : IsName name.toList) {args : List String}
    (all : ∀ a ∈ args, IsEntry a.toList) (o : Datum) (rest : List Char) :
    Recovers (readStatementWith read depth) (.call (.text name) (args.map .text) o) rest pos := by
  have entries : ∀ a ∈ args.map String.toList, IsEntry a := by
    intro a inside
    obtain ⟨b, member, rfl⟩ := List.mem_map.mp inside
    exact all b member
  refine recovers_command "call".toList .call (by simp [render_call]) (by decide) (solid_of_all rfl) rfl
    ⟨_, readCall_written named entries (pos + 4) rest, ?_⟩ ?_
  · rw [texts_toList, textOf_toList]
    simp [Node.same, sameAll_text]
  · simp [render_call]
    omega

theorem recovers_assign {name : String} (named : IsVariable name.toList) {value : Datum}
    (final : IsLiteral (decide (0 < depth)) value.written value)
    (alike : value.agrees value = true) (o : Datum) (after : List Char) :
    Recovers (readStatementWith read depth) (.assign (.text name) value o) ('\n' :: after) pos := by
  refine recovers_command "set".toList .assign (by simp [render_assign]) (by decide)
    (solid_of_all rfl) rfl ⟨_, readAssign_written named final (pos + 3) after, ?_⟩ ?_
  · simp [Node.same, textOf_toList, alike]
  · simp [render_assign]
    omega

end Commands

section Nested
variable {read : StatementReader} {size : Nat} (nested : ReadsBack read size)
include nested

theorem readUntilClose_render {nodes : List Node} (writable : ∀ n ∈ nodes, n.Writable true)
    (short : (renderAll nodes).length ≤ size) {bound : Nat} (enough : nodes.length < bound)
    (depth opened pos : Nat) (rest : List Char) :
    ∃ again, readUntilClose (read (depth + 1)) opened bound
        ⟨pos, '\n' :: (renderAll nodes ++ '}' :: rest)⟩ =
        .ok (again, ⟨pos + (renderAll nodes).length + 2, rest⟩) ∧ sameIn again nodes = true := by
  have close : Stops isBlank ('}' :: rest) := stops_cons rfl
  induction nodes generalizing bound pos with
  | nil =>
    cases bound with
    | zero => cases enough
    | succ bound =>
      have here : Cursor.skipBlanks ⟨pos, '\n' :: (renderAll [] ++ '}' :: rest)⟩ =
          ⟨pos + 1, '}' :: rest⟩ := Cursor.skipBlanks_newline pos close
      refine ⟨[], ?_, rfl⟩
      rw [readUntilClose_close _ _ _ (by rw [here]; rfl), here]
      rfl
  | cons node nodes ih =>
    cases bound with
    | zero => cases enough
    | succ bound =>
      obtain ⟨first, others⟩ := List.forall_mem_cons.mp writable
      simp only [renderAll_cons, List.length_append, List.length_cons] at short enough
      have tail := renderAll_stops others close (by simp)
      have start := renderAll_stops writable close (by simp)
      have inside : node.Writable (decide (0 < depth + 1)) := by simpa using first
      obtain ⟨again, here, same⟩ := nested inside (by omega) (.of_stops tail.1 tail.2) (pos + 1)
      obtain ⟨more, later, alike⟩ := ih others (by omega) (Nat.lt_of_succ_lt_succ enough)
        (pos + 1 + node.render.length)
      refine ⟨again :: more, ?_, by simp [sameIn, same, alike]⟩
      obtain ⟨c, s, text, _, other, _⟩ := render_head first
      have skipped := Cursor.skipBlanks_newline pos start.1
      simp only [renderAll_cons, List.append_assoc, List.cons_append] at skipped ⊢
      have peek : Cursor.peek (Cursor.skipBlanks
          ⟨pos, '\n' :: (node.render ++ '\n' :: (renderAll nodes ++ '}' :: rest))⟩) = some c := by
        rw [skipped, text]
        rfl
      rw [readUntilClose_next _ _ _ peek other, skipped, here, ok_bind]
      simp only [later, ok_bind]
      refine ok_place ?_
      simp only [List.length_append, List.length_cons]
      omega

/-- A block is read back whatever follows its closing brace. -/
theorem readBlock_render {inBlock : Bool} {body : Node} (isBlock : body.isBlock = true)
    (writable : body.Writable inBlock) (short : body.render.length ≤ size + 1)
    (depth pos : Nat) (rest : List Char) : Recovers (readBlock read depth) body rest pos := by
  cases writable with
  | @block _ nodes o all =>
    have text : (block nodes o).render ++ rest =
        '{' :: '\n' :: (renderAll nodes ++ '}' :: rest) := by simp [render_block]
    have length : (block nodes o).render.length = (renderAll nodes).length + 3 := by
      simp [render_block]
    have count := length_le_renderAll nodes
    have enough : nodes.length < (Cursor.rest ⟨pos, (block nodes o).render ++ rest⟩).length + 1 := by
      simp only [List.length_append, length]
      omega
    obtain ⟨again, inside, same⟩ :=
      readUntilClose_render nested all (by omega) enough depth pos (pos + 1) rest
    refine ⟨.block again (atOffset pos), ?_, by simpa [Node.same] using same⟩
    have opened : Cursor.advance ⟨pos, (block nodes o).render ++ rest⟩ 1 =
        ⟨pos + 1, '\n' :: (renderAll nodes ++ '}' :: rest)⟩ := by
      simp [text, Cursor.advance]
    simp only [readBlock, opened, inside, ok_bind, length]
    exact ok_place (by omega)
  | _ => cases isBlock

theorem expectBlock_render {inBlock : Bool} {body : Node} (isBlock : body.isBlock = true)
    (writable : body.Writable inBlock) (short : body.render.length ≤ size + 1) (what : String)
    (depth pos : Nat) (rest : List Char) :
    ∃ again, expectBlock read what depth ⟨pos, ' ' :: (body.render ++ rest)⟩ =
        .ok (again, ⟨pos + 1 + body.render.length, rest⟩) ∧ again.same body = true := by
  obtain ⟨s, text⟩ := block_head isBlock
  obtain ⟨again, inside, same⟩ := readBlock_render nested isBlock writable short depth (pos + 1) rest
  have here : Cursor.skipBlanks ⟨pos, ' ' :: (body.render ++ rest)⟩ = ⟨pos + 1, body.render ++ rest⟩ :=
    Cursor.skipBlanks_space pos (by rw [text]; exact stops_cons rfl)
  have peek : Cursor.peek ⟨pos + 1, body.render ++ rest⟩ = some '{' := by rw [text]; rfl
  refine ⟨again, ?_, same⟩
  simp only [expectBlock, here, peek, if_true, inside]

theorem readLoop_render {inBlock : Bool} {count : Int} (small : count.natAbs < tenTo digitLimit)
    {body : Node} (isBlock : body.isBlock = true) (writable : body.Writable inBlock)
    (short : body.render.length ≤ size + 1) (depth start pos : Nat) (o : Datum)
    (rest : List Char) :
    ∃ again, readLoop read depth start ⟨pos, ' ' :: (numeral count ++ ' ' :: (body.render ++ rest))⟩ =
        .ok (again, ⟨pos + 2 + (numeral count).length + body.render.length, rest⟩) ∧
      again.same (.loop count body o) = true := by
  have named := numeral_isName count
  have stop : ∀ c ∈ (' ' :: (body.render ++ rest)).head?, isWordStop c = true :=
    forall_head_cons rfl
  have number : readWhole (numeral count) = .ok (some count) := readWhole_toString small
  obtain ⟨again, inside, same⟩ := expectBlock_render nested isBlock writable short "repeat" depth
    (pos + 1 + (numeral count).length) rest
  refine ⟨.loop count again (atOffset start), ?_, by simp [Node.same, same]⟩
  simp only [readLoop, Cursor.skipInlineBlanks_space pos (name_stops named _),
    Cursor.word_append named.solid stop, Cursor.afterWord_append named.solid stop, number,
    orFault_ok, ok_bind, inside]
  exact ok_place (by omega)

theorem readDefine_render {inBlock : Bool} {name : String} (named : IsName name.toList)
    {params : List String} (all : ∀ p ∈ params, IsEntry p.toList) {body : Node}
    (isBlock : body.isBlock = true) (writable : body.Writable inBlock)
    (short : body.render.length ≤ size + 1) (depth start pos : Nat) (o : Datum)
    (rest : List Char) :
    ∃ again, readDefine read depth start ⟨pos, ' ' :: (name.toList ++
          (parenList (params.map fun p => '$' :: p.toList) ++ ' ' :: (body.render ++ rest)))⟩ =
        .ok (again, ⟨pos + 2 + name.toList.length +
          (parenList (params.map fun p => '$' :: p.toList)).length + body.render.length, rest⟩) ∧
      again.same (.define (.text name) (params.map .text) body o) = true := by
  have written := params_written all
  generalize entries : (params.map fun p => '$' :: p.toList) = list at written ⊢
  have stop : ∀ c ∈ (parenList list ++ ' ' :: (body.render ++ rest)).head?, isWordStop c = true :=
    forall_head_cons rfl
  have shown : name.toList.isEmpty = false := List.isEmpty_eq_false_iff.mpr named.nonempty
  have inline : Stops isInlineBlank (parenList list ++ ' ' :: (body.render ++ rest)) :=
    stops_cons rfl
  have peek : Cursor.peek ⟨pos + 1 + name.toList.length,
      parenList list ++ ' ' :: (body.render ++ rest)⟩ = some '(' := rfl
  have bare : list.map dropDollar = params.map String.toList := by
    rw [← entries, List.map_map]
    rfl
  have full : (params.map String.toList).any (·.isEmpty) = false := by
    rw [List.any_eq_false]
    intro p inside
    obtain ⟨q, member, rfl⟩ := List.mem_map.mp inside
    simpa using (all q member).nonempty
  obtain ⟨again, inside, same⟩ := expectBlock_render nested isBlock writable short
    ("body of function '" ++ String.ofList name.toList ++ "'") depth
    (pos + 1 + name.toList.length + (parenList list).length) rest
  refine ⟨.define (.text name) (params.map .text) again (atOffset start), ?_, ?_⟩
  · simp only [readDefine, Cursor.skipInlineBlanks_space pos (name_stops named _),
      Cursor.word_append named.solid stop, Cursor.afterWord_append named.solid stop, shown,
      Cursor.skipInlineBlanks_stops _ inline, readParams, peek, if_true,
      readEntries_parenList written, ok_bind, full, inside, bare, texts_toList, textOf_toList]
    exact ok_place (by omega)
  · simp [Node.same, sameAll_text, same]

theorem readBranch_yes {inBlock : Bool} {condition : String} (free : IsCondition condition.toList)
    {yes : Node} (isBlock : yes.isBlock = true) (writable : yes.Writable inBlock)
    (short : yes.render.length ≤ size + 1) (bound depth start pos : Nat) (tail : List Char) :
    ∃ again, again.same yes = true ∧
      readBranch read depth (bound + 1) start
          ⟨pos, ' ' :: (condition.toList ++ ' ' :: (yes.render ++ tail))⟩ =
        let c : Cursor := ⟨pos + 2 + condition.toList.length + yes.render.length, tail⟩
        if lower c.nextWord = ['e', 'l', 's', 'e'] then
          let c := c.skipBlanks.afterWord
          if lower c.nextWord = ['i', 'f'] then do
            let c := c.skipBlanks
            let (no, after) ← readBranch read depth bound c.pos c.afterWord
            return (.branch (.text condition) again no (atOffset start), after)
          else do
            let (no, after) ← expectBlock read "else" depth c
            return (.branch (.text condition) again no (atOffset start), after)
        else return (.branch (.text condition) again .missing (atOffset start), c) := by
  obtain ⟨s, brace⟩ := block_head isBlock
  have solid : Stops isInlineBlank (condition.toList ++ ' ' :: (yes.render ++ tail)) := by
    obtain ⟨c, cs, chars⟩ := List.exists_cons_of_ne_nil free.nonempty
    have trimmed := free.trimmed
    rw [chars] at trimmed ⊢
    exact stops_inline (stops_cons (trimmed_cons trimmed).1)
  have noBrace : '{' ∉ condition.toList ++ [' '] := by simpa using free.noBrace
  have found : Cursor.upTo ⟨pos + 1, condition.toList ++ ' ' :: (yes.render ++ tail)⟩ '{' =
      some (condition.toList ++ [' '],
        ⟨pos + 2 + condition.toList.length, yes.render ++ tail⟩) := by
    have place : pos + 1 + (condition.toList ++ [' ']).length =
        pos + 2 + condition.toList.length := by
      simp
      omega
    have split := Cursor.upTo_append noBrace (pos + 1) (s ++ tail)
    rw [place] at split
    simpa [brace] using split
  have trimmed : trim (condition.toList ++ [' ']) = condition.toList := by
    rw [trim_append_blank (by decide), free.trimmed]
  have shown : condition.toList.isEmpty = false := List.isEmpty_eq_false_iff.mpr free.nonempty
  obtain ⟨again, inside, same⟩ := readBlock_render nested isBlock writable short depth
    (pos + 2 + condition.toList.length) tail
  refine ⟨again, same, ?_⟩
  simp only [readBranch, Cursor.skipInlineBlanks_space pos solid, found, trimmed, shown, inside,
    ok_bind, textOf_toList]
  rfl

/-- A conditional is read back with its chain of alternatives, `bound` of them at most. -/
theorem readBranch_render {inBlock : Bool} {condition : String} (free : IsCondition condition.toList)
    {yes no : Node} (isBlock : yes.isBlock = true) (writable : yes.Writable inBlock)
    (other : no = .missing ∨ no.isAlternative = true ∧ no.Writable inBlock)
    {rest : List Char} (follows : Follows rest) {bound : Nat} (enough : no.render.length < bound)
    (short : yes.render.length + no.render.length ≤ size + 1) (depth start pos : Nat) (o : Datum) :
    ∃ again, readBranch read depth bound start ⟨pos, ' ' :: (condition.toList ++
          ' ' :: (yes.render ++ (elseText no no.render ++ rest)))⟩ =
        .ok (again, ⟨pos + 2 + condition.toList.length + yes.render.length +
          (elseText no no.render).length, rest⟩) ∧
      again.same (.branch (.text condition) yes no o) = true := by
  -- the chain gets shorter with each alternative, so the induction is on its bound
  induction bound generalizing condition yes no start pos o with
  | zero => cases enough
  | succ bound ih =>
    obtain ⟨first, same, step⟩ := readBranch_yes nested free isBlock writable (by omega) bound depth
      start pos (elseText no no.render ++ rest)
    generalize place : pos + 2 + condition.toList.length + yes.render.length = q at step ⊢
    rcases other with rfl | ⟨alternative, writableNo⟩
    · refine ⟨.branch (.text condition) first .missing (atOffset start), ?_, ?_⟩
      · rw [step]
        exact if_neg (follows.nextWord q)
      · simp [Node.same, same]
    · have found : ∀ s, lower (Cursor.nextWord ⟨q, " else ".toList ++ s⟩) = ['e', 'l', 's', 'e'] :=
        fun _ => rfl
      have skipped : ∀ s, (Cursor.skipBlanks ⟨q, " else ".toList ++ s⟩).afterWord = ⟨q + 5, ' ' :: s⟩ :=
        fun _ => rfl
      cases no with
      | block nodes o' =>
        obtain ⟨again, inside, alike⟩ := expectBlock_render nested rfl writableNo (by omega) "else"
          depth (q + 5) rest
        have noIf : lower (Cursor.nextWord ⟨q + 5, ' ' :: ((block nodes o').render ++ rest)⟩) ≠
            ['i', 'f'] := by
          intro same
          cases same
        refine ⟨.branch (.text condition) first again (atOffset start), ?_, ?_⟩
        · rw [step]
          simp only [elseText_of_alternative alternative, List.append_assoc, found, skipped, if_true,
            if_neg noIf, inside, ok_bind]
          simp
          omega
        · simp [Node.same, same, alike]
      | branch condition' yes' no' o' =>
        obtain ⟨text, rfl, free', isBlock', writableYes', other'⟩ := writable_branch writableNo
        have length := render_branch_length text yes' no' o'
        have longer := length_le_elseText no'
        obtain ⟨again, inside, alike⟩ := ih free' isBlock' writableYes' other' (by omega) (by omega)
          (q + 6) (q + 8) o'
        have isIf : ∀ s, lower (Cursor.nextWord ⟨q + 5, ' ' :: 'i' :: 'f' :: ' ' :: s⟩) = ['i', 'f'] :=
          fun _ => rfl
        have after : ∀ s, Cursor.afterWord ⟨q + 6, 'i' :: 'f' :: ' ' :: s⟩ = ⟨q + 8, ' ' :: s⟩ :=
          fun _ => rfl
        have here : ∀ s, Cursor.skipBlanks ⟨q + 5, ' ' :: 'i' :: 'f' :: ' ' :: s⟩ =
            ⟨q + 6, 'i' :: 'f' :: ' ' :: s⟩ := fun _ => rfl
        refine ⟨.branch (.text condition) first again (atOffset start), ?_, ?_⟩
        · rw [step]
          simp only [elseText_of_alternative alternative, List.append_assoc, found, skipped, if_true,
            render_branch, List.cons_append, isIf, here, after, inside, ok_bind]
          simp
          omega
        · simp [Node.same, same, alike]
      | _ => cases alternative

theorem recovers_branch {depth : Nat} {condition : String}
    (free : IsCondition condition.toList) {yes no : Node} (isBlock : yes.isBlock = true)
    {inBlock : Bool} (writable : yes.Writable inBlock)
    (other : no = .missing ∨ no.isAlternative = true ∧ no.Writable inBlock) {rest : List Char}
    (follows : Follows rest) {o : Datum}
    (short : (branch (.text condition) yes no o).render.length ≤ size + 1) (pos : Nat) :
    Recovers (readStatementWith read depth) (.branch (.text condition) yes no o) rest pos := by
  have longer := length_le_elseText no
  rw [render_branch_length] at short
  have enough : no.render.length < (' ' :: (condition.toList ++
      ' ' :: (yes.render ++ (elseText no no.render ++ rest)))).length + 1 := by
    simp only [List.length_cons, List.length_append]
    omega
  refine recovers_command "if".toList .branch (by simp [render_branch]) (by decide)
    (solid_of_all rfl) rfl (readBranch_render nested free isBlock writable other follows enough
      (by omega) depth pos (pos + 2) o) ?_
  rw [render_branch_length]
  omega

/-- One statement is read back when the statements nested in it are. -/
theorem readStatementWith_readsBack : ReadsBack (readStatementWith read) (size + 1) := by
  intro depth node rest writable short follows pos
  obtain ⟨after, newline, _⟩ := follows.newline
  cases writable with
  | say message closed =>
    subst newline
    exact recovers_say message closed _ after
  | math nonempty small => exact recovers_math nonempty small _ _ _ rest
  | @block _ nodes o inside =>
    have here : Cursor.skipBlanks ⟨pos, (block nodes o).render ++ rest⟩ =
        ⟨pos, (block nodes o).render ++ rest⟩ := Cursor.skipBlanks_stops pos (stops_cons rfl)
    have writable : (block nodes o).Writable true := .block inside
    obtain ⟨again, step, same⟩ := readBlock_render nested rfl writable short depth pos rest
    refine ⟨again, ?_, same⟩
    rw [readStatementWith_open read depth (by rw [here]; rfl), here, step]
  | @loop _ count body o small isBlock writable =>
    have length : (loop count body o).render.length =
        8 + (numeral count).length + body.render.length := by
      simp [render_loop]
      omega
    refine recovers_command "repeat".toList .loop (by simp [render_loop]) (by decide)
      (solid_of_all rfl) rfl (readLoop_render nested small isBlock writable (by omega) depth pos
        (pos + 6) o rest) ?_
    rw [length]
    omega
  | @define _ name params body o named all isBlock writable =>
    have length : (define (.text name) (params.map .text) body o).render.length =
        10 + name.toList.length + (parenList (params.map fun p => '$' :: p.toList)).length +
          body.render.length := by
      simp [render_define]
      omega
    refine recovers_command "function".toList .define (by simp [render_define]) (by decide)
      (solid_of_all rfl) rfl (readDefine_render nested named all isBlock writable (by omega) depth pos
        (pos + 8) o rest) ?_
    rw [length]
    omega
  | call named all => exact recovers_call named all _ rest
  | branch free isBlock writable =>
    exact recovers_branch nested free isBlock writable (.inl rfl) follows short pos
  | branchElse free isBlock writable alternative writableNo =>
    exact recovers_branch nested free isBlock writable (.inr ⟨alternative, writableNo⟩) follows short pos
  | assignNumber named small =>
    subst newline
    exact recovers_assign named (numeral_isLiteral _ small) (agrees_int _) _ after
  | assignText named oneLine closed =>
    subst newline
    exact recovers_assign named (quoted_isLiteral oneLine closed) (agrees_text _) _ after

end Nested

theorem readStatement_readsBack (bound : Nat) : ReadsBack (readStatement bound) bound := by
  induction bound with
  | zero =>
    intro depth node rest writable short
    have some := render_pos writable
    omega
  | succ bound ih => exact readStatementWith_readsBack ih

theorem readUntilEnd_render {size : Nat} {nodes : List Node}
    (writable : ∀ n ∈ nodes, n.Writable false) (short : (renderAll nodes).length ≤ size)
    {bound : Nat} (enough : nodes.length < bound) {c : Cursor} {pos : Nat}
    (here : c.skipBlanks = ⟨pos, renderAll nodes⟩) :
    ∃ again, readUntilEnd (readStatement size 0) bound c = .ok again ∧
      sameIn again nodes = true := by
  induction nodes generalizing bound c pos with
  | nil =>
    cases bound with
    | zero => cases enough
    | succ bound =>
      refine ⟨[], ?_, rfl⟩
      simp only [readUntilEnd, here]
      rfl
  | cons node nodes ih =>
    cases bound with
    | zero => cases enough
    | succ bound =>
      obtain ⟨first, others⟩ := List.forall_mem_cons.mp writable
      simp only [renderAll_cons, List.length_append, List.length_cons] at short enough here
      have tail := renderAll_stops others stops_nil (by simp)
      rw [List.append_nil] at tail
      have outside : node.Writable (decide (0 < 0)) := first
      obtain ⟨again, step, same⟩ := readStatement_readsBack size outside (by omega)
        (.of_stops tail.1 tail.2) pos
      obtain ⟨more, later, alike⟩ := ih others (by omega) (Nat.lt_of_succ_lt_succ enough)
        (Cursor.skipBlanks_newline (pos + node.render.length) tail.1)
      refine ⟨again :: more, ?_, by simp [sameIn, same, alike]⟩
      obtain ⟨x, s, text, _⟩ := render_head first
      have peek : c.skipBlanks.peek = some x := by
        rw [here, text]
        rfl
      rw [readUntilEnd_next _ _ peek, here, step, ok_bind]
      simp only [later, ok_bind]
      rfl

/-- Reading the text of a program gives the program back. -/
theorem parse_render {body : List Node} (writable : ∀ n ∈ body, n.Writable false) :
    ∃ parsed, parse (renderAll body) = .ok parsed ∧ parsed.same (.program body) = true := by
  have enough : body.length < (renderAll body).length + 1 :=
    Nat.lt_succ_of_le (length_le_renderAll body)
  have start := renderAll_stops writable stops_nil (by simp)
  rw [List.append_nil] at start
  obtain ⟨again, accepted, same⟩ := readUntilEnd_render writable (Nat.le_succ _) enough
    (Cursor.skipBlanks_stops 0 start.1)
  refine ⟨.program again, ?_, by simpa [Node.same] using same⟩
  simp only [parse, readBody, Cursor.start, accepted]

/-- A conditional with alternatives in a function, and texts that hold keywords, quotes
and braces. -/
def nestedSample : List Node :=
  [.define (.text "else") [.text "$a", .text "b"] (.block [
      .branch (.text "$n = (1") (.block [.say (.text "if \x7b else \x7d") .null] .null)
        (.branch (.text "x") (.block [] .null) (.block [
          .loop (-2) (.block [.assign (.text "t") (.text "\x7b = \"\x7d") .null] .null) .null]
          .null) .null) .null] .null) .null,
    .say (.text "\x7d") .null]

theorem nestedSample_writable : ∀ n ∈ nestedSample, n.Writable false := by
  have message : Writable true (.say (.text "if \x7b else \x7d") .null) :=
    .say ⟨by decide, by decide⟩ fun _ => by decide
  have value : Writable true (.assign (.text "t") (.text "\x7b = \"\x7d") .null) :=
    .assignText ⟨by decide, by decide, by decide, by decide, by decide, by decide⟩ (by decide)
      fun _ => by decide
  have loop : Writable true (.loop (-2) (.block [_] .null) .null) :=
    .loop (by decide +kernel) rfl (.block (by simpa using value))
  have chain : Writable true (.branch (.text "x") (.block [] .null) (.block [_] .null) .null) :=
    .branchElse ⟨by decide, by decide, by decide⟩ rfl (.block (by simp)) rfl
      (.block (by simpa using loop))
  have conditional : Writable true (.branch (.text "$n = (1") (.block [_] .null) _ .null) :=
    .branchElse ⟨by decide, by decide, by decide⟩ rfl (.block (by simpa using message)) rfl chain
  have entries : ∀ p ∈ ["$a", "b"], IsEntry p.toList := by
    simp only [List.forall_mem_cons]
    exact ⟨⟨by decide, by decide, by decide, by decide⟩, ⟨by decide, by decide, by decide, by decide⟩,
      by simp⟩
  refine List.forall_mem_cons.mpr ⟨?_, List.forall_mem_cons.mpr ⟨?_, by simp⟩⟩
  · exact .define ⟨by decide, solid_of_all rfl⟩ entries rfl (.block (by simpa using conditional))
  · exact .say ⟨by decide, by decide⟩ (by simp)

theorem parse_render_nestedSample :
    ∃ parsed, parse (renderAll nestedSample) = .ok parsed ∧
      parsed.same (.program nestedSample) = true :=
  parse_render nestedSample_writable

end Primer
