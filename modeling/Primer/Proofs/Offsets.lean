import Primer.Proofs.Progress
import Primer.Proofs.Tree

/-! Where the nodes of a tree stand in its source. Main statement: from each node of a
program to the next one, taken in the order of the text, the offset grows, no offset lies
beyond the source, and at each of them stands the brace or the keyword of the node. -/
namespace Primer

namespace Cursor

/-- The offset of the end of the text. -/
def stop (c : Cursor) : Nat := c.pos + c.rest.length

theorem pos_le_stop (c : Cursor) : c.pos ≤ c.stop := Nat.le_add_right _ _

/-- A cursor from which reading some text leads to another one. -/
def LeadsTo (c d : Cursor) : Prop := ∃ text, c.rest = text ++ d.rest ∧ d.pos = c.pos + text.length

namespace LeadsTo
variable {c d e : Cursor}

theorem refl (c : Cursor) : c.LeadsTo c := ⟨[], rfl, rfl⟩

theorem trans (first : c.LeadsTo d) (second : d.LeadsTo e) : c.LeadsTo e := by
  obtain ⟨text, rest, pos⟩ := first
  obtain ⟨more, restMore, posMore⟩ := second
  refine ⟨text ++ more, ?_, ?_⟩
  · rw [rest, restMore, List.append_assoc]
  · rw [posMore, pos, List.length_append, Nat.add_assoc]

theorem pos_le (leads : c.LeadsTo d) : c.pos ≤ d.pos := by
  obtain ⟨text, -, pos⟩ := leads
  omega

theorem stop_eq (leads : c.LeadsTo d) : d.stop = c.stop := by
  obtain ⟨text, rest, pos⟩ := leads
  rw [stop, stop, rest, List.length_append]
  omega

/-- A cursor that is come to from the start of a source stands before what is left of it. -/
theorem eq_drop {source : List Char} (leads : (Cursor.start source).LeadsTo d) :
    d = ⟨d.pos, source.drop d.pos⟩ := by
  obtain ⟨text, whole, length⟩ := leads
  have left : source.drop d.pos = d.rest := by
    rw [length, show source = text ++ d.rest from whole, Cursor.start, Nat.zero_add, List.drop_left]
  rw [left]

theorem skipWhile (p : Char → Bool) (c : Cursor) : c.LeadsTo (c.skipWhile p) :=
  ⟨c.rest.takeWhile p, List.takeWhile_append_dropWhile.symm, rfl⟩

theorem advance (c : Cursor) (n : Nat) : c.LeadsTo (c.advance n) :=
  ⟨c.rest.take n, (List.take_append_drop n c.rest).symm, by simp [Cursor.advance]⟩

theorem skipBlanks (c : Cursor) : c.LeadsTo c.skipBlanks := skipWhile _ c

theorem skipInlineBlanks (c : Cursor) : c.LeadsTo c.skipInlineBlanks := skipWhile _ c

theorem afterWord (c : Cursor) : c.LeadsTo c.afterWord := skipWhile _ c

/-- A name stands between inline blanks. -/
theorem afterName (c : Cursor) : c.LeadsTo c.skipInlineBlanks.afterWord.skipInlineBlanks :=
  (skipInlineBlanks c).trans ((afterWord _).trans (skipInlineBlanks _))

theorem afterLine (c : Cursor) (inBlock : Bool) : c.LeadsTo (c.afterLine inBlock) := advance c _

theorem upTo {ch : Char} {before : List Char} (found : c.upTo ch = some (before, d)) :
    c.LeadsTo d := by
  obtain ⟨after, rest, rfl⟩ := upTo_some found
  exact ⟨before, rest, rfl⟩

end LeadsTo

theorem pos_advance {c : Cursor} {ch : Char} (here : c.peek = some ch) :
    (c.advance 1).pos = c.pos + 1 := by
  have some := rest_ne_nil_of_peek here
  simp only [advance]
  omega

theorem pos_afterWord {c : Cursor} (named : c.word ≠ []) : c.pos < c.afterWord.pos := by
  have some := List.length_pos_iff.mpr named
  change c.pos < c.pos + c.word.length
  omega

end Cursor

open Node

/-- Nodes whose offsets grow from each to the next, from one place on and before another. -/
inductive Ascending : Nat → Nat → List Node → Prop
  | nil {first last : Nat} : first ≤ last → Ascending first last []
  | cons {first last o : Nat} {node : Node} {nodes : List Node} : node.offset = atOffset o →
      first ≤ o → Ascending (o + 1) last nodes → Ascending first last (node :: nodes)

namespace Ascending
variable {a b c : Nat} {xs ys : List Node}

theorem le (ascending : Ascending a b xs) : a ≤ b := by
  induction ascending with
  | nil le => exact le
  | cons _ le _ ih => omega

theorem mono (ascending : Ascending a b xs) {a' b' : Nat} (low : a' ≤ a) (high : b ≤ b') :
    Ascending a' b' xs := by
  induction ascending generalizing a' with
  | nil le => exact .nil (low.trans (le.trans high))
  | cons offset le _ ih => exact .cons offset (low.trans le) (ih (Nat.le_refl _) high)

theorem append (first : Ascending a b xs) (second : Ascending b c ys) : Ascending a c (xs ++ ys) := by
  induction first with
  | nil le => exact second.mono le (Nat.le_refl c)
  | cons offset le _ ih => exact .cons offset le (ih second)

theorem of_append (ascending : Ascending a c (xs ++ ys)) :
    ∃ b, Ascending a b xs ∧ Ascending b c ys := by
  induction xs generalizing a with
  | nil => exact ⟨a, .nil (Nat.le_refl a), ascending⟩
  | cons x xs ih =>
    cases ascending with
    | cons offset le rest =>
      obtain ⟨b, first, second⟩ := ih rest
      exact ⟨b, .cons offset le first, second⟩

theorem mem (ascending : Ascending a b xs) {n : Node} (inside : n ∈ xs) :
    ∃ o, n.offset = atOffset o ∧ a ≤ o ∧ o < b := by
  induction ascending with
  | nil => cases inside
  | cons offset le rest ih =>
    rcases List.mem_cons.mp inside with rfl | later
    · exact ⟨_, offset, le, rest.le⟩
    · obtain ⟨o, place, low, high⟩ := ih later
      exact ⟨o, place, by omega, high⟩

/-- The offsets as numbers. -/
theorem offsets (ascending : Ascending a b xs) :
    ∃ offsets : List Nat, xs.map Node.offset = offsets.map atOffset ∧
      offsets.Pairwise (· < ·) ∧ ∀ o ∈ offsets, a ≤ o ∧ o < b := by
  induction ascending with
  | nil => exact ⟨[], rfl, .nil, nofun⟩
  | @cons first last o node nodes offset le rest ih =>
    obtain ⟨offsets, same, sorted, between⟩ := ih
    refine ⟨o :: offsets, by simp [offset, same], ?_, ?_⟩
    · exact List.pairwise_cons.mpr ⟨fun p inside => (between p inside).1, sorted⟩
    · refine List.forall_mem_cons.mpr ⟨⟨le, rest.le⟩, fun p inside => ?_⟩
      obtain ⟨low, high⟩ := between p inside
      exact ⟨by omega, high⟩

theorem offset_nodup (ascending : Ascending a b xs) : (xs.map Node.offset).Nodup := by
  obtain ⟨offsets, same, sorted, -⟩ := ascending.offsets
  rw [same]
  apply List.Nodup.map
  · intro m n eq
    exact Int.ofNat.inj (Datum.int.inj eq)
  · exact sorted.imp Nat.ne_of_lt

/-- Nodes in different places differ. -/
theorem nodup (ascending : Ascending a b xs) : xs.Nodup := .of_map _ ascending.offset_nodup

/-- Different nodes stand in different places. -/
theorem eq_of_offset (ascending : Ascending a b xs) {m n : Node} (first : m ∈ xs) (second : n ∈ xs)
    (same : m.offset = n.offset) : m = n :=
  List.inj_on_of_nodup_map ascending.offset_nodup first second same

end Ascending

/-- The keyword of a node, in lower case. A block has none. -/
def Node.keyword? : Node → Option String
  | say .. => some "say"
  | math op .. => some op.name
  | loop .. => some "repeat"
  | define .. => some "function"
  | call .. => some "call"
  | branch .. => some "if"
  | assign .. => some "set"
  | missing | program _ | block .. | declare .. => none

/-- A node starts at a cursor: a block with its brace, any other node with its keyword in
upper or lower case. An operator is spelled as its node keeps it, right before a parenthesis. -/
def Node.StartsAt (c : Cursor) : Node → Prop
  | block .. => c.peek = some '{'
  | math op _ keyword _ =>
    keyword = textOf c.word ∧ lower c.word = op.name.toList ∧ c.afterWord.peek = some '('
  | node => ∃ word, node.keyword? = some word ∧ lower c.word = word.toList

/-- Nodes that were read from one cursor to another. They stand between the two, in the order
of the text, and each of them starts where it stands. -/
structure Placed (c : Cursor) (nodes : List Node) (after : Cursor) : Prop where
  leads : c.LeadsTo after
  ascending : Ascending c.pos after.pos nodes
  starts : ∀ node ∈ nodes, ∃ d, c.LeadsTo d ∧ node.offset = atOffset d.pos ∧ node.StartsAt d

namespace Placed
variable {c d e : Cursor} {node : Node} {xs ys : List Node}

theorem nil (leads : c.LeadsTo d) : Placed c [] d := ⟨leads, .nil leads.pos_le, nofun⟩

theorem later (leads : c.LeadsTo d) (placed : Placed d xs e) : Placed c xs e where
  leads := leads.trans placed.leads
  ascending := placed.ascending.mono leads.pos_le (Nat.le_refl _)
  starts := fun node inside => by
    obtain ⟨place, between, offset, starts⟩ := placed.starts node inside
    exact ⟨place, leads.trans between, offset, starts⟩

theorem append (first : Placed c xs d) (second : Placed d ys e) : Placed c (xs ++ ys) e where
  leads := first.leads.trans second.leads
  ascending := first.ascending.append second.ascending
  starts := List.forall_mem_append.mpr ⟨first.starts, (second.later first.leads).starts⟩

theorem cons (offset : node.offset = atOffset c.pos) (starts : node.StartsAt c)
    (leads : c.LeadsTo d) (moved : c.pos < d.pos) (rest : Placed d xs e) :
    Placed c (node :: xs) e where
  leads := leads.trans rest.leads
  ascending := .cons offset (Nat.le_refl _) (rest.ascending.mono moved (Nat.le_refl _))
  starts := List.forall_mem_cons.mpr ⟨⟨c, .refl c, offset, starts⟩, (rest.later leads).starts⟩

/-- A statement starts with a word, and the nodes nested in it come after that. -/
theorem command (named : c.word ≠ []) (offset : node.offset = atOffset c.pos)
    (starts : node.StartsAt c) (rest : Placed c.afterWord xs d) : Placed c (node :: xs) d :=
  rest.cons offset starts (.afterWord c) (Cursor.pos_afterWord named)

/-- What was read has a place, so it is a node. -/
theorem present (placed : Placed c node.nodes d) : node ≠ .missing := by
  rintro rfl
  cases placed.ascending with
  | cons offset => cases offset

end Placed

/-- A reader of nested statements whose nodes stand where it reads them. -/
def Places (read : StatementReader) : Prop :=
  ∀ ⦃depth c node after⦄, read depth c = .ok (node, after) → Placed c node.nodes after

section Readers
variable {read : StatementReader} {depth start : Nat} {c after : Cursor} {node : Node}

theorem readUntilClose_placed (nested : Places read) {opened bound : Nat} {nodes : List Node}
    (accepted : readUntilClose (read depth) opened bound c = .ok (nodes, after)) :
    Placed c (nodesIn nodes) after := by
  induction bound generalizing c nodes with
  | zero => cases accepted
  | succ bound ih =>
    apply Placed.later (Cursor.LeadsTo.skipBlanks c)
    simp only [readUntilClose] at accepted
    split at accepted
    · cases accepted
    · cases accepted
      exact .nil (.advance c.skipBlanks 1)
    · obtain ⟨⟨first, next⟩, head, accepted⟩ := bind_eq_ok.mp accepted
      obtain ⟨⟨others, last⟩, tail, accepted⟩ := bind_eq_ok.mp accepted
      cases accepted
      exact (nested head).append (ih tail)

theorem readBlock_placed (nested : Places read) (here : c.peek = some '{')
    (accepted : readBlock read depth c = .ok (node, after)) : Placed c node.nodes after := by
  obtain ⟨⟨statements, last⟩, inside, accepted⟩ := bind_eq_ok.mp accepted
  cases accepted
  have moved : c.pos < (c.advance 1).pos := by
    rw [Cursor.pos_advance here]
    exact Nat.lt_succ_self _
  rw [nodes]
  exact (readUntilClose_placed nested inside).cons rfl here (.advance c 1) moved

theorem expectBlock_placed (nested : Places read) {what : String}
    (accepted : expectBlock read what depth c = .ok (node, after)) : Placed c node.nodes after := by
  apply Placed.later (Cursor.LeadsTo.skipBlanks c)
  simp only [expectBlock] at accepted
  split at accepted
  · rename_i here
    exact readBlock_placed nested here accepted
  · cases accepted

theorem readEntries_leads {what : String} {entries : List (List Char)}
    (accepted : readEntries what c = .ok (entries, after)) : c.LeadsTo after := by
  unfold readEntries at accepted
  split at accepted
  · cases accepted
  · rename_i text close found
    have closed := (Cursor.LeadsTo.upTo found).trans (.advance close 1)
    dsimp only at accepted
    split at accepted
    · cases accepted
      exact closed
    · split at accepted
      · cases accepted
      · cases accepted
        exact closed

theorem readParams_leads {name : List Char} {entries : List (List Char)}
    (accepted : readParams name c = .ok (entries, after)) : c.LeadsTo after := by
  unfold readParams at accepted
  split at accepted
  · exact readEntries_leads accepted
  · split at accepted
    · cases accepted
    · rename_i found
      cases accepted
      exact .upTo found

theorem readSay_placed (named : c.HasCommand .say)
    (accepted : readSay depth c.pos c.afterWord = .ok (node, after)) : Placed c node.nodes after := by
  cases accepted
  have line := (Cursor.LeadsTo.skipInlineBlanks c.afterWord).trans (.afterLine _ (decide (0 < depth)))
  exact .command (HasCommand.word_ne_nil named) rfl ⟨_, rfl, Command.lower_word named⟩ (.nil line)

theorem readDefine_placed (nested : Places read) (named : c.HasCommand .define)
    (accepted : readDefine read depth c.pos c.afterWord = .ok (node, after)) :
    Placed c node.nodes after := by
  simp only [readDefine] at accepted
  split at accepted
  · cases accepted
  · obtain ⟨⟨entries, next⟩, listed, accepted⟩ := bind_eq_ok.mp accepted
    dsimp only at accepted
    split at accepted
    · cases accepted
    · obtain ⟨⟨body, last⟩, inside, accepted⟩ := bind_eq_ok.mp accepted
      cases accepted
      have params := (Cursor.LeadsTo.afterName c.afterWord).trans (readParams_leads listed)
      have block := (expectBlock_placed nested inside).later params
      rw [nodes]
      exact .command (HasCommand.word_ne_nil named) rfl ⟨_, rfl, Command.lower_word named⟩ block

theorem readCall_placed (named : c.HasCommand .call)
    (accepted : readCall depth c.pos c.afterWord = .ok (node, after)) : Placed c node.nodes after := by
  have name := Cursor.LeadsTo.afterName c.afterWord
  have call : ∀ {f args last}, c.afterWord.LeadsTo last →
      Placed c (Node.call f args (atOffset c.pos)).nodes last := fun leads =>
    .command (HasCommand.word_ne_nil named) rfl ⟨_, rfl, Command.lower_word named⟩ (.nil leads)
  simp only [readCall] at accepted
  split at accepted
  · cases accepted
  · split at accepted
    · obtain ⟨⟨args, next⟩, listed, accepted⟩ := bind_eq_ok.mp accepted
      cases accepted
      exact call (name.trans (readEntries_leads listed))
    · cases accepted
      exact call (name.trans (.afterLine _ _))

theorem readLoop_placed (nested : Places read) (named : c.HasCommand .loop)
    (accepted : readLoop read depth c.pos c.afterWord = .ok (node, after)) :
    Placed c node.nodes after := by
  obtain ⟨count, number, accepted⟩ := bind_eq_ok.mp accepted
  cases count with
  | none => cases accepted
  | some count =>
    obtain ⟨⟨body, last⟩, inside, accepted⟩ := bind_eq_ok.mp accepted
    cases accepted
    have word := (Cursor.LeadsTo.skipInlineBlanks c.afterWord).trans (.afterWord _)
    rw [nodes]
    exact .command (HasCommand.word_ne_nil named) rfl ⟨_, rfl, Command.lower_word named⟩
      ((expectBlock_placed nested inside).later word)

theorem readAssign_placed (named : c.HasCommand .assign)
    (accepted : readAssign depth c.pos c.afterWord = .ok (node, after)) :
    Placed c node.nodes after := by
  simp only [readAssign] at accepted
  split at accepted
  · cases accepted
  · rename_i before _ _
    split at accepted
    · cases accepted
    · obtain ⟨value, number, accepted⟩ := bind_eq_ok.mp accepted
      cases accepted
      have name := (Cursor.LeadsTo.skipInlineBlanks c.afterWord).trans
        (.advance _ (before.length + 1))
      exact .command (HasCommand.word_ne_nil named) rfl ⟨_, rfl, Command.lower_word named⟩
        (.nil (name.trans (.afterLine _ _)))

theorem readMath_placed {op : Operator} (named : c.HasCommand (.math op))
    (accepted : readMath op c.word c.pos c.afterWord = .ok (node, after)) :
    Placed c node.nodes after := by
  unfold readMath at accepted
  split at accepted
  · cases accepted
  · rename_i text close found
    obtain ⟨operands, listed, accepted⟩ := bind_eq_ok.mp accepted
    split at accepted
    · cases accepted
    · cases accepted
      have spelled := Command.lower_word named
      exact .command (HasCommand.word_ne_nil named) rfl ⟨rfl, spelled, Command.ofWord?_math named⟩
        (.nil ((Cursor.LeadsTo.upTo found).trans (.advance close 1)))

/-- A conditional and those after each `else` of it stand one after the other. -/
theorem readBranch_placed (nested : Places read) {bound : Nat} (isIf : lower c.word = ['i', 'f'])
    (accepted : readBranch read depth bound c.pos c.afterWord = .ok (node, after)) :
    Placed c node.nodes after := by
  induction bound generalizing c node after with
  | zero => cases accepted
  | succ bound ih =>
    have named : c.word ≠ [] := by
      intro empty
      rw [empty] at isIf
      cases isIf
    simp only [readBranch] at accepted
    split at accepted
    · cases accepted
    · rename_i text brace found
      split at accepted
      · cases accepted
      · obtain ⟨⟨yes, next⟩, inside, accepted⟩ := bind_eq_ok.mp accepted
        have here : brace.peek = some '{' := by
          obtain ⟨rest, -, rfl⟩ := Cursor.upTo_some found
          rfl
        have condition := (Cursor.LeadsTo.skipInlineBlanks c.afterWord).trans (.upTo found)
        have first := (readBlock_placed nested here inside).later condition
        have keyword := (Cursor.LeadsTo.skipBlanks next).trans (.afterWord _)
        -- the nodes of the else-branch stand after those of the first one
        have both : ∀ {no last}, Placed next no.nodes last →
            Placed c (Node.branch (textOf (trim text)) yes no (atOffset c.pos)).nodes last := by
          intro no last second
          rw [nodes_branch second.present]
          exact .command named rfl ⟨_, rfl, isIf⟩ (first.append second)
        dsimp only at accepted
        split at accepted
        · split at accepted
          · rename_i isElse isIf
            obtain ⟨⟨no, last⟩, chain, accepted⟩ := bind_eq_ok.mp accepted
            cases accepted
            exact both ((ih isIf chain).later (keyword.trans (.skipBlanks _)))
          · obtain ⟨⟨no, last⟩, final, accepted⟩ := bind_eq_ok.mp accepted
            cases accepted
            exact both ((expectBlock_placed nested final).later keyword)
        · cases accepted
          rw [nodes]
          exact .command named rfl ⟨_, rfl, isIf⟩ first

theorem readStatementWith_places (nested : Places read) : Places (readStatementWith read) := by
  intro depth c node after accepted
  apply Placed.later (Cursor.LeadsTo.skipBlanks c)
  simp only [readStatementWith] at accepted
  split at accepted
  · rename_i here
    exact readBlock_placed nested here accepted
  · cases accepted
  · split at accepted
    · cases accepted
    · split at accepted
      · rename_i named
        exact readSay_placed named accepted
      · rename_i named
        exact readDefine_placed nested named accepted
      · rename_i named
        exact readCall_placed named accepted
      · rename_i named
        exact readLoop_placed nested named accepted
      · rename_i named
        exact readBranch_placed nested (Command.lower_word named) accepted
      · rename_i named
        exact readAssign_placed named accepted
      · rename_i named
        exact readMath_placed named accepted
      · cases accepted

end Readers

theorem readStatement_places (bound : Nat) : Places (readStatement bound) := by
  induction bound with
  | zero =>
    intro depth c node after accepted
    cases accepted
  | succ bound ih => exact readStatementWith_places ih

theorem readUntilEnd_placed {read : StatementReader} (nested : Places read) {depth bound : Nat}
    {c : Cursor} {body : List Node} (accepted : readUntilEnd (read depth) bound c = .ok body) :
    ∃ after, Placed c (nodesIn body) after := by
  induction bound generalizing c body with
  | zero => cases accepted
  | succ bound ih =>
    simp only [readUntilEnd] at accepted
    split at accepted
    · cases accepted
      exact ⟨c, .nil (.refl c)⟩
    · obtain ⟨⟨first, next⟩, head, accepted⟩ := bind_eq_ok.mp accepted
      obtain ⟨others, tail, accepted⟩ := bind_eq_ok.mp accepted
      cases accepted
      obtain ⟨after, rest⟩ := ih tail
      exact ⟨after, ((nested head).append rest).later (.skipBlanks c)⟩

section Sources
variable {source : List Char} {body : List Node} (accepted : parse source = .ok (.program body))
include accepted

theorem parse_placed : ∃ after, Placed (.start source) (nodesIn body) after :=
  readUntilEnd_placed (readStatement_places _) (parse_eq_ok.mp accepted)

/-- The offsets of a program grow from node to node and lie in its source. -/
theorem parse_ascending : Ascending 0 source.length (nodesIn body) := by
  obtain ⟨after, placed⟩ := parse_placed accepted
  have inside : after.pos ≤ source.length := by
    have stop := placed.leads.stop_eq ▸ after.pos_le_stop
    simpa [Cursor.start, Cursor.stop] using stop
  exact placed.ascending.mono (Nat.le_refl _) inside

/-- The offsets of a program, taken node by node in the order of the text, grow and lie in its
source. At the offset of a block the source has an opening brace, at that of any other node
its keyword. -/
theorem offsets_faithful :
    (∃ offsets : List Nat, (nodesIn body).map Node.offset = offsets.map atOffset ∧
      offsets.Pairwise (· < ·) ∧ ∀ o ∈ offsets, o < source.length) ∧
    ∀ node ∈ nodesIn body, ∃ o : Nat, node.offset = atOffset o ∧
      node.StartsAt ⟨o, source.drop o⟩ := by
  constructor
  · obtain ⟨offsets, same, sorted, between⟩ := (parse_ascending accepted).offsets
    exact ⟨offsets, same, sorted, fun o inside => (between o inside).2⟩
  · intro node inside
    obtain ⟨after, placed⟩ := parse_placed accepted
    obtain ⟨d, leads, offset, starts⟩ := placed.starts node inside
    exact ⟨d.pos, offset, leads.eq_drop ▸ starts⟩

end Sources

/-- Conditionals after one another, around statements of other kinds. -/
def placedSample : List Char :=
  "if a \x7bSAY hi\x7d else\nIf b \x7b Add(1, 2) \x7d else \x7brepeat 2 \x7b\x7d\x7d".toList

theorem offsets_faithful_placedSample :
    ∃ body, parse placedSample = .ok (.program body) ∧ (nodesIn body).length = 9 ∧
      (∃ offsets : List Nat, (nodesIn body).map Node.offset = offsets.map atOffset ∧
        offsets.Pairwise (· < ·) ∧ ∀ o ∈ offsets, o < placedSample.length) ∧
      ∀ node ∈ nodesIn body, ∃ o : Nat, node.offset = atOffset o ∧
        node.StartsAt ⟨o, placedSample.drop o⟩ := by
  obtain ⟨body, accepted⟩ := parse_of_isOk (show (parse placedSample).isOk = true by decide +kernel)
  have length : (parse placedSample).toOption.map (·.nodes.length) = some 10 := by decide +kernel
  rw [accepted] at length
  simp only [Except.toOption, Option.map_some, nodes, List.length_cons, Option.some.injEq] at length
  exact ⟨body, accepted, by omega, offsets_faithful accepted⟩

end Primer
