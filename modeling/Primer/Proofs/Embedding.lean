import Primer.Proofs.Placement

/-! Statements read as a part of a larger text. Each reader does there what it does with
the text alone: it gives the same tree, moved, and stops at the same place, or it rejects
the text for the same reason. A rejection says so only if blanks alone follow the text. -/
namespace Primer.Site

/-- What a reading of the text says about one of the larger text: the same, with results
that are related, unless the text was rejected and more than blanks follow it. -/
inductive Carried (site : Site) (related : α → β → Prop) : Reading α → Reading β → Prop
  | ok {a : α} {b : β} (same : related a b) : Carried site related (.ok a) (.ok b)
  | problem (p : Problem) {offset moved : Nat} (moves : site.Moves offset moved) :
    Carried site related (reject p offset) (reject p moved)
  | fault (f : Fault) : Carried site related (.error (.fault f)) (.error (.fault f))
  | exhausted (r : Reading β) : Carried site related (.error .exhausted) r
  | unfinished (more : ¬ site.Blank) (e : Rejection) (r : Reading β) :
    Carried site related (.error e) r

/-- Results of readers: trees that differ by the move, and cursors beside each other. -/
def Reads (site : Site) (move : α → α) (x y : α × Cursor) : Prop :=
  y.1 = move x.1 ∧ site.Beside x.2 y.2

namespace Carried
variable {site : Site}

theorem bind {related : α → β → Prop} {after : γ → δ → Prop} {x : Reading α} {y : Reading β}
    {f : α → Reading γ} {g : β → Reading δ} (first : site.Carried related x y)
    (rest : ∀ a b, related a b → site.Carried after (f a) (g b)) :
    site.Carried after (x >>= f) (y >>= g) := by
  cases first with
  | ok same => exact rest _ _ same
  | problem p moves => exact .problem p moves
  | fault f => exact .fault f
  | exhausted r => exact .exhausted _
  | unfinished more e r => exact .unfinished more e _

theorem ite_bind {related : α → β → Prop} {after : γ → δ → Prop} {p q : Prop} [Decidable p] [Decidable q]
    {x₁ x₂ : Reading α} {y₁ y₂ : Reading β} {f : α → Reading γ} {g : β → Reading δ}
    (first : site.Carried related (if p then x₁ else x₂) (if q then y₁ else y₂))
    (rest : ∀ a b, related a b → site.Carried after (f a) (g b)) :
    site.Carried after (if p then x₁ >>= f else x₂ >>= f) (if q then y₁ >>= g else y₂ >>= g) := by
  have both := first.bind rest
  rw [apply_ite (· >>= f), apply_ite (· >>= g)] at both
  exact both

theorem of_ok {related : α → β → Prop} {a : α} {r : Reading β} (carried : site.Carried related (.ok a) r) :
    ∃ b, r = .ok b ∧ related a b := by
  cases carried with
  | ok same => exact ⟨_, rfl, same⟩

theorem of_problem {related : α → β → Prop} {p : Problem} {offset : Nat} {r : Reading β}
    (carried : site.Carried related (reject p offset) r) (blank : site.Blank) :
    ∃ moved, r = reject p moved ∧ site.Moves offset moved := by
  cases carried with
  | problem _ moves => exact ⟨_, rfl, moves⟩
  | unfinished more => exact absurd blank more

theorem of_fault {related : α → β → Prop} {f : Fault} {r : Reading β}
    (carried : site.Carried related (.error (.fault f)) r) (blank : site.Blank) :
    r = .error (.fault f) := by
  cases carried with
  | fault => rfl
  | unfinished more => exact absurd blank more

/-- A rejection needs to be the same only if nothing but blanks follows. -/
theorem rejected {related : α → β → Prop} {p : Problem} {offset : Nat} {r : Reading β}
    (same : site.Blank → ∃ moved, r = reject p moved ∧ site.Moves offset moved) :
    site.Carried related (reject p offset) r := by
  by_cases blank : site.Blank
  · obtain ⟨moved, rfl, moves⟩ := same blank
    exact .problem p moves
  · exact .unfinished blank _ r

theorem orFault {after : γ → δ → Prop} (r : Except Fault α) {f : α → Reading γ} {g : α → Reading δ}
    (rest : ∀ a, site.Carried after (f a) (g a)) :
    site.Carried after (orFault r >>= f) (Primer.orFault r >>= g) := by
  cases r with
  | ok a => exact rest a
  | error e => exact .fault e

end Carried

/-- A reader of statements of the text, and one that does the same in the larger text. -/
def CarriesOver (site : Site) (read read' : StatementReader) : Prop :=
  ∀ ⦃depth c ch⦄, site.At c ch →
    site.Carried (site.Reads (Node.shift site.lead)) (read depth c) (read' depth (site.put c))

section Lists
variable {site : Site} {c d : Cursor} (beside : site.Beside c d)
include beside

theorem Beside.close {ch : Char} {before : List Char} {close : Cursor}
    (found : c.upTo ch = some (before, close)) :
    site.Beside (close.advance 1) ((site.put close).advance 1) := by
  have here : site.Beside close (site.put close) :=
    .inside ((Cursor.stop_upTo found).trans beside.within)
  obtain ⟨after, -, rfl⟩ := Cursor.upTo_some found
  exact here.advance (by simp) Nat.one_pos

theorem readEntries_carried (what : String) :
    site.Carried (site.Reads id) (readEntries what c) (readEntries what d) := by
  unfold readEntries
  cases found : c.upTo ')' with
  | none =>
    refine .rejected fun blank => ⟨d.pos, ?_, beside.moves⟩
    rw [beside.upTo_none blank rfl found]
  | some result =>
    obtain ⟨text, close⟩ := result
    rw [beside.upTo found]
    dsimp only
    split
    · exact .ok ⟨rfl, beside.close found⟩
    · split
      · exact .problem _ beside.moves
      · exact .ok ⟨rfl, beside.close found⟩

theorem readParams_carried (apart : site.Apart) (name : List Char) :
    site.Carried (site.Reads id) (readParams name c) (readParams name d) := by
  have paren : d.peek = some '(' ↔ c.peek = some '(' := beside.peek apart rfl
  simp only [readParams, paren]
  split
  · exact readEntries_carried beside _
  · cases found : c.upTo '{' with
    | none =>
      refine .rejected fun blank => ⟨d.pos, ?_, beside.moves⟩
      rw [beside.upTo_none blank rfl found]
    | some result =>
      obtain ⟨text, body⟩ := result
      rw [beside.upTo found]
      exact .ok ⟨rfl, .inside ((Cursor.stop_upTo found).trans beside.within)⟩

end Lists

theorem readOperands_carried {site : Site} (op : Operator) {pos : Nat} {entries : List (List Char)}
    (room : pos + (entries.map (·.length + 1)).sum ≤ site.size + 1) :
    site.Carried (· = ·) (readOperands op pos entries) (readOperands op (pos + site.lead) entries) := by
  induction entries generalizing pos with
  | nil => exact .ok rfl
  | cons entry entries ih =>
    simp only [List.map_cons, List.sum_cons] at room
    have left : pos + entry.length + 1 + (entries.map (·.length + 1)).sum ≤ site.size + 1 := by omega
    have later := ih left
    have moved : pos + site.lead + entry.length + 1 = pos + entry.length + 1 + site.lead := by omega
    simp only [readOperands, moved]
    split
    · exact later
    · refine .orFault _ fun number => ?_
      cases number with
      | none =>
        have blanks : (entry.takeWhile isBlank).length ≤ entry.length :=
          (List.takeWhile_prefix isBlank).length_le
        rw [Nat.add_right_comm pos site.lead]
        exact .problem _ (moves_shift (by omega))
      | some n =>
        refine later.bind fun ns ms same => ?_
        exact .ok (congrArg (n :: ·) same)

section Lines
variable {site : Site} {c d : Cursor} (apart : site.Apart) (beside : site.Beside c d)
  (depth : Nat) {start : Nat} (within : start ≤ site.size)
include apart beside

theorem readSay_carried : site.Carried (site.Reads (Node.shift site.lead))
    (readSay depth start c) (readSay depth (start + site.lead) d) := by
  obtain ⟨gap, line, blank, after⟩ := beside.skipInlineBlanks.line apart (decide (0 < depth))
  simp only [readSay, line, trim_append_blanks _ blank]
  exact .ok ⟨by simp [Node.shift], after⟩

theorem readCall_carried : site.Carried (site.Reads (Node.shift site.lead))
    (readCall depth start c) (readCall depth (start + site.lead) d) := by
  have name := beside.skipInlineBlanks.word apart
  have inline := beside.skipInlineBlanks.afterWord.skipInlineBlanks
  have paren : _ = some '(' ↔ _ = some '(' := inline.peek apart rfl
  obtain ⟨gap, line, blank, after⟩ := inline.line apart (decide (0 < depth))
  simp only [readCall, name, paren, line, trim_append_blanks _ blank]
  split
  · exact .problem _ beside.skipInlineBlanks.moves
  · split
    · refine (readEntries_carried inline _).bind ?_
      rintro x y ⟨same, later⟩
      exact .ok ⟨by simp [Node.shift, same], later⟩
    · exact .ok ⟨by simp [Node.shift], after⟩

include within

theorem readAssign_carried : site.Carried (site.Reads (Node.shift site.lead))
    (readAssign depth start c) (readAssign depth (start + site.lead) d) := by
  have inline := beside.skipInlineBlanks
  obtain ⟨gap, line, blank, -⟩ := inline.line apart (decide (0 < depth))
  simp only [readAssign, line]
  cases found : splitAtFirst '=' (c.skipInlineBlanks.line (decide (0 < depth))) with
  | none =>
    have absent : '=' ∉ gap := fun inside => by cases blank '=' inside
    have none : splitAtFirst '=' (c.skipInlineBlanks.line (decide (0 < depth)) ++ gap) = none := by
      rw [splitAtFirst_none] at found ⊢
      simp [found, absent]
    rw [none]
    exact .problem _ (moves_shift within)
  | some result =>
    obtain ⟨before, after⟩ := result
    rw [splitAtFirst_append_right found gap]
    dsimp only
    split
    · exact .problem _ (moves_shift within)
    · have length := congrArg List.length (splitAtFirst_some found)
      have short := length_lineSegment (decide (0 < depth)) 0 c.skipInlineBlanks.rest
      have value := inline.advance (n := before.length + 1) (by
        simp only [Cursor.line, List.length_append, List.length_cons] at length
        omega) (Nat.succ_pos _)
      obtain ⟨gap, line, blank, after⟩ := value.line apart (decide (0 < depth))
      rw [line, trim_append_blanks _ blank]
      refine .orFault _ fun value => ?_
      exact .ok ⟨by simp [Node.shift], after⟩

omit apart in
theorem readMath_carried (op : Operator) (keyword : List Char) :
    site.Carried (site.Reads (Node.shift site.lead))
      (readMath op keyword start c) (readMath op keyword (start + site.lead) d) := by
  unfold readMath
  cases found : c.upTo ')' with
  | none =>
    refine .rejected fun blank => ⟨d.pos, ?_, beside.moves⟩
    rw [beside.upTo_none blank rfl found]
  | some result =>
    obtain ⟨text, close⟩ := result
    obtain ⟨after, rest, -⟩ := Cursor.upTo_some found
    have room : c.pos + 1 + ((cut (· == ',') (text.drop 1)).map (·.length + 1)).sum ≤ site.size + 1 := by
      have stop := beside.within
      rw [sum_length_cut, List.length_drop]
      simp only [Cursor.stop, rest, List.length_append, List.length_cons] at stop
      omega
    have place : d.pos + 1 = c.pos + 1 + site.lead := by
      rw [beside.eq_put (by simp [rest])]
      exact Nat.add_right_comm ..
    rw [beside.upTo found]
    dsimp only
    rw [place]
    refine (readOperands_carried op room).bind fun ns ms same => ?_
    subst same
    split
    · exact .problem _ (moves_shift within)
    · exact .ok ⟨by simp [Node.shift], beside.close found⟩

end Lines

theorem Beside.length_le {site : Site} {c d : Cursor} (beside : site.Beside c d) :
    c.rest.length ≤ d.rest.length := by
  cases beside with
  | inside => simp [put]
  | past => exact Nat.zero_le _

section Blocks
variable {site : Site} {c d : Cursor} {read read' : StatementReader} (apart : site.Apart)
  (nested : site.CarriesOver read read') (depth : Nat)

theorem At.next_put {ch : Char} (here : site.At c ch) : (site.put c).peek = some ch := by
  obtain ⟨x, rest, text⟩ := List.exists_cons_of_ne_nil here.rest_ne_nil
  have next := here.next
  rw [Cursor.peek, text] at next
  rw [Cursor.peek, put, text]
  exact next

theorem At.place {ch : Char} (here : site.At c ch) : c.pos ≤ site.size := by
  rw [← here.within]
  exact Nat.le_add_right ..

theorem Blank.skipBlanks (blank : site.Blank) (pos : Nat) :
    Cursor.skipBlanks ⟨pos, site.tail⟩ = ⟨pos + site.tail.length, []⟩ := by
  have skipped := Cursor.skipWhile_append pos site.tail blank stops_nil
  rw [List.append_nil] at skipped
  exact skipped

theorem moves_end (site : Site) : site.Moves site.size (site.size + site.lead + site.tail.length) where
  within := Nat.le_refl _
  least := Nat.le_add_right ..
  most := Nat.le_refl _
  same less := absurd less (Nat.lt_irrefl _)

theorem At.nextWord {ch : Char} (here : site.At c.skipBlanks ch)
    (same : d.skipBlanks = site.put c.skipBlanks) (apart : site.Apart) : d.nextWord = c.nextWord := by
  rw [Cursor.nextWord, same]
  exact (Beside.inside here.within).word apart

/-- What follows the text is no `else` to a conditional in it. -/
theorem Beside.nextWord_else (beside : site.Beside c d) (apart : site.Apart) :
    lower d.nextWord = ['e', 'l', 's', 'e'] ↔ lower c.nextWord = ['e', 'l', 's', 'e'] := by
  rcases beside.skipBlanks apart with ⟨ch, here, same⟩ | ⟨ended, on⟩
  · rw [here.nextWord same apart]
  · have first : c.nextWord = [] := by rw [Cursor.nextWord, ended]; rfl
    have second : d.nextWord = Cursor.nextWord ⟨0, site.tail⟩ := by rw [Cursor.nextWord, on]; rfl
    rw [first, second]
    exact iff_of_false apart.noElse (List.cons_ne_nil _ _).symm

theorem Beside.afterElse (beside : site.Beside c d) (apart : site.Apart)
    (isElse : lower c.nextWord = ['e', 'l', 's', 'e']) :
    site.Beside c.skipBlanks.afterWord d.skipBlanks.afterWord := by
  rcases beside.skipBlanks apart with ⟨ch, here, same⟩ | ⟨ended, on⟩
  · rw [same]
    exact (Beside.inside here.within).afterWord
  · rw [Cursor.nextWord, ended] at isElse
    cases isElse

include apart nested

theorem readUntilClose_carried {opened : Nat} (within : opened ≤ site.size) {bound bound' : Nat}
    (enough : bound ≤ bound') (beside : site.Beside c d) :
    site.Carried (site.Reads (Node.shiftAll site.lead)) (readUntilClose (read depth) opened bound c)
      (readUntilClose (read' depth) (opened + site.lead) bound' d) := by
  -- the bound of the text alone runs out first, and then there is nothing to show
  induction bound generalizing bound' c d with
  | zero => exact .exhausted _
  | succ bound ih =>
    obtain ⟨more, rfl⟩ := Nat.exists_eq_succ_of_ne_zero (Nat.ne_zero_of_lt enough)
    rcases beside.skipBlanks apart with ⟨ch, here, same⟩ | ⟨ended, on⟩
    · have here' : d.skipBlanks.peek = some ch := by rw [same, here.next_put]
      by_cases close : ch = '}'
      · subst close
        rw [readUntilClose_close _ _ _ here.next, readUntilClose_close _ _ _ here', same]
        have some := Cursor.rest_ne_nil_of_peek here.next
        exact .ok ⟨rfl, (Beside.inside here.within).advance some Nat.one_pos⟩
      · rw [readUntilClose_next _ _ _ here.next close, readUntilClose_next _ _ _ here' close, same]
        refine (nested here).bind ?_
        rintro x y ⟨node, later⟩
        refine (ih (Nat.le_of_succ_le_succ enough) later).bind ?_
        rintro xs ys ⟨nodes, last⟩
        exact .ok ⟨by simp [Node.shiftAll, node, nodes], last⟩
    · have first : readUntilClose (read depth) opened (bound + 1) c = reject .unclosedBlock opened := by
        simp only [readUntilClose, ended, Cursor.peek, List.head?_nil]
      rw [first]
      refine .rejected fun blank => ⟨_, ?_, moves_shift within⟩
      simp only [readUntilClose, on, blank.skipBlanks, Cursor.peek, List.head?_nil]

theorem readBlock_carried {ch : Char} (here : site.At c ch) :
    site.Carried (site.Reads (Node.shift site.lead)) (readBlock read depth c)
      (readBlock read' depth (site.put c)) := by
  have some := Cursor.rest_ne_nil_of_peek here.next
  have body : site.Beside (c.advance 1) ((site.put c).advance 1) :=
    (Beside.inside here.within).advance some Nat.one_pos
  have enough : c.rest.length + 1 ≤ (site.put c).rest.length + 1 := by simp [put]
  have inside := readUntilClose_carried apart nested (depth + 1) here.place enough body
  refine inside.bind ?_
  rintro x y ⟨nodes, after⟩
  exact .ok ⟨by simp [Node.shift, nodes, put], after⟩

theorem expectBlock_carried (what : String) (beside : site.Beside c d) :
    site.Carried (site.Reads (Node.shift site.lead)) (expectBlock read what depth c)
      (expectBlock read' what depth d) := by
  rcases beside.skipBlanks apart with ⟨ch, here, same⟩ | ⟨ended, on⟩
  · have next : (site.put c.skipBlanks).peek = c.skipBlanks.peek := by rw [here.next, here.next_put]
    simp only [expectBlock, same, next]
    split
    · exact readBlock_carried apart nested depth here
    · exact .problem _ (moves_shift here.place)
  · simp only [expectBlock, ended, on]
    refine .rejected fun blank => ⟨_, ?_, site.moves_end⟩
    rw [blank.skipBlanks]
    rfl

theorem readDefine_carried {start : Nat} (within : start ≤ site.size) (beside : site.Beside c d) :
    site.Carried (site.Reads (Node.shift site.lead)) (readDefine read depth start c)
      (readDefine read' depth (start + site.lead) d) := by
  have name := beside.skipInlineBlanks.word apart
  have inline := beside.skipInlineBlanks.afterWord.skipInlineBlanks
  simp only [readDefine, name]
  split
  · exact .problem _ beside.skipInlineBlanks.moves
  · refine (readParams_carried inline apart _).bind ?_
    rintro x y ⟨params, after⟩
    simp only [id_eq] at params
    simp only [params]
    split
    · exact .problem _ (moves_shift within)
    · refine (expectBlock_carried apart nested depth _ after).bind ?_
      rintro z w ⟨body, last⟩
      exact .ok ⟨by simp [Node.shift, body], last⟩

theorem readLoop_carried {start : Nat} (beside : site.Beside c d) :
    site.Carried (site.Reads (Node.shift site.lead)) (readLoop read depth start c)
      (readLoop read' depth (start + site.lead) d) := by
  have inline := beside.skipInlineBlanks
  simp only [readLoop, inline.word apart]
  refine .orFault _ fun count => ?_
  cases count with
  | none => exact .problem _ inline.moves
  | some n =>
    refine (expectBlock_carried apart nested depth _ inline.afterWord).bind ?_
    rintro x y ⟨body, after⟩
    exact .ok ⟨by simp [Node.shift, body], after⟩

/-- What stands after an `else`: another conditional or a block. -/
theorem alternative_carried {bound bound' : Nat}
    (branches : ∀ {start : Nat} {c d : Cursor}, site.Beside c d →
      site.Carried (site.Reads (Node.shift site.lead)) (readBranch read depth bound start c)
        (readBranch read' depth bound' (start + site.lead) d))
    (beside : site.Beside c d) :
    site.Carried (site.Reads (Node.shift site.lead))
      (if lower c.nextWord = ['i', 'f'] then
        readBranch read depth bound c.skipBlanks.pos c.skipBlanks.afterWord
      else expectBlock read "else" depth c)
      (if lower d.nextWord = ['i', 'f'] then
        readBranch read' depth bound' d.skipBlanks.pos d.skipBlanks.afterWord
      else expectBlock read' "else" depth d) := by
  have plain := expectBlock_carried apart nested depth "else" beside
  rcases beside.skipBlanks apart with ⟨ch, here, same⟩ | ⟨ended, on⟩
  · rw [here.nextWord same apart]
    split
    · rw [same]
      exact branches (Beside.inside here.within).afterWord
    · exact plain
  · have none : c.nextWord = [] := by rw [Cursor.nextWord, ended]; rfl
    have noIf : lower [] ≠ ['i', 'f'] := (List.cons_ne_nil _ _).symm
    rw [none, if_neg noIf]
    by_cases blank : site.Blank
    · have none' : d.nextWord = [] := by rw [Cursor.nextWord, on, blank.skipBlanks]; rfl
      rw [none', if_neg noIf]
      exact plain
    · -- the text ends after its `else` and is rejected; what follows may go on with it
      have rejected : expectBlock read "else" depth c = reject (.missingBlock "else") site.size := by
        rw [expectBlock, ended]
        rfl
      rw [rejected]
      exact .unfinished blank _ _

theorem readBranch_carried {start bound bound' : Nat} (enough : bound ≤ bound')
    (beside : site.Beside c d) :
    site.Carried (site.Reads (Node.shift site.lead)) (readBranch read depth bound start c)
      (readBranch read' depth bound' (start + site.lead) d) := by
  induction bound generalizing bound' start c d with
  | zero => exact .exhausted _
  | succ bound ih =>
    obtain ⟨more, rfl⟩ := Nat.exists_eq_succ_of_ne_zero (Nat.ne_zero_of_lt enough)
    have inline := beside.skipInlineBlanks
    simp only [readBranch]
    cases found : c.skipInlineBlanks.upTo '{' with
    | none =>
      refine .rejected fun blank => ⟨d.skipInlineBlanks.pos, ?_, inline.moves⟩
      rw [inline.upTo_none blank rfl found]
    | some result =>
      obtain ⟨text, brace⟩ := result
      rw [inline.upTo found]
      dsimp only
      split
      · exact .problem _ inline.moves
      · obtain ⟨after, -, isBrace⟩ := Cursor.upTo_some found
        have here : site.At brace '{' :=
          ⟨by rw [isBrace]; rfl, rfl, (Cursor.stop_upTo found).trans inline.within⟩
        refine (readBlock_carried apart nested depth here).bind ?_
        rintro ⟨yes, after⟩ ⟨yes', after'⟩ ⟨same, later⟩
        simp only at same later
        subst same
        simp only [later.nextWord_else apart]
        split
        · rename_i isElse
          have alternative := later.afterElse apart isElse
          have fewer := Nat.le_of_succ_le_succ enough
          refine (alternative_carried apart nested depth (ih fewer) alternative).ite_bind ?_
          rintro x y ⟨no, last⟩
          exact .ok ⟨by simp [Node.shift, no], last⟩
        · exact .ok ⟨by simp [Node.shift], later⟩

theorem readCommand_carried {start : Nat} (within : start ≤ site.size) (word : List Char)
    (command : Command) (beside : site.Beside c d) :
    site.Carried (site.Reads (Node.shift site.lead)) (readCommand read depth start word c command)
      (readCommand read' depth (start + site.lead) word d command) := by
  cases command with
  | say => exact readSay_carried apart beside depth
  | define => exact readDefine_carried apart nested depth within beside
  | call => exact readCall_carried apart beside depth
  | loop => exact readLoop_carried apart nested depth beside
  | branch =>
    have enough := Nat.succ_le_succ beside.length_le
    exact readBranch_carried apart nested depth enough beside
  | assign => exact readAssign_carried apart beside depth within
  | math op => exact readMath_carried beside within op word

theorem readStatementWith_carriesOver :
    site.CarriesOver (readStatementWith read) (readStatementWith read') := by
  intro depth c ch here
  have first : c.skipBlanks = c := Cursor.skipBlanks_peek here.next here.solid
  have second := Cursor.skipBlanks_peek here.next_put here.solid
  have next : (site.put c).peek = c.peek := by rw [here.next, here.next_put]
  have beside := Beside.inside here.within
  have after := beside.afterWord
  have named : Command.ofWord? (site.put c).word (site.put c).afterWord.peek =
      Command.ofWord? c.word c.afterWord.peek := by
    rw [beside.word apart]
    exact Command.ofWord?_congr _ (after.peek apart rfl)
  simp only [readStatementWith, first, second, next, beside.word apart] at named ⊢
  split
  · exact readBlock_carried apart nested depth here
  · exact .problem _ (moves_shift here.place)
  · split
    · exact .problem _ (moves_shift here.place)
    · rw [named]
      cases Command.ofWord? c.word c.afterWord.peek with
      | none => exact .problem _ (moves_shift here.place)
      | some command =>
        have read := readCommand_carried apart nested depth here.place c.word command after
        cases command <;> exact read

end Blocks

theorem readStatement_carriesOver {site : Site} (apart : site.Apart) {bound bound' : Nat}
    (enough : bound ≤ bound') : site.CarriesOver (readStatement bound) (readStatement bound') := by
  induction bound generalizing bound' with
  | zero => exact fun depth c ch here => .exhausted _
  | succ bound ih =>
    obtain ⟨more, rfl⟩ := Nat.exists_eq_succ_of_ne_zero (Nat.ne_zero_of_lt enough)
    exact readStatementWith_carriesOver apart (ih (Nat.le_of_succ_le_succ enough))

/-- What is read up to the end depends on what stands after the blanks only. -/
theorem readUntilEnd_congr {read : Cursor → Reading (Node × Cursor)} {bound : Nat} {c d : Cursor}
    (some : 0 < bound) (same : c.skipBlanks = d.skipBlanks) :
    readUntilEnd read bound c = readUntilEnd read bound d := by
  obtain ⟨bound, rfl⟩ := Nat.exists_eq_succ_of_ne_zero (Nat.ne_zero_of_lt some)
  simp only [readUntilEnd, same]

section Texts
variable {site : Site} {read read' : StatementReader} (apart : site.Apart)
  (nested : site.CarriesOver read read') (depth : Nat) {bound bound' : Nat} (enough : bound ≤ bound')
  {c d : Cursor} (beside : site.Beside c d)
include apart nested enough beside

/-- The statements of an accepted text are read first, and then those that follow it. -/
theorem readUntilEnd_append {nodes : List Node}
    (accepted : readUntilEnd (read depth) bound c = .ok nodes) :
    ∃ left, bound' = left + nodes.length ∧ nodes.length < bound ∧
      readUntilEnd (read' depth) bound' d =
        (readUntilEnd (read' depth) left ⟨site.size + site.lead, site.tail⟩).map
          (Node.shiftAll site.lead nodes ++ ·) := by
  -- each statement read uses up one of the bound; what is left serves the text that follows
  induction bound generalizing bound' c d nodes with
  | zero => cases accepted
  | succ bound ih =>
    obtain ⟨more, rfl⟩ := Nat.exists_eq_succ_of_ne_zero (Nat.ne_zero_of_lt enough)
    rcases beside.skipBlanks apart with ⟨ch, here, same⟩ | ⟨ended, on⟩
    · have here' : d.skipBlanks.peek = some ch := by rw [same, here.next_put]
      rw [readUntilEnd_next _ _ here.next] at accepted
      obtain ⟨⟨node, after⟩, first, accepted⟩ := bind_eq_ok.mp accepted
      obtain ⟨rest, later, accepted⟩ := bind_eq_ok.mp accepted
      cases accepted
      have moved : site.Carried _ (read depth c.skipBlanks) (read' depth _) := nested here
      rw [first] at moved
      obtain ⟨⟨node', after'⟩, first', rfl, beside'⟩ := moved.of_ok
      obtain ⟨left, count, fewer, rest'⟩ := ih (Nat.le_of_succ_le_succ enough) beside' later
      refine ⟨left, by rw [count]; rfl, Nat.succ_lt_succ fewer, ?_⟩
      rw [readUntilEnd_next _ _ here', same, first', ok_bind]
      dsimp only at rest' ⊢
      rw [rest']
      cases readUntilEnd (read' depth) left ⟨site.size + site.lead, site.tail⟩ <;> rfl
    · have none : nodes = [] := by
        simp only [readUntilEnd, ended, Cursor.atEnd] at accepted
        cases accepted
        rfl
      subst none
      refine ⟨more + 1, rfl, Nat.succ_pos _, ?_⟩
      rw [readUntilEnd_congr (Nat.succ_pos more) on]
      cases readUntilEnd (read' depth) (more + 1) ⟨site.size + site.lead, site.tail⟩ <;> rfl

/-- Before blanks alone the text is read as on its own. -/
theorem readUntilEnd_carried (blank : site.Blank) :
    site.Carried (fun nodes moved => moved = Node.shiftAll site.lead nodes)
      (readUntilEnd (read depth) bound c) (readUntilEnd (read' depth) bound' d) := by
  induction bound generalizing bound' c d with
  | zero => exact .exhausted _
  | succ bound ih =>
    obtain ⟨more, rfl⟩ := Nat.exists_eq_succ_of_ne_zero (Nat.ne_zero_of_lt enough)
    rcases beside.skipBlanks apart with ⟨ch, here, same⟩ | ⟨ended, on⟩
    · have here' : d.skipBlanks.peek = some ch := by rw [same, here.next_put]
      rw [readUntilEnd_next _ _ here.next, readUntilEnd_next _ _ here', same]
      refine (nested here).bind ?_
      rintro x y ⟨node, later⟩
      refine (ih (Nat.le_of_succ_le_succ enough) later).bind fun xs ys nodes => ?_
      exact .ok (by simp [Node.shiftAll, node, nodes])
    · rw [blank.skipBlanks] at on
      simp only [readUntilEnd, ended, on, Cursor.atEnd, List.isEmpty_nil, if_true]
      exact .ok rfl

end Texts

theorem beside_start (site : Site) {source : List Char} (whole : source.length = site.size) :
    site.Beside (.start source) (site.put (.start source)) :=
  .inside ((Nat.zero_add _).trans whole)

/-- A source is read in a larger text, with larger bounds, as on its own. -/
theorem readBody_carried {site : Site} (blank : site.Blank) {source : List Char}
    (whole : source.length = site.size) {deep many : Nat} (nesting : source.length + 1 ≤ deep)
    (enough : source.length + 1 ≤ many) :
    site.Carried (fun nodes moved => moved = Node.shiftAll site.lead nodes) (readBody source)
      (readUntilEnd (readStatement deep 0) many (site.put (.start source))) :=
  readUntilEnd_carried blank.apart (readStatement_carriesOver blank.apart nesting) 0 enough
    (site.beside_start whole) blank

end Primer.Site
