import Primer.Proofs.Literals
import Primer.Proofs.Offsets

/-! The problems that reading a source finds: malformed text and unknown commands, at
places of the source. Main statement: a source is a program, or has such a problem, or has
a literal with too many digits. -/
namespace Primer

/-- The kinds of diagnostics that reading a source gives. -/
def readerKinds : List Kind := [.malformed, .unknownCommand]

/-- A result of reading whose problem, if it is one, is of a kind that reading gives and
stands no later than at an offset. -/
def Proper (last : Nat) (r : Reading α) : Prop :=
  ∀ p offset, r = .error (.problem p offset) → p.kind ∈ readerKinds ∧ offset ≤ last

section Reading
variable {last : Nat}

theorem proper_ok (a : α) : Proper last (.ok a) := nofun

theorem proper_reject {p : Problem} (kind : p.kind ∈ readerKinds) {offset : Nat}
    (inside : offset ≤ last) : Proper last (reject p offset : Reading α) := by
  intro q place same
  cases same
  exact ⟨kind, inside⟩

theorem proper_exhausted : Proper last (.error .exhausted : Reading α) := nofun

theorem proper_orFault (r : Except Fault α) : Proper last (orFault r) := by
  cases r <;> exact nofun

theorem proper_bind {x : Reading α} {f : α → Reading β} (first : Proper last x)
    (rest : ∀ a, x = .ok a → Proper last (f a)) : Proper last (x >>= f) := by
  intro p offset failed
  rcases bind_eq_error.mp failed with here | ⟨a, read, later⟩
  · exact first p offset here
  · exact rest a read p offset later

theorem malformed_mem {p : Problem} (malformed : p.kind = .malformed) : p.kind ∈ readerKinds :=
  malformed ▸ List.mem_cons_self

/-- What is found later in a source is found in the source. -/
theorem Cursor.LeadsTo.proper {c d : Cursor} (leads : c.LeadsTo d) {r : Reading α}
    (later : Proper d.stop r) : Proper c.stop r :=
  leads.stop_eq ▸ later

/-- A reader of nested statements that moves on through the source and whose problems are
proper ones. -/
structure ProperReader (read : StatementReader) : Prop where
  places : Places read
  proper : ∀ depth c, Proper c.stop (read depth c)

theorem readUntilClose_proper {read : StatementReader} (nested : ProperReader read)
    (depth bound : Nat) {opened : Nat} {c : Cursor} (open_le : opened ≤ c.stop) :
    Proper c.stop (readUntilClose (read depth) opened bound c) := by
  induction bound generalizing c with
  | zero => exact proper_exhausted
  | succ bound ih =>
    have blanks := Cursor.LeadsTo.skipBlanks c
    simp only [readUntilClose]
    split
    · exact proper_reject (malformed_mem rfl) open_le
    · exact proper_ok _
    · apply proper_bind (blanks.proper (nested.proper depth _))
      rintro ⟨node, next⟩ read
      have leads := blanks.trans (nested.places read).leads
      exact proper_bind (leads.proper (ih (leads.stop_eq ▸ open_le))) fun _ _ => proper_ok _

theorem readUntilEnd_proper {read : StatementReader} (nested : ProperReader read)
    (depth bound : Nat) (c : Cursor) : Proper c.stop (readUntilEnd (read depth) bound c) := by
  induction bound generalizing c with
  | zero => exact proper_exhausted
  | succ bound ih =>
    have blanks := Cursor.LeadsTo.skipBlanks c
    simp only [readUntilEnd]
    split
    · exact proper_ok _
    · apply proper_bind (blanks.proper (nested.proper depth _))
      rintro ⟨node, next⟩ read
      have leads := blanks.trans (nested.places read).leads
      exact proper_bind (leads.proper (ih next)) fun _ _ => proper_ok _

theorem readEntries_proper (what : String) (c : Cursor) : Proper c.stop (readEntries what c) := by
  unfold readEntries
  split
  · exact proper_reject (malformed_mem rfl) c.pos_le_stop
  · simp only
    split
    · exact proper_ok _
    · split
      · exact proper_reject (malformed_mem rfl) c.pos_le_stop
      · exact proper_ok _

theorem readParams_proper (name : List Char) (c : Cursor) : Proper c.stop (readParams name c) := by
  unfold readParams
  split
  · exact readEntries_proper _ c
  · split
    · exact proper_reject (malformed_mem rfl) c.pos_le_stop
    · exact proper_ok _

/-- A word among the entries of a list stands before the end of the list. -/
theorem readOperands_proper (op : Operator) {pos : Nat} {entries : List (List Char)}
    (fits : pos + (entries.map (·.length + 1)).sum ≤ last + 1) :
    Proper last (readOperands op pos entries) := by
  induction entries generalizing pos with
  | nil => exact proper_ok _
  | cons entry entries ih =>
    rw [List.map_cons, List.sum_cons] at fits
    have later : Proper last (readOperands op (pos + entry.length + 1) entries) := ih (by omega)
    simp only [readOperands]
    split
    · exact later
    · refine proper_bind (proper_orFault _) fun number _ => ?_
      cases number with
      | none =>
        have blanks := (List.takeWhile_prefix (l := entry) isBlank).length_le
        exact proper_reject (malformed_mem rfl) (by omega)
      | some n => exact proper_bind later fun _ _ => proper_ok _

variable {read : StatementReader} (depth : Nat) {start : Nat} {c : Cursor}

theorem readCall_proper : Proper c.stop (readCall depth start c) := by
  have blanks := Cursor.LeadsTo.skipInlineBlanks c
  simp only [readCall]
  split
  · exact blanks.proper (proper_reject (malformed_mem rfl) (Cursor.pos_le_stop _))
  · split
    · have name := Cursor.LeadsTo.afterName c
      exact proper_bind (name.proper (readEntries_proper _ _)) fun _ _ => proper_ok _
    · exact proper_ok _

theorem readBlock_proper (nested : ProperReader read) : Proper c.stop (readBlock read depth c) := by
  have moved := Cursor.LeadsTo.advance c 1
  have inside := readUntilClose_proper nested (depth + 1) (c.rest.length + 1)
    (moved.stop_eq ▸ c.pos_le_stop)
  exact proper_bind (moved.proper inside) fun _ _ => proper_ok _

theorem expectBlock_proper (nested : ProperReader read) (what : String) :
    Proper c.stop (expectBlock read what depth c) := by
  have blanks := Cursor.LeadsTo.skipBlanks c
  simp only [expectBlock]
  split
  · exact blanks.proper (readBlock_proper depth nested)
  · exact blanks.proper (proper_reject (malformed_mem rfl) (Cursor.pos_le_stop _))

section Commands
variable (started : start ≤ c.stop)
include started

theorem readAssign_proper : Proper c.stop (readAssign depth start c) := by
  simp only [readAssign]
  split
  · exact proper_reject (malformed_mem rfl) started
  · split
    · exact proper_reject (malformed_mem rfl) started
    · exact proper_bind (proper_orFault _) fun _ _ => proper_ok _

theorem readMath_proper (op : Operator) (keyword : List Char) :
    Proper c.stop (readMath op keyword start c) := by
  unfold readMath
  split
  · exact proper_reject (malformed_mem rfl) c.pos_le_stop
  · rename_i text close found
    obtain ⟨after, whole, -⟩ := Cursor.upTo_some found
    refine proper_bind (readOperands_proper op ?_) fun operands _ => ?_
    · rw [sum_length_cut, List.length_drop, Cursor.stop, whole, List.length_append, List.length_cons]
      omega
    · split
      · exact proper_reject (malformed_mem rfl) started
      · exact proper_ok _

theorem readDefine_proper (nested : ProperReader read) :
    Proper c.stop (readDefine read depth start c) := by
  have blanks := Cursor.LeadsTo.skipInlineBlanks c
  have name := Cursor.LeadsTo.afterName c
  simp only [readDefine]
  split
  · exact blanks.proper (proper_reject (malformed_mem rfl) (Cursor.pos_le_stop _))
  · apply proper_bind (name.proper (readParams_proper _ _))
    rintro ⟨entries, next⟩ listed
    have params := name.trans (readParams_leads listed)
    simp only
    split
    · exact proper_reject (malformed_mem rfl) started
    · exact proper_bind (params.proper (expectBlock_proper depth nested _)) fun _ _ => proper_ok _

end Commands

theorem readLoop_proper (nested : ProperReader read) :
    Proper c.stop (readLoop read depth start c) := by
  have blanks := Cursor.LeadsTo.skipInlineBlanks c
  refine proper_bind (proper_orFault _) fun count _ => ?_
  cases count with
  | none => exact blanks.proper (proper_reject (malformed_mem rfl) (Cursor.pos_le_stop _))
  | some n =>
    have word := blanks.trans (.afterWord _)
    exact proper_bind (word.proper (expectBlock_proper depth nested _)) fun _ _ => proper_ok _

theorem readBranch_proper (nested : ProperReader read) (bound : Nat) :
    Proper c.stop (readBranch read depth bound start c) := by
  induction bound generalizing start c with
  | zero => exact proper_exhausted
  | succ bound ih =>
    have blanks := Cursor.LeadsTo.skipInlineBlanks c
    simp only [readBranch]
    split
    · exact blanks.proper (proper_reject (malformed_mem rfl) (Cursor.pos_le_stop _))
    · rename_i text brace found
      split
      · exact blanks.proper (proper_reject (malformed_mem rfl) (Cursor.pos_le_stop _))
      · have condition := blanks.trans (.upTo found)
        apply proper_bind (condition.proper (readBlock_proper depth nested))
        rintro ⟨yes, next⟩ inside
        have here : brace.peek = some '{' := by
          obtain ⟨rest, -, rfl⟩ := Cursor.upTo_some found
          rfl
        have block := condition.trans (readBlock_placed nested.places here inside).leads
        have keyword := block.trans ((Cursor.LeadsTo.skipBlanks next).trans (.afterWord _))
        simp only
        split
        · split
          · have word := keyword.trans ((Cursor.LeadsTo.skipBlanks _).trans (.afterWord _))
            exact proper_bind (word.proper ih) fun _ _ => proper_ok _
          · exact proper_bind (keyword.proper (expectBlock_proper depth nested _)) fun _ _ =>
              proper_ok _
        · exact proper_ok _

theorem readStatementWith_proper (nested : ProperReader read) :
    ProperReader (readStatementWith read) := by
  refine ⟨readStatementWith_places nested.places, fun depth c => ?_⟩
  have blanks := Cursor.LeadsTo.skipBlanks c
  have here := c.skipBlanks.pos_le_stop
  apply blanks.proper
  simp only [readStatementWith]
  split
  · exact readBlock_proper depth nested
  · exact proper_reject (malformed_mem rfl) here
  · split
    · exact proper_reject (malformed_mem rfl) here
    · have word := Cursor.LeadsTo.afterWord c.skipBlanks
      have started : c.skipBlanks.pos ≤ c.skipBlanks.afterWord.stop := word.stop_eq ▸ here
      split
      · exact proper_ok _
      · exact word.proper (readDefine_proper depth started nested)
      · exact word.proper (readCall_proper depth)
      · exact word.proper (readLoop_proper depth nested)
      · exact word.proper (readBranch_proper depth nested _)
      · exact word.proper (readAssign_proper depth started)
      · exact word.proper (readMath_proper started _ _)
      · exact proper_reject (.tail _ (.head _)) here

end Reading

theorem readStatement_proper (bound : Nat) : ProperReader (readStatement bound) := by
  induction bound with
  | zero => exact ⟨readStatement_places 0, fun _ _ => proper_exhausted⟩
  | succ bound ih => exact readStatementWith_proper ih

theorem readBody_proper (source : List Char) : Proper source.length (readBody source) := by
  have proper := readUntilEnd_proper (readStatement_proper (source.length + 1)) 0 (source.length + 1)
    (.start source)
  rwa [Cursor.stop, Cursor.start, Nat.zero_add] at proper

/-- A source is a program. Or it has a problem of a reader's kind, which is reported at a place
of the source and with a snippet of the source there. Or it has a literal, the count of a loop,
an operand or an assigned value, with more digits than may be converted. -/
theorem parse_outcomes (source : List Char) :
    (∃ body, parse source = .ok (.program body)) ∨
    (∃ p offset, parse source =
        .error (.diagnostic ⟨p, atOffset offset, some (snippet source offset)⟩) ∧
      p.kind ∈ readerKinds ∧ offset ≤ source.length) ∨
    ∃ s, SourceConverts source s ∧ IsTooLong s ∧
      parse source = .error (.fault (.literalTooLong (splitSign s).2.length)) := by
  cases read : readBody source with
  | ok body => exact .inl ⟨body, parse_eq_ok.mpr read⟩
  | error r =>
    right
    cases r with
    | problem p offset =>
      exact .inl ⟨p, offset, parse_eq_diagnostic.mpr ⟨p, offset, read, rfl⟩,
        readBody_proper source p offset read⟩
    | fault f =>
      have failed := parse_eq_fault.mpr read
      obtain ⟨s, converts, long⟩ := parse_fault.mp failed
      obtain ⟨tooLong, rfl⟩ := readWhole_error.mp long
      exact .inr ⟨s, converts, tooLong, failed⟩
    | exhausted => exact absurd read (readBody_not_exhausted source)

end Primer
