import Primer.Proofs.Reading
import Primer.Proofs.WellFormed

/-! Reading moves on. A statement takes at least one character and a block its two
braces, so the bounds on the number and the nesting of statements, which are taken from
the length of the text, are never reached. -/
namespace Primer

theorem splitAtFirst_none {ch : Char} {s : List Char} : splitAtFirst ch s = none ↔ ch ∉ s := by
  induction s with
  | nil => simp [splitAtFirst]
  | cons c s ih =>
    by_cases here : c = ch
    · simp [splitAtFirst, here]
    · have apart : ch ≠ c := fun same => here same.symm
      simp [splitAtFirst, here, ih, apart]

theorem splitAtFirst_some {ch : Char} {s before after : List Char}
    (found : splitAtFirst ch s = some (before, after)) : s = before ++ ch :: after := by
  induction s generalizing before with
  | nil => cases found
  | cons c s ih =>
    unfold splitAtFirst at found
    split at found
    · rename_i here
      cases found
      rw [here]
      rfl
    · obtain ⟨⟨first, last⟩, later, result⟩ := Option.map_eq_some_iff.mp found
      cases result
      rw [ih later]
      rfl

namespace Cursor
variable {c d : Cursor}

theorem length_skipWhile (p : Char → Bool) (c : Cursor) :
    (c.skipWhile p).rest.length ≤ c.rest.length :=
  (List.dropWhile_suffix p).length_le

theorem length_skipBlanks (c : Cursor) : c.skipBlanks.rest.length ≤ c.rest.length :=
  c.length_skipWhile isBlank

theorem length_skipInlineBlanks (c : Cursor) : c.skipInlineBlanks.rest.length ≤ c.rest.length :=
  c.length_skipWhile isInlineBlank

theorem length_afterWord_le (c : Cursor) : c.afterWord.rest.length ≤ c.rest.length :=
  c.length_skipWhile _

theorem length_advance (c : Cursor) (n : Nat) : (c.advance n).rest.length = c.rest.length - n :=
  List.length_drop

theorem length_afterLine (c : Cursor) (inBlock : Bool) :
    (c.afterLine inBlock).rest.length ≤ c.rest.length := by
  rw [afterLine, length_advance]
  exact Nat.sub_le ..

theorem rest_ne_nil_of_peek {ch : Char} (here : c.peek = some ch) : 0 < c.rest.length := by
  cases rest : c.rest with
  | nil => simp [peek, rest] at here
  | cons x xs => exact Nat.succ_pos _

/-- The text before a character that is found, and the cursor at the character. -/
theorem upTo_some {ch : Char} {before : List Char} (found : c.upTo ch = some (before, d)) :
    ∃ after, c.rest = before ++ ch :: after ∧ d = ⟨c.pos + before.length, ch :: after⟩ := by
  obtain ⟨pos, rest⟩ := c
  obtain ⟨⟨first, after⟩, split, result⟩ := Option.map_eq_some_iff.mp found
  cases result
  have text := splitAtFirst_some split
  subst text
  exact ⟨after, rfl, advance_append pos before (ch :: after)⟩

theorem upTo_none {ch : Char} : c.upTo ch = none ↔ ch ∉ c.rest := by
  simp [upTo, splitAtFirst_none]

/-- A word takes a character if there is one in it. -/
theorem length_afterWord (named : c.word ≠ []) : c.afterWord.rest.length < c.rest.length := by
  have split := congrArg List.length (c.rest.takeWhile_append_dropWhile (p := fun ch => !isWordStop ch))
  have some := List.length_pos_iff.mpr named
  rw [List.length_append] at split
  unfold word at some
  simp only [afterWord, skipWhile]
  omega

end Cursor

/-- A reading that no bound cuts short, and after which fewer characters than a number
are left. -/
def Leaves (n : Nat) : Reading (α × Cursor) → Prop
  | .ok (_, after) => after.rest.length < n
  | .error .exhausted => False
  | .error _ => True

section Leaving

theorem Leaves.mono {m n : Nat} {r : Reading (α × Cursor)} (left : Leaves m r) (le : m ≤ n) :
    Leaves n r := by
  match r, left with
  | .ok _, left => exact Nat.lt_of_lt_of_le left le
  | .error (.problem ..), _ => trivial
  | .error (.fault _), _ => trivial

theorem Leaves.bind {m n : Nat} {x : Reading (α × Cursor)} {f : α × Cursor → Reading (β × Cursor)}
    (first : Leaves m x) (rest : ∀ a after, after.rest.length < m → Leaves n (f (a, after))) :
    Leaves n (x >>= f) := by
  match x, first with
  | .ok (a, after), left => exact rest a after left
  | .error (.problem ..), _ => trivial
  | .error (.fault _), _ => trivial

theorem Leaves.orFault {n : Nat} {r : Except Fault α} {f : α → Reading (β × Cursor)}
    (rest : ∀ a, Leaves n (f a)) : Leaves n (orFault r >>= f) := by
  cases r with
  | ok a => exact rest a
  | error fault => trivial

/-- A reader that, on texts shorter than a number, is not cut short and takes a character. -/
def Proceeds (read : StatementReader) (size : Nat) : Prop :=
  ∀ ⦃depth c⦄, c.rest.length < size → Leaves c.rest.length (read depth c)

theorem readUntilClose_leaves {read : StatementReader} {size : Nat} (nested : Proceeds read size)
    (depth opened : Nat) {bound : Nat} {c : Cursor} (short : c.rest.length < size)
    (enough : c.rest.length < bound) :
    Leaves c.rest.length (readUntilClose (read depth) opened bound c) := by
  induction bound generalizing c with
  | zero => omega
  | succ bound ih =>
    have skipped := c.length_skipBlanks
    simp only [readUntilClose]
    split
    · trivial
    · rename_i close
      have some := Cursor.rest_ne_nil_of_peek close
      have left := c.skipBlanks.length_advance 1
      change (c.skipBlanks.advance 1).rest.length < c.rest.length
      omega
    · have first : Leaves c.skipBlanks.rest.length (read depth c.skipBlanks) :=
        nested (Nat.lt_of_le_of_lt skipped short)
      refine first.bind fun node after left => ?_
      have fewer := Nat.lt_of_lt_of_le left skipped
      have later := ih (c := after) (by omega) (by omega)
      exact later.bind fun nodes last ended => Nat.lt_trans ended fewer

theorem readEntries_leaves (what : String) (c : Cursor) :
    Leaves c.rest.length (readEntries what c) := by
  unfold readEntries
  split
  · trivial
  · rename_i text close found
    obtain ⟨after, rest, rfl⟩ := Cursor.upTo_some found
    have left : (Cursor.advance ⟨c.pos + text.length, ')' :: after⟩ 1).rest.length < c.rest.length := by
      simp [Cursor.advance, rest]
      omega
    simp only
    split
    · exact left
    · split
      · trivial
      · exact left

theorem readParams_leaves (name : List Char) (c : Cursor) :
    Leaves (c.rest.length + 1) (readParams name c) := by
  unfold readParams
  split
  · exact (readEntries_leaves _ c).mono (Nat.le_succ _)
  · split
    · trivial
    · rename_i text body found
      obtain ⟨after, rest, rfl⟩ := Cursor.upTo_some found
      simp [Leaves, rest]

variable {read : StatementReader} {size : Nat} (nested : Proceeds read size) (depth start : Nat)
  {c : Cursor}

theorem readCall_leaves : Leaves (c.rest.length + 1) (readCall depth start c) := by
  have inline := c.length_skipInlineBlanks
  have word := c.skipInlineBlanks.length_afterWord_le
  have again := c.skipInlineBlanks.afterWord.length_skipInlineBlanks
  simp only [readCall]
  split
  · trivial
  · split
    · refine (readEntries_leaves _ _).bind fun args after left => ?_
      change after.rest.length < c.rest.length + 1
      omega
    · have line := c.skipInlineBlanks.afterWord.skipInlineBlanks.length_afterLine (decide (0 < depth))
      change (Cursor.afterLine _ _).rest.length < c.rest.length + 1
      omega

theorem readAssign_leaves : Leaves (c.rest.length + 1) (readAssign depth start c) := by
  have inline := c.length_skipInlineBlanks
  simp only [readAssign]
  split
  · trivial
  · rename_i before _ _
    split
    · trivial
    · refine .orFault fun value => ?_
      have moved := c.skipInlineBlanks.length_advance (before.length + 1)
      have line := (c.skipInlineBlanks.advance (before.length + 1)).length_afterLine (decide (0 < depth))
      change (Cursor.afterLine _ _).rest.length < c.rest.length + 1
      omega

theorem readOperands_not_exhausted (op : Operator) (pos : Nat) (entries : List (List Char)) :
    readOperands op pos entries ≠ .error .exhausted := by
  induction entries generalizing pos with
  | nil =>
    intro failed
    cases failed
  | cons entry entries ih =>
    simp only [readOperands]
    split
    · exact ih _
    · cases readWhole (trim entry) with
      | error f =>
        intro failed
        cases failed
      | ok number =>
        cases number with
        | none =>
          intro failed
          cases failed
        | some n =>
          rw [orFault_ok, ok_bind]
          intro failed
          rcases bind_eq_error.mp failed with later | ⟨_, _, done⟩
          · exact ih _ later
          · cases done

theorem readMath_leaves (op : Operator) (keyword : List Char) :
    Leaves (c.rest.length + 1) (readMath op keyword start c) := by
  unfold readMath
  split
  · trivial
  · rename_i text close found
    obtain ⟨after, rest, rfl⟩ := Cursor.upTo_some found
    have operands := readOperands_not_exhausted op (c.pos + 1) (cut (· == ',') (text.drop 1))
    cases read : readOperands op (c.pos + 1) (cut (· == ',') (text.drop 1)) with
    | error r =>
      cases r with
      | exhausted => exact absurd read operands
      | _ => trivial
    | ok ns =>
      rw [ok_bind]
      split
      · trivial
      · simp [Leaves, Cursor.advance, rest]
        omega

include nested

theorem readBlock_leaves {ch : Char} (here : c.peek = some ch) (short : c.rest.length ≤ size) :
    Leaves c.rest.length (readBlock read depth c) := by
  have some := Cursor.rest_ne_nil_of_peek here
  have moved := c.length_advance 1
  have inside : Leaves (c.advance 1).rest.length
      (readUntilClose (read (depth + 1)) c.pos (c.rest.length + 1) (c.advance 1)) :=
    readUntilClose_leaves nested (depth + 1) c.pos (by omega) (by omega)
  refine inside.bind fun nodes after left => ?_
  change after.rest.length < c.rest.length
  omega

theorem expectBlock_leaves (what : String) (short : c.rest.length ≤ size) :
    Leaves c.rest.length (expectBlock read what depth c) := by
  have skipped := c.length_skipBlanks
  simp only [expectBlock]
  split
  · rename_i here
    exact (readBlock_leaves nested depth here (by omega)).mono skipped
  · trivial

theorem readDefine_leaves (short : c.rest.length ≤ size) :
    Leaves (c.rest.length + 1) (readDefine read depth start c) := by
  have inline := c.length_skipInlineBlanks
  have word := c.skipInlineBlanks.length_afterWord_le
  have again := c.skipInlineBlanks.afterWord.length_skipInlineBlanks
  simp only [readDefine]
  split
  · trivial
  · refine (readParams_leaves _ _).bind fun entries after left => ?_
    split
    · trivial
    · have body := expectBlock_leaves nested depth (c := after)
      refine (body _ (by omega)).bind fun node last ended => ?_
      change last.rest.length < c.rest.length + 1
      omega

theorem readLoop_leaves (short : c.rest.length ≤ size) :
    Leaves (c.rest.length + 1) (readLoop read depth start c) := by
  have inline := c.length_skipInlineBlanks
  have word := c.skipInlineBlanks.length_afterWord_le
  refine .orFault fun count => ?_
  cases count with
  | none => trivial
  | some n =>
    have body := expectBlock_leaves nested depth "repeat" (c := c.skipInlineBlanks.afterWord)
    refine (body (by omega)).bind fun node last ended => ?_
    change last.rest.length < c.rest.length + 1
    omega

theorem readBranch_leaves {bound : Nat} (short : c.rest.length ≤ size)
    (enough : c.rest.length < bound) :
    Leaves (c.rest.length + 1) (readBranch read depth bound start c) := by
  -- each alternative is read from a shorter text than the one before it
  induction bound generalizing start c with
  | zero => omega
  | succ bound ih =>
    have inline := c.length_skipInlineBlanks
    simp only [readBranch]
    split
    · trivial
    · rename_i text brace found
      split
      · trivial
      · obtain ⟨rest, split, isBrace⟩ := Cursor.upTo_some found
        have before := congrArg List.length split
        have here : brace.peek = some '{' := by rw [isBrace]; rfl
        have length : brace.rest.length = rest.length + 1 := by rw [isBrace]; rfl
        simp only [List.length_append, List.length_cons] at before
        refine (readBlock_leaves nested depth here (by omega)).bind fun node after left => ?_
        have blanks := after.length_skipBlanks
        have keyword := after.skipBlanks.length_afterWord_le
        have blanksAgain := after.skipBlanks.afterWord.length_skipBlanks
        have wordAgain := after.skipBlanks.afterWord.skipBlanks.length_afterWord_le
        dsimp only
        split
        · split
          · refine (ih _ (by omega) (by omega)).bind fun no last ended => ?_
            change last.rest.length < c.rest.length + 1
            omega
          · refine (expectBlock_leaves nested depth "else" (by omega)).bind fun no last ended => ?_
            change last.rest.length < c.rest.length + 1
            omega
        · change after.rest.length < c.rest.length + 1
          omega

theorem readStatementWith_proceeds : Proceeds (readStatementWith read) (size + 1) := by
  intro depth c short
  have skipped := c.length_skipBlanks
  simp only [readStatementWith]
  split
  · rename_i here
    exact (readBlock_leaves nested depth here (by omega)).mono skipped
  · trivial
  · split
    · trivial
    · rename_i named
      have word := c.skipBlanks.length_afterWord (by simpa using named)
      split
      · have line := c.skipBlanks.afterWord.skipInlineBlanks.length_afterLine (decide (0 < depth))
        have inline := c.skipBlanks.afterWord.length_skipInlineBlanks
        change (Cursor.afterLine _ _).rest.length < c.rest.length
        omega
      · exact (readDefine_leaves nested depth _ (by omega)).mono (by omega)
      · exact (readCall_leaves depth _).mono (by omega)
      · exact (readLoop_leaves nested depth _ (by omega)).mono (by omega)
      · exact (readBranch_leaves nested depth _ (by omega) (by omega)).mono (by omega)
      · exact (readAssign_leaves depth _).mono (by omega)
      · exact (readMath_leaves _ _ _).mono (by omega)
      · trivial

end Leaving

theorem readStatement_proceeds (bound : Nat) : Proceeds (readStatement bound) bound := by
  induction bound with
  | zero => exact fun depth c short => absurd short (Nat.not_lt_zero _)
  | succ bound ih => exact readStatementWith_proceeds ih

theorem readUntilEnd_not_exhausted {read : StatementReader} {size : Nat} (nested : Proceeds read size)
    (depth : Nat) {bound : Nat} {c : Cursor} (short : c.rest.length < size)
    (enough : c.rest.length < bound) : readUntilEnd (read depth) bound c ≠ .error .exhausted := by
  induction bound generalizing c with
  | zero => omega
  | succ bound ih =>
    have skipped := c.length_skipBlanks
    simp only [readUntilEnd]
    split
    · intro failed
      cases failed
    · have first : Leaves c.skipBlanks.rest.length (read depth c.skipBlanks) :=
        nested (Nat.lt_of_le_of_lt skipped short)
      intro failed
      rcases bind_eq_error.mp failed with here | ⟨⟨node, after⟩, here, failed⟩
      · rw [here] at first
        exact first
      · rw [here] at first
        have left : after.rest.length < c.skipBlanks.rest.length := first
        rcases bind_eq_error.mp failed with later | ⟨_, _, done⟩
        · exact ih (c := after) (by omega) (by omega) later
        · cases done

/-- Reading a source never comes to the bounds it is given. -/
theorem readBody_not_exhausted (source : List Char) : readBody source ≠ .error .exhausted :=
  readUntilEnd_not_exhausted (readStatement_proceeds _) 0 (Nat.lt_succ_self _) (Nat.lt_succ_self _)

end Primer
