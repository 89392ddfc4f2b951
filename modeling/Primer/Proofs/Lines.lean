import Primer.Proofs.Offsets

/-! Where a line ends. In a block a line also ends at a closing brace, unless the brace was
opened on the same line. An assignment reads its line in two parts, the name and the
value, and counts the braces of each part alone. Main statements: the end of a line is the
only place that meets its conditions, and when an assignment ends where its line does. -/
namespace Primer

/-- A line ends at a character or goes on after it, with the braces that are open then. -/
theorem lineSegment_step (inBlock : Bool) (depth : Nat) (c : Char) (s : List Char) :
    lineSegment inBlock depth (c :: s) = [] ∨
    ∃ outer, (inBlock = true → depth + [c].count '{' = outer + [c].count '}') ∧
      lineSegment inBlock depth (c :: s) = c :: lineSegment inBlock outer s := by
  by_cases newline : c = '\n'
  · subst newline
    exact .inl rfl
  cases inBlock with
  | false => exact .inr ⟨depth, nofun, by simp [lineSegment, newline]⟩
  | true =>
    by_cases opens : c = '{'
    · subst opens
      exact .inr ⟨depth + 1, fun _ => rfl, rfl⟩
    by_cases closes : c = '}'
    · subst closes
      cases depth with
      | zero => exact .inl rfl
      | succ outer => exact .inr ⟨outer, fun _ => rfl, rfl⟩
    · exact .inr ⟨depth, fun _ => by simp [opens, closes],
        by simp [lineSegment, newline, opens, closes]⟩

theorem lineSegment_initial (inBlock : Bool) (depth : Nat) (s : List Char) :
    lineSegment inBlock depth s <+: s := by
  induction s generalizing depth with
  | nil => exact List.nil_prefix
  | cons c s ih =>
    rcases lineSegment_step inBlock depth c s with ended | ⟨outer, -, goesOn⟩
    · rw [ended]
      exact List.nil_prefix
    · rw [goesOn]
      exact List.cons_prefix_cons.mpr ⟨rfl, ih outer⟩

theorem lineSegment_outside (depth deeper : Nat) (s : List Char) :
    lineSegment false depth s = lineSegment false deeper s := by
  induction s generalizing depth deeper with
  | nil => rfl
  | cons c s ih =>
    simp only [lineSegment, Bool.false_and, Bool.false_eq_true, if_false, ih depth deeper]

theorem lineSegment_resume {inBlock : Bool} {depth : Nat} {before rest : List Char}
    (within : before <+: lineSegment inBlock depth (before ++ rest)) :
    ∃ deeper, (inBlock = true → depth + before.count '{' = deeper + before.count '}') ∧
      lineSegment inBlock depth (before ++ rest) = before ++ lineSegment inBlock deeper rest := by
  induction before generalizing depth with
  | nil => exact ⟨depth, fun _ => rfl, rfl⟩
  | cons c before ih =>
    rw [List.cons_append] at within ⊢
    rcases lineSegment_step inBlock depth c (before ++ rest) with ended | ⟨outer, first, goesOn⟩
    · rw [ended] at within
      cases List.prefix_nil.mp within
    · rw [goesOn] at within
      obtain ⟨deeper, others, resumed⟩ := ih (List.cons_prefix_cons.mp within).2
      refine ⟨deeper, ?_, by rw [goesOn, resumed, List.cons_append]⟩
      intro inside
      have here := first inside
      have later := others inside
      rw [← List.singleton_append, List.count_append, List.count_append]
      omega

theorem lineSegment_deeper (depth extra : Nat) (s : List Char) :
    (lineSegment true (depth + extra) s).length = (lineSegment true depth s).length ↔
      extra = 0 ∨ (s.drop (lineSegment true depth s).length).head? ≠ some '}' := by
  -- A line that ends at a brace of depth zero goes on if one more brace is open.
  induction s generalizing depth with
  | nil => simp [lineSegment]
  | cons c s ih =>
    by_cases newline : c = '\n'
    · simp [lineSegment, newline]
    by_cases opens : c = '{'
    · subst opens
      have deeper := ih (depth + 1)
      rw [Nat.add_right_comm] at deeper
      simpa [lineSegment] using deeper
    by_cases closes : c = '}'
    · subst closes
      cases depth with
      | zero => cases extra <;> simp [lineSegment]
      | succ depth =>
        have deeper := ih depth
        rw [Nat.add_right_comm]
        simpa [lineSegment] using deeper
    · simpa [lineSegment, newline, opens, closes] using ih depth

theorem lineSegment_stop {inBlock : Bool} {depth : Nat} {c : Char} {s : List Char}
    (ended : lineSegment inBlock depth (c :: s) = []) :
    c = '\n' ∨ inBlock = true ∧ c = '}' ∧ depth = 0 := by
  unfold lineSegment at ended
  split at ended
  · rename_i newline
    exact .inl newline
  · split at ended
    · cases ended
    · split at ended
      · rename_i closes
        cases depth with
        | zero => exact .inr (by simpa using closes)
        | succ depth => cases ended
      · cases ended

theorem lineSegment_covered (depth : Nat) (s : List Char) :
    ∀ part, part <+: lineSegment true depth s → part.count '}' ≤ depth + part.count '{' := by
  induction s generalizing depth with
  | nil =>
    intro part within
    rw [List.prefix_nil.mp within]
    exact Nat.zero_le _
  | cons c s ih =>
    intro part within
    rcases lineSegment_step true depth c s with ended | ⟨outer, count, goesOn⟩
    · rw [ended] at within
      rw [List.prefix_nil.mp within]
      exact Nat.zero_le _
    · rw [goesOn] at within
      cases part with
      | nil => exact Nat.zero_le _
      | cons first part =>
        obtain ⟨rfl, later⟩ := List.cons_prefix_cons.mp within
        have here := count rfl
        have rest := ih outer part later
        rw [← List.singleton_append, List.count_append, List.count_append]
        omega

theorem lineSegment_followed (inBlock : Bool) (depth : Nat) (s : List Char) :
    let line := lineSegment inBlock depth s
    let next := (s.drop line.length).head?
    next = none ∨ next = some '\n' ∨
      inBlock = true ∧ next = some '}' ∧ depth + line.count '{' = line.count '}' := by
  induction s generalizing depth with
  | nil => exact .inl rfl
  | cons c s ih =>
    rcases lineSegment_step inBlock depth c s with ended | ⟨outer, count, goesOn⟩
    · rw [ended]
      rcases lineSegment_stop ended with rfl | ⟨inside, rfl, rfl⟩
      · exact .inr (.inl rfl)
      · exact .inr (.inr ⟨inside, rfl, rfl⟩)
    · rw [goesOn]
      refine (ih outer).imp_right (Or.imp_right ?_)
      rintro ⟨inside, close, balanced⟩
      refine ⟨inside, close, ?_⟩
      have here := count inside
      rw [← List.singleton_append, List.count_append, List.count_append]
      omega

namespace Cursor

theorem line_append_afterLine (c : Cursor) (inBlock : Bool) :
    c.line inBlock ++ (c.afterLine inBlock).rest = c.rest :=
  (List.prefix_append_drop (lineSegment_initial inBlock 0 c.rest)).symm

theorem pos_afterLine (c : Cursor) (inBlock : Bool) :
    (c.afterLine inBlock).pos = c.lineEnd inBlock := by
  have short := (lineSegment_initial inBlock 0 c.rest).length_le
  rw [afterLine, advance, lineEnd, line, Nat.min_eq_left short]

theorem line_split {c : Cursor} {inBlock : Bool} {ch : Char} {before rest : List Char}
    (found : splitAtFirst ch (c.line inBlock) = some (before, rest)) :
    ∃ left, c.rest = before ++ ch :: left ∧ before ++ [ch] <+: c.line inBlock ∧
      c.advance (before.length + 1) = ⟨c.pos + before.length + 1, left⟩ := by
  have line := splitAtFirst_some found
  have whole := c.line_append_afterLine inBlock
  rw [line, List.append_assoc, List.cons_append] at whole
  refine ⟨_, whole.symm, ⟨rest, by rw [line, List.append_assoc]; rfl⟩, ?_⟩
  simp [advance, ← whole, Nat.add_assoc]
  omega

end Cursor

theorem lineSegment_parts {inBlock : Bool} {before rest : List Char}
    (within : before <+: lineSegment inBlock 0 (before ++ rest)) :
    before.length + (lineSegment inBlock 0 rest).length =
        (lineSegment inBlock 0 (before ++ rest)).length ↔
      inBlock = false ∨ before.count '{' = before.count '}' ∨
        (rest.drop (lineSegment inBlock 0 rest).length).head? ≠ some '}' := by
  obtain ⟨deeper, opened, resumed⟩ := lineSegment_resume within
  rw [resumed, List.length_append, Nat.add_left_cancel_iff]
  cases inBlock with
  | false => simp [lineSegment_outside 0 deeper rest]
  | true =>
    have count := opened rfl
    have balanced : deeper = 0 ↔ before.count '{' = before.count '}' := by omega
    have ends := lineSegment_deeper 0 deeper rest
    rw [Nat.zero_add, balanced] at ends
    simp only [Bool.true_eq_false, false_or]
    exact eq_comm.trans ends

theorem extract_of_drop {source text rest : List Char} {p : Nat}
    (whole : source.drop p = text ++ rest) :
    source.extract p (p + text.length) = text ∧ source.drop (p + text.length) = rest := by
  constructor
  · rw [List.extract_eq_take_drop, whole, Nat.add_sub_cancel_left, List.take_left]
  · rw [← List.drop_drop, whole, List.drop_left]

theorem extract_succ {source : List Char} {p e : Nat} {ch : Char} (le : p ≤ e)
    (here : source[e]? = some ch) : source.extract p (e + 1) = source.extract p e ++ [ch] := by
  rw [List.extract_eq_take_drop, List.extract_eq_take_drop, Nat.succ_sub le, List.take_add_one,
    List.getElem?_drop, Nat.add_sub_cancel' le, here]
  rfl

/-- The conditions on where a line ends that starts at a place of a source. In a block its
parts close no more braces than they open, and a closing brace may end it. -/
structure EndsLine (source : List Char) (inBlock : Bool) (p e : Nat) : Prop where
  starts : p ≤ e
  within : e ≤ source.length
  oneLine : '\n' ∉ source.extract p e
  outside : inBlock = false → e = source.length ∨ source[e]? = some '\n'
  closed : inBlock = true → ClosesNothing (source.extract p e)
  inside : inBlock = true → e = source.length ∨ source[e]? = some '\n' ∨
    source[e]? = some '}' ∧ (source.extract p e).count '{' = (source.extract p e).count '}'

theorem EndsLine.le {source : List Char} {inBlock : Bool} {p e later : Nat}
    (ends : EndsLine source inBlock p e) (endsLater : EndsLine source inBlock p later) :
    later ≤ e := by
  apply Nat.le_of_not_lt
  intro beyond
  -- The later line would hold the character that ends the earlier one.
  have goesOn {ch : Char} (here : source[e]? = some ch) :
      source.extract p e ++ [ch] <+: source.extract p later := by
    rw [← extract_succ ends.starts here, List.extract_eq_take_drop, List.extract_eq_take_drop]
    exact List.take_prefix_take_left (by omega)
  have noEnd : e ≠ source.length := by
    have := endsLater.within
    omega
  have noNewline : source[e]? ≠ some '\n' := fun here =>
    endsLater.oneLine ((goesOn here).subset (by simp))
  cases inBlock with
  | false => exact (ends.outside rfl).elim noEnd noNewline
  | true =>
    rcases ends.inside rfl with atEnd | newline | ⟨close, balanced⟩
    · exact noEnd atEnd
    · exact noNewline newline
    · have more := endsLater.closed rfl _ (goesOn close)
      simp [balanced] at more

theorem lineEnd_endsLine {source : List Char} {p : Nat} (within : p ≤ source.length)
    (inBlock : Bool) : EndsLine source inBlock p (Cursor.lineEnd ⟨p, source.drop p⟩ inBlock) := by
  let c : Cursor := ⟨p, source.drop p⟩
  change EndsLine source inBlock p (c.lineEnd inBlock)
  have whole : source.drop p = c.line inBlock ++ (c.afterLine inBlock).rest :=
    (c.line_append_afterLine inBlock).symm
  obtain ⟨text, rest⟩ := extract_of_drop whole
  change source.extract p (c.lineEnd inBlock) = _ at text
  have next : source[c.lineEnd inBlock]? = (c.afterLine inBlock).rest.head? := by
    rw [← rest, List.head?_drop]
    rfl
  have short : c.lineEnd inBlock ≤ source.length := by
    have length := congrArg List.length whole
    rw [List.length_drop, List.length_append] at length
    change p + (c.line inBlock).length ≤ source.length
    omega
  have followed := lineSegment_followed inBlock 0 c.rest
  change (c.afterLine inBlock).rest.head? = none ∨ (c.afterLine inBlock).rest.head? = _ ∨
    _ ∧ (c.afterLine inBlock).rest.head? = _ ∧ _ = (c.line inBlock).count '}' at followed
  rw [← next, List.getElem?_eq_none_iff, Nat.zero_add] at followed
  refine ⟨Nat.le_add_right _ _, short, ?_, ?_, ?_, ?_⟩
  · rw [text]
    exact newline_not_mem_lineSegment inBlock 0 c.rest
  · rintro rfl
    rcases followed with atEnd | newline | ⟨⟨⟩, _⟩
    · exact .inl (Nat.le_antisymm short atEnd)
    · exact .inr newline
  · rintro rfl
    rw [text]
    intro part initial
    simpa using lineSegment_covered 0 c.rest part initial
  · intro inside
    rcases followed with atEnd | newline | ⟨-, close, balanced⟩
    · exact .inl (Nat.le_antisymm short atEnd)
    · exact .inr (.inl newline)
    · exact .inr (.inr ⟨close, by rw [text]; exact balanced⟩)

/-- The conditions on the end of a line hold of one place only, which is where reading ends
the line. -/
theorem endsLine_iff {source : List Char} {p : Nat} (within : p ≤ source.length) (inBlock : Bool)
    (e : Nat) :
    EndsLine source inBlock p e ↔ e = Cursor.lineEnd ⟨p, source.drop p⟩ inBlock := by
  have reached := lineEnd_endsLine within inBlock
  constructor
  · intro ends
    exact Nat.le_antisymm (reached.le ends) (ends.le reached)
  · rintro rfl
    exact reached

def pairedLine : List Char := "say \x7ba\x7d b\x7d c\n".toList

theorem endsLine_iff_pairedLine :
    (∀ e, EndsLine pairedLine true 3 e ↔ e = 9) ∧ ∀ e, EndsLine pairedLine false 3 e ↔ e = 12 :=
  ⟨endsLine_iff (by decide) true, endsLine_iff (by decide) false⟩

section Assignments
variable {depth start : Nat} {c after : Cursor} {node : Node}

theorem readAssign_parts (accepted : readAssign depth start c = .ok (node, after)) :
    ∃ before text value,
      c.skipInlineBlanks.rest = before ++ '=' :: (text ++ after.rest) ∧ '=' ∉ before ∧
      before ++ ['='] <+: c.skipInlineBlanks.line (decide (0 < depth)) ∧
      after.pos = c.skipInlineBlanks.pos + before.length + 1 + text.length ∧
      lineSegment (decide (0 < depth)) 0 (text ++ after.rest) = text ∧
      literal (trim text) = .ok value ∧
      node = .assign (textOf (dropDollar (trim before))) value (atOffset start) := by
  simp only [readAssign] at accepted
  split at accepted
  · cases accepted
  · rename_i before rest found
    split at accepted
    · cases accepted
    · obtain ⟨value, number, accepted⟩ := bind_eq_ok.mp accepted
      cases accepted
      obtain ⟨left, whole, within, next⟩ := Cursor.line_split found
      rw [next] at number ⊢
      have text := Cursor.line_append_afterLine ⟨c.skipInlineBlanks.pos + before.length + 1, left⟩
        (decide (0 < depth))
      refine ⟨before, _, value, ?_, splitAtFirst_not_mem found, within, Cursor.pos_afterLine _ _, ?_,
        orFault_eq_ok.mp number, rfl⟩
      · rw [text, whole]
      · rw [text]
        rfl

/-- An assignment takes the name before the first equals sign and, from there on, its value
up to the end of the line. It ends where the whole line does unless, in a block, the name
leaves a brace open and the value ends at a closing one. -/
theorem readAssign_end (accepted : readAssign depth start c = .ok (node, after)) :
    ∃ before text value,
      c.skipInlineBlanks.rest = before ++ '=' :: (text ++ after.rest) ∧ '=' ∉ before ∧
      after.pos = c.skipInlineBlanks.pos + before.length + 1 + text.length ∧
      lineSegment (decide (0 < depth)) 0 (text ++ after.rest) = text ∧
      literal (trim text) = .ok value ∧
      node = .assign (textOf (dropDollar (trim before))) value (atOffset start) ∧
      (after.pos = c.skipInlineBlanks.lineEnd (decide (0 < depth)) ↔
        depth = 0 ∨ before.count '{' = before.count '}' ∨ after.peek ≠ some '}') := by
  obtain ⟨before, text, value, whole, first, within, pos, line, number, rfl⟩ :=
    readAssign_parts accepted
  refine ⟨before, text, value, whole, first, pos, line, number, rfl, ?_⟩
  have split : c.skipInlineBlanks.rest = before ++ ['='] ++ (text ++ after.rest) := by
    rw [whole, List.append_assoc, List.singleton_append]
  rw [Cursor.line, split] at within
  have parts := lineSegment_parts within
  have outside : decide (0 < depth) = false ↔ depth = 0 := by simp
  have sameCount : (before ++ ['=']).count '{' = (before ++ ['=']).count '}' ↔
      before.count '{' = before.count '}' := by simp
  rw [line, List.drop_left, outside, sameCount, List.length_append, List.length_singleton] at parts
  rw [Cursor.peek, ← parts, Cursor.lineEnd, Cursor.line, split, pos]
  omega

theorem readAssign_end_openName :
    ∃ node after, readAssign 1 2 ⟨5, " a\x7b = b\n\x7d".toList⟩ = .ok (node, after) ∧
      after.pos = (Cursor.skipInlineBlanks ⟨5, " a\x7b = b\n\x7d".toList⟩).lineEnd true := by
  have accepted : readAssign 1 2 ⟨5, " a\x7b = b\n\x7d".toList⟩ =
      .ok (.assign (textOf ['a', '{']) (textOf ['b']) (atOffset 2), ⟨12, ['\n', '}']⟩) := rfl
  obtain ⟨before, text, value, -, -, -, -, -, -, ends⟩ := readAssign_end accepted
  exact ⟨_, _, accepted, ends.mpr (.inr (.inr (by decide)))⟩

/-- The value ends at a brace that the name opened, and its line only later. -/
theorem readAssign_closesName :
    ∃ node after, readAssign 1 2 ⟨5, " a\x7b = b\x7d c\n\x7d".toList⟩ = .ok (node, after) ∧
      after.pos = 12 ∧
      (Cursor.skipInlineBlanks ⟨5, " a\x7b = b\x7d c\n\x7d".toList⟩).lineEnd true = 15 :=
  ⟨.assign (textOf ['a', '{']) (textOf ['b']) (atOffset 2), ⟨12, "\x7d c\n\x7d".toList⟩, rfl, rfl,
    by decide⟩

end Assignments

end Primer
