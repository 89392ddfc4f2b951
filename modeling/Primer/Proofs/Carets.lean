import Primer.Position
import Primer.Proofs.Decimal
import Primer.Proofs.Text

/-! Where a diagnostic points. A place is found by counting newlines before an offset and
the characters after the last of them, and a snippet takes its line out of the lines of the
source. Main statement: the three agree, so that places stand in the order of offsets and
the caret of a snippet is under the character at its offset. -/
namespace Primer

/-- Lines of text, each with the newline that ends it. -/
def endedLines (lines : List (List Char)) : List Char := lines.flatMap (· ++ ['\n'])

theorem length_endedLines (lines : List (List Char)) :
    (endedLines lines).length = (lines.map List.length).sum + lines.length := by
  induction lines with
  | nil => rfl
  | cons line lines ih =>
    rw [endedLines, List.flatMap_cons, List.length_append, ← endedLines, ih, List.length_append,
      List.length_singleton, List.map_cons, List.sum_cons, List.length_cons]
    omega

theorem endedLines_concat (lines : List (List Char)) (line : List Char) :
    endedLines (lines ++ [line]) = endedLines lines ++ line ++ ['\n'] := by
  simp [endedLines]

theorem takeWhile_oneLine {line : List Char} (oneLine : '\n' ∉ line) (rest : List Char) :
    (line ++ rest).takeWhile (· != '\n') = line ++ rest.takeWhile (· != '\n') := by
  apply List.takeWhile_append_of_pos
  intro c inside
  simpa using fun same : c = '\n' => oneLine (same ▸ inside)

theorem linesOf_head (s : List Char) : ∃ others, linesOf s = s.takeWhile (· != '\n') :: others := by
  induction s with
  | nil => exact ⟨[], rfl⟩
  | cons c s ih =>
    obtain ⟨others, lines⟩ := ih
    by_cases newline : c = '\n'
    · exact ⟨linesOf s, by simp [linesOf, cut, isNewline, newline]⟩
    · rw [linesOf] at lines
      exact ⟨others, by simp [linesOf, cut, isNewline, newline, lines]⟩

theorem linesOf_ended {lines : List (List Char)} (oneLine : ∀ line ∈ lines, '\n' ∉ line)
    (rest : List Char) : linesOf (endedLines lines ++ rest) = lines ++ linesOf rest := by
  induction lines with
  | nil => rfl
  | cons line lines ih =>
    obtain ⟨first, others⟩ := List.forall_mem_cons.mp oneLine
    have none : ∀ c ∈ line, isNewline c = false := by
      intro c inside
      simpa [isNewline] using fun same : c = '\n' => first (same ▸ inside)
    have text : endedLines (line :: lines) ++ rest = line ++ '\n' :: (endedLines lines ++ rest) := by
      simp [endedLines]
    rw [text, linesOf, cut_append rfl none, ← linesOf, ih others, List.cons_append]

/-- A text is the lines that end in it and the start of one more, and the place after it
counts them. -/
theorem placeAfter_lines (before : List Char) :
    ∃ lines last, before = endedLines lines ++ last ∧ (∀ line ∈ lines, '\n' ∉ line) ∧
      '\n' ∉ last ∧ placeAfter before = ⟨lines.length + 1, last.length + 1⟩ := by
  induction before using List.reverseRecOn with
  | nil => exact ⟨[], [], rfl, nofun, nofun, rfl⟩
  | append_singleton before c ih =>
    obtain ⟨lines, last, text, oneLine, lastLine, place⟩ := ih
    obtain ⟨number, column⟩ := Place.mk.inj place
    by_cases newline : c = '\n'
    · subst newline
      refine ⟨lines ++ [last], [], ?_, ?_, nofun, ?_⟩
      · rw [endedLines_concat, List.append_nil, ← text]
      · rw [List.forall_mem_append, List.forall_mem_singleton]
        exact ⟨oneLine, lastLine⟩
      · simp only [placeAfter, List.count_append, List.count_singleton_self, number]
        simp
    · refine ⟨lines, last ++ [c], ?_, oneLine, ?_, ?_⟩
      · rw [← List.append_assoc, ← text]
      · simp only [List.mem_append, List.mem_singleton, not_or]
        exact ⟨lastLine, fun same => newline same.symm⟩
      · have other : (c != '\n') = true := by simpa using newline
        have counted : (before ++ [c]).count '\n' = before.count '\n' := by
          simp [List.count_append, newline]
        simp only [placeAfter, counted, number, List.reverse_append, List.reverse_singleton,
          List.singleton_append, List.takeWhile_cons, other, if_true, List.length_cons, column,
          List.length_append, List.length_nil]

/-- The lines of a source, seen from an offset: those before its line, its line with the part
that stands before the offset, and the others. -/
theorem placeOf_lines (source : List Char) (offset : Int) :
    ∃ lines last others, source.take (clampOffset source offset) = endedLines lines ++ last ∧
      '\n' ∉ last ∧
      linesOf source = lines ++
        (last ++ (source.drop (clampOffset source offset)).takeWhile (· != '\n')) :: others ∧
      placeOf source offset = ⟨lines.length + 1, last.length + 1⟩ := by
  obtain ⟨lines, last, text, oneLine, lastLine, place⟩ :=
    placeAfter_lines (source.take (clampOffset source offset))
  obtain ⟨others, head⟩ := linesOf_head (last ++ source.drop (clampOffset source offset))
  refine ⟨lines, last, others, text, lastLine, ?_, place⟩
  calc linesOf source
      = linesOf (endedLines lines ++ (last ++ source.drop (clampOffset source offset))) := by
        rw [← List.append_assoc, ← text, List.take_append_drop]
    _ = lines ++ (last ++ source.drop (clampOffset source offset)).takeWhile (· != '\n') :: others := by
        rw [linesOf_ended oneLine, head]
    _ = _ := by rw [takeWhile_oneLine lastLine]

/-- Places in the order in which a text is read. -/
def Place.Before (a b : Place) : Prop := a.line < b.line ∨ a.line = b.line ∧ a.column < b.column

theorem Place.Before.irrefl (a : Place) : ¬ a.Before a := by
  unfold Place.Before
  omega

theorem Place.Before.asymm {a b : Place} (before : a.Before b) : ¬ b.Before a := by
  unfold Place.Before at *
  omega

/-- Reading on moves a place on. -/
theorem placeAfter_append (text : List Char) {more : List Char} (some : more ≠ []) :
    (placeAfter text).Before (placeAfter (text ++ more)) := by
  by_cases newline : '\n' ∈ more
  · left
    have counted := List.count_pos_iff.mpr newline
    simp only [placeAfter, List.count_append]
    omega
  · right
    have none : more.count '\n' = 0 := List.count_eq_zero.mpr newline
    have reversed : '\n' ∉ more.reverse := fun inside => newline (List.mem_reverse.mp inside)
    have length := List.length_pos_iff.mpr some
    constructor
    · simp only [placeAfter, List.count_append, none, Nat.add_zero]
    · simp only [placeAfter, List.reverse_append, takeWhile_oneLine reversed, List.length_append,
        List.length_reverse]
      omega

theorem clampOffset_eq (source : List Char) (offset : Int) :
    (clampOffset source offset : Int) = max 0 (min offset source.length) := by
  unfold clampOffset
  omega

theorem clampOffset_le (source : List Char) (offset : Int) :
    clampOffset source offset ≤ source.length := Nat.min_le_right _ _

section Order
variable {source : List Char} {a b : Int}

theorem placeOf_before (less : clampOffset source a < clampOffset source b) :
    (placeOf source a).Before (placeOf source b) := by
  have split := List.take_append_drop (clampOffset source a) (source.take (clampOffset source b))
  rw [List.take_take, Nat.min_eq_left less.le] at split
  have more : (source.take (clampOffset source b)).drop (clampOffset source a) ≠ [] := by
    rw [ne_eq, List.drop_eq_nil_iff, List.length_take,
      Nat.min_eq_left (clampOffset_le source b)]
    omega
  rw [placeOf, placeOf, ← split]
  exact placeAfter_append _ more

theorem placeOf_before_iff :
    (placeOf source a).Before (placeOf source b) ↔ clampOffset source a < clampOffset source b := by
  refine ⟨fun before => ?_, placeOf_before⟩
  rcases Nat.lt_trichotomy (clampOffset source a) (clampOffset source b) with less | same | greater
  · exact less
  · rw [placeOf, placeOf, same] at before
    exact absurd before (Place.Before.irrefl _)
  · exact absurd before (placeOf_before greater).asymm

end Order

section Snippets
variable (last : List Char) {rest : List Char}

theorem newline_not_mem_lineLabel (line : Nat) : '\n' ∉ lineLabel line := by
  have digits : '\n' ∉ Nat.toDigits 10 line := by
    intro inside
    have digit := List.all_eq_true.mp (toDigits_all_isDigit line) _ inside
    cases digit
  simp [lineLabel, digits]

theorem dropReturns_starts (line : List Char) : dropReturns line <+: line :=
  List.rdropWhile_prefix _ _

/-- The returns that end a line are those of its last part, if that has anything else. -/
theorem dropReturns_append (visible : ∃ c ∈ rest, c ≠ '\r') :
    dropReturns (last ++ rest) = last ++ dropReturns rest ∧ dropReturns rest ≠ [] := by
  have kept : rest.reverse.dropWhile (· == '\r') ≠ [] := by
    obtain ⟨c, inside, other⟩ := visible
    intro none
    have all := List.dropWhile_eq_nil_iff.mp none c (List.mem_reverse.mpr inside)
    exact other (beq_iff_eq.mp all)
  refine ⟨?_, fun none => kept (List.reverse_eq_nil_iff.mp none)⟩
  rw [dropReturns, List.reverse_append, List.dropWhile_append,
    if_neg (by simpa [List.isEmpty_iff] using kept), List.reverse_append, List.reverse_reverse,
    dropReturns]

theorem getElem?_dropReturns (visible : ∃ c ∈ rest, c ≠ '\r') :
    (dropReturns (last ++ rest))[last.length]? = rest.head? := by
  obtain ⟨parts, nonempty⟩ := dropReturns_append last visible
  obtain ⟨c, kept, shown⟩ := List.exists_cons_of_ne_nil nonempty
  obtain ⟨dropped, whole⟩ := dropReturns_starts rest
  rw [shown] at whole
  rw [parts, List.getElem?_append_right (Nat.le_refl _), Nat.sub_self, shown, ← whole]
  rfl

end Snippets

/-- A place that is right for an offset: it lies in a line of the source or just after the
line, and the lines before it with their newlines and the characters before it in its own
line are as many as the offset says. -/
structure Place.Locates (place : Place) (source : List Char) (offset : Int) : Prop where
  line_pos : 1 ≤ place.line
  line_le : place.line ≤ (linesOf source).length
  column_pos : 1 ≤ place.column
  column_le : ∀ line, (linesOf source)[place.line - 1]? = some line → place.column ≤ line.length + 1
  offset_eq : ((((linesOf source).take (place.line - 1)).map List.length).sum + (place.line - 1) +
    (place.column - 1) : Nat) = max 0 (min offset source.length)

theorem placeOf_locates (source : List Char) (offset : Int) :
    (placeOf source offset).Locates source offset := by
  obtain ⟨lines, last, others, text, -, split, place⟩ := placeOf_lines source offset
  have before : clampOffset source offset = (lines.map List.length).sum + lines.length + last.length := by
    rw [← length_endedLines, ← List.length_append, ← text, List.length_take,
      Nat.min_eq_left (clampOffset_le source offset)]
  rw [place]
  refine ⟨Nat.le_add_left _ _, ?_, Nat.le_add_left _ _, fun line found => ?_, ?_⟩
  · rw [split, List.length_append, List.length_cons]
    change lines.length + 1 ≤ _
    omega
  · have here : line = last ++ (source.drop (clampOffset source offset)).takeWhile (· != '\n') := by
      simpa [split] using found.symm
    rw [here, List.length_append]
    change last.length + 1 ≤ _
    omega
  · rw [← clampOffset_eq, before, split]
    simp

/-- The character at an offset, if it is no newline and not one of the returns that end
its line. -/
def ShownAt (source : List Char) (offset : Nat) (ch : Char) : Prop :=
  source[offset]? = some ch ∧ ch ≠ '\n' ∧
    ∃ c ∈ (source.drop offset).takeWhile (· != '\n'), c ≠ '\r'

/-- A snippet has two lines: the line of its offset after a label, and a caret. -/
theorem linesOf_snippet {source line : List Char} {offset : Int}
    (found : (linesOf source)[(placeOf source offset).line - 1]? = some line) (oneLine : '\n' ∉ line) :
    linesOf (snippet source offset).toList =
      [lineLabel (placeOf source offset).line ++ dropReturns line,
        List.replicate ((lineLabel (placeOf source offset).line).length +
          (placeOf source offset).column - 1) ' ' ++ ['^']] := by
  have first : ∀ c ∈ lineLabel (placeOf source offset).line ++ dropReturns line,
      isNewline c = false := by
    intro c inside
    rw [isNewline, beq_eq_false_iff_ne]
    rintro rfl
    rcases List.mem_append.mp inside with label | shown
    · exact newline_not_mem_lineLabel _ label
    · exact oneLine ((dropReturns_starts line).mem shown)
  have second : ∀ c ∈ List.replicate ((lineLabel (placeOf source offset).line).length +
      (placeOf source offset).column - 1) ' ' ++ ['^'], isNewline c = false := by
    intro c inside
    rcases List.mem_append.mp inside with space | caret
    · rw [List.eq_of_mem_replicate space]
      rfl
    · rw [List.mem_singleton.mp caret]
      rfl
  simp only [snippet, String.toList_ofList, snippetChars, found, Option.getD_some]
  rw [List.append_assoc, List.cons_append, linesOf, cut_append rfl first, cut_of_none second]

theorem head?_takeWhile {s : List Char} {ch : Char} (first : s.head? = some ch) (other : ch ≠ '\n') :
    (s.takeWhile (· != '\n')).head? = some ch := by
  obtain ⟨others, rfl⟩ := List.head?_eq_some_iff.mp first
  simp [other]

/-- For every offset the place lies in the source and is that of the offset, places are in
the order of offsets, and a snippet shows the line of the place with a caret under the
character there. -/
theorem diagnostics_point (source : List Char) (offset : Int) :
    (placeOf source offset).Locates source offset ∧
    (∀ other, (placeOf source offset).Before (placeOf source other) ↔
      clampOffset source offset < clampOffset source other) ∧
    ∃ line k, (linesOf source)[(placeOf source offset).line - 1]? = some line ∧
      linesOf (snippet source offset).toList =
        [lineLabel (placeOf source offset).line ++ dropReturns line, List.replicate k ' ' ++ ['^']] ∧
      ∀ ch, ShownAt source (clampOffset source offset) ch →
        (lineLabel (placeOf source offset).line ++ dropReturns line)[k]? = some ch := by
  refine ⟨placeOf_locates source offset, fun other => placeOf_before_iff, ?_⟩
  obtain ⟨lines, last, others, -, lastLine, split, place⟩ := placeOf_lines source offset
  have found : (linesOf source)[(placeOf source offset).line - 1]? =
      some (last ++ (source.drop (clampOffset source offset)).takeWhile (· != '\n')) := by
    rw [place, split]
    simp
  have oneLine : '\n' ∉ last ++ (source.drop (clampOffset source offset)).takeWhile (· != '\n') := by
    rw [List.mem_append, not_or]
    exact ⟨lastLine, fun inside => by simpa using List.mem_takeWhile_imp inside⟩
  refine ⟨_, _, found, linesOf_snippet found oneLine, ?_⟩
  rintro ch ⟨here, other, visible⟩
  have column : (placeOf source offset).column = last.length + 1 := by rw [place]
  rw [column, Nat.add_sub_assoc (Nat.le_add_left 1 _), Nat.add_sub_cancel,
    List.getElem?_append_right (Nat.le_add_right _ _), Nat.add_sub_cancel_left,
    getElem?_dropReturns last visible]
  exact head?_takeWhile (List.head?_drop.trans here) other

end Primer
