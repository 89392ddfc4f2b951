import Primer.Proofs.Offsets
import Primer.Proofs.Shift

/-! A text read as a part of a larger one. What stands before the text moves every offset.
What stands after it is not looked at by a statement that ends in the text, if the rest of
the line is blank and the next word is no `else`. If nothing but blanks stands after it,
the text is also rejected for the same reason. -/
namespace Primer

theorem trim_append_blanks (s : List Char) {gap : List Char} (blank : ∀ ch ∈ gap, isBlank ch = true) :
    trim (s ++ gap) = trim s := by
  induction gap generalizing s with
  | nil => rw [List.append_nil]
  | cons ch gap ih =>
    obtain ⟨first, others⟩ := List.forall_mem_cons.mp blank
    have step := ih (s ++ [ch]) others
    rw [List.append_assoc, List.singleton_append] at step
    rw [step, trim_append_blank first]

theorem lineSegment_blank (inBlock : Bool) (depth : Nat) {s : List Char}
    (blank : ∀ ch ∈ s.takeWhile (· != '\n'), isBlank ch = true) :
    lineSegment inBlock depth s = s.takeWhile (· != '\n') := by
  induction s with
  | nil => rfl
  | cons ch s ih =>
    unfold lineSegment
    by_cases newline : ch = '\n'
    · simp [newline]
    · rw [List.takeWhile_cons_of_pos (by simpa using newline)] at blank ⊢
      obtain ⟨first, others⟩ := List.forall_mem_cons.mp blank
      have noOpen : ch ≠ '{' := by rintro rfl; cases first
      have noClose : ch ≠ '}' := by rintro rfl; cases first
      simp [newline, noOpen, noClose, ih others]

/-- A line ends in a text, or goes on over the blanks that stand after it. -/
theorem lineSegment_append_blank (inBlock : Bool) (depth : Nat) (s : List Char) {tail : List Char}
    (blank : ∀ ch ∈ tail.takeWhile (· != '\n'), isBlank ch = true) :
    lineSegment inBlock depth (s ++ tail) = lineSegment inBlock depth s ∨
      lineSegment inBlock depth s = s ∧
        lineSegment inBlock depth (s ++ tail) = s ++ tail.takeWhile (· != '\n') := by
  induction s generalizing depth with
  | nil => exact .inr ⟨rfl, lineSegment_blank inBlock depth blank⟩
  | cons ch s ih =>
    have step (n : Nat) : ch :: lineSegment inBlock n (s ++ tail) = ch :: lineSegment inBlock n s ∨
        ch :: lineSegment inBlock n s = ch :: s ∧
          ch :: lineSegment inBlock n (s ++ tail) = (ch :: s) ++ tail.takeWhile (· != '\n') := by
      rcases ih n with same | ⟨whole, on⟩
      · exact .inl (by rw [same])
      · exact .inr ⟨by rw [whole], by rw [on, List.cons_append]⟩
    rw [List.cons_append]
    unfold lineSegment
    split
    · exact .inl rfl
    · split
      · exact step (depth + 1)
      · split
        · cases depth with
          | zero => exact .inl rfl
          | succ depth => exact step depth
        · exact step depth

theorem length_lineSegment (inBlock : Bool) (depth : Nat) (s : List Char) :
    (lineSegment inBlock depth s).length ≤ s.length := by
  induction s generalizing depth with
  | nil => exact Nat.le_refl 0
  | cons ch s ih =>
    unfold lineSegment
    split
    · exact Nat.zero_le _
    · split
      · exact Nat.succ_le_succ (ih _)
      · split
        · cases depth with
          | zero => exact Nat.zero_le _
          | succ depth => exact Nat.succ_le_succ (ih depth)
        · exact Nat.succ_le_succ (ih depth)

theorem splitAtFirst_append_right {ch : Char} {s before after : List Char}
    (found : splitAtFirst ch s = some (before, after)) (tail : List Char) :
    splitAtFirst ch (s ++ tail) = some (before, after ++ tail) := by
  induction s generalizing before with
  | nil => cases found
  | cons c s ih =>
    rw [List.cons_append]
    unfold splitAtFirst at found ⊢
    split at found
    · rename_i here
      cases found
      rw [if_pos here]
    · rename_i other
      obtain ⟨⟨first, last⟩, later, result⟩ := Option.map_eq_some_iff.mp found
      cases result
      rw [if_neg other, ih later]
      rfl

theorem Cursor.skipWhile_run {p : Char → Bool} {run : List Char} (all : ∀ ch ∈ run, p ch = true)
    (pos : Nat) (rest : List Char) :
    skipWhile p ⟨pos, run ++ rest⟩ = skipWhile p ⟨pos + run.length, rest⟩ := by
  simp only [skipWhile, List.takeWhile_append_of_pos all, List.dropWhile_append_of_pos all,
    List.length_append, Nat.add_assoc]

theorem Cursor.afterLine_blank (inBlock : Bool) {pos : Nat} {rest : List Char}
    (blank : ∀ ch ∈ rest.takeWhile (· != '\n'), isBlank ch = true) :
    afterLine ⟨pos, rest⟩ inBlock = skipWhile (· != '\n') ⟨pos, rest⟩ := by
  have moved := advance_append pos (rest.takeWhile (· != '\n')) (rest.dropWhile (· != '\n'))
  rw [List.takeWhile_append_dropWhile] at moved
  rw [afterLine, line, lineSegment_blank inBlock 0 blank]
  exact moved

theorem Cursor.skipBlanks_peek {c : Cursor} {ch : Char} (here : c.peek = some ch)
    (solid : isBlank ch = false) : c.skipBlanks = c := by
  refine skipBlanks_stops c.pos fun x first => ?_
  cases here.symm.trans first
  exact solid

theorem Command.ofWord?_congr (word : List Char) {next next' : Option Char}
    (same : next = some '(' ↔ next' = some '(') :
    Command.ofWord? word next = Command.ofWord? word next' := by
  simp only [ofWord?, same]

/-- Where a text stands in a larger one: after `lead` characters and before `tail`. -/
structure Site where
  lead : Nat
  size : Nat
  tail : List Char

@[simp] theorem Cursor.stop_skipWhile (p : Char → Bool) (c : Cursor) :
    (c.skipWhile p).stop = c.stop :=
  (LeadsTo.skipWhile p c).stop_eq

@[simp] theorem Cursor.stop_advance (c : Cursor) (n : Nat) : (c.advance n).stop = c.stop :=
  (LeadsTo.advance c n).stop_eq

theorem Cursor.stop_upTo {c d : Cursor} {ch : Char} {before : List Char}
    (found : c.upTo ch = some (before, d)) : d.stop = c.stop :=
  (LeadsTo.upTo found).stop_eq

namespace Site

/-- The cursor of the larger text at the same character. -/
def put (site : Site) (c : Cursor) : Cursor := ⟨c.pos + site.lead, c.rest ++ site.tail⟩

def Blank (site : Site) : Prop := ∀ ch ∈ site.tail, isBlank ch = true

/-- What follows does not go on with the last statement of the text. -/
structure Apart (site : Site) : Prop where
  line : ∀ ch ∈ site.tail.takeWhile (· != '\n'), isBlank ch = true
  noElse : lower (Cursor.nextWord ⟨0, site.tail⟩) ≠ ['e', 'l', 's', 'e']

/-- Two cursors at the same character of the text, or one at its end and the other after
blanks that stand on the same line. -/
inductive Beside (site : Site) : Cursor → Cursor → Prop
  | inside {c : Cursor} (within : c.stop = site.size) : site.Beside c (site.put c)
  | past {gap rest : List Char} (split : site.tail = gap ++ rest) (oneLine : '\n' ∉ gap) :
    site.Beside ⟨site.size, []⟩ ⟨site.size + site.lead + gap.length, rest⟩

/-- An offset in the text and the one for it in the larger text. Only the end of the text
can stand for a place after it. -/
structure Moves (site : Site) (offset moved : Nat) : Prop where
  within : offset ≤ site.size
  least : offset + site.lead ≤ moved
  most : moved ≤ offset + site.lead + site.tail.length
  same : offset < site.size → moved = offset + site.lead

theorem Blank.apart {site : Site} (blank : site.Blank) : site.Apart where
  line ch inside := blank ch ((List.takeWhile_prefix _).mem inside)
  noElse := by
    have none : site.tail.dropWhile isBlank = [] := List.dropWhile_eq_nil_iff.mpr blank
    simp [Cursor.nextWord, Cursor.skipBlanks, Cursor.skipWhile, Cursor.word, none, lower]

theorem moves_shift {site : Site} {offset : Nat} (within : offset ≤ site.size) :
    site.Moves offset (offset + site.lead) where
  within := within
  least := Nat.le_refl _
  most := Nat.le_add_right ..
  same _ := rfl

/-- A cursor at a character of the text that is not blank. -/
structure At (site : Site) (c : Cursor) (ch : Char) : Prop where
  next : c.peek = some ch
  solid : isBlank ch = false
  within : c.stop = site.size

section Scanning
variable {site : Site} {c d : Cursor}

theorem put_advance {n : Nat} (short : n ≤ c.rest.length) :
    (site.put c).advance n = site.put (c.advance n) := by
  simp only [put, Cursor.advance, List.length_append, List.drop_append_of_le_length short,
    Cursor.mk.injEq, and_true]
  omega

/-- A run of characters ends in the text, or goes on after it. -/
theorem put_skipWhile (p : Char → Bool) (within : c.stop = site.size) :
    (c.skipWhile p).rest ≠ [] ∧ (site.put c).skipWhile p = site.put (c.skipWhile p) ∨
      c.skipWhile p = ⟨site.size, []⟩ ∧
        (site.put c).skipWhile p = Cursor.skipWhile p ⟨site.size + site.lead, site.tail⟩ := by
  have stop := c.stop_skipWhile p
  -- whether the whole rest of the text belongs to the run decides who sees what follows
  by_cases ends : c.rest.dropWhile p = []
  · have all : ∀ ch ∈ c.rest, p ch = true := List.dropWhile_eq_nil_iff.mp ends
    refine .inr ⟨?_, ?_⟩
    · have here : (c.skipWhile p).rest = [] := ends
      simp only [Cursor.stop, here, List.length_nil] at stop
      rw [← within, Cursor.stop, ← stop, ← here]
      rfl
    · simp only [put, Cursor.skipWhile, List.takeWhile_append_of_pos all,
        List.dropWhile_append_of_pos all, List.length_append, Cursor.mk.injEq, and_true]
      rw [← within, Cursor.stop]
      omega
  · refine .inl ⟨ends, ?_⟩
    have short : (c.rest.takeWhile p).length ≠ c.rest.length := by
      have split := congrArg List.length (c.rest.takeWhile_append_dropWhile (p := p))
      have some := List.length_pos_iff.mpr ends
      rw [List.length_append] at split
      omega
    simp only [put, Cursor.skipWhile, List.takeWhile_append, List.dropWhile_append,
      List.isEmpty_iff, if_neg ends, if_neg short, Cursor.mk.injEq, and_true]
    omega

theorem Beside.within (beside : site.Beside c d) : c.stop = site.size := by
  cases beside with
  | inside within => exact within
  | past => rfl

theorem Beside.moves (beside : site.Beside c d) : site.Moves c.pos d.pos := by
  cases beside with
  | inside within =>
    rw [Cursor.stop] at within
    exact moves_shift (by omega)
  | past split =>
    have length := congrArg List.length split
    rw [List.length_append] at length
    exact ⟨Nat.le_refl _, Nat.le_add_right .., by simp only; omega, fun less => absurd less (Nat.lt_irrefl _)⟩

theorem Beside.eq_put (beside : site.Beside c d) (more : c.rest ≠ []) : d = site.put c := by
  cases beside with
  | inside => rfl
  | past => exact absurd rfl more

theorem At.rest_ne_nil {ch : Char} (here : site.At c ch) : c.rest ≠ [] :=
  List.length_pos_iff.mp (Cursor.rest_ne_nil_of_peek here.next)

section Gaps
variable (apart : site.Apart) {gap rest : List Char} (split : site.tail = gap ++ rest)
  (oneLine : '\n' ∉ gap)
include apart split oneLine

theorem gap_line : ∀ ch ∈ gap ++ rest.takeWhile (· != '\n'), isBlank ch = true := by
  have all : ∀ ch ∈ gap, (ch != '\n') = true := by
    intro ch inside
    exact bne_iff_ne.mpr fun same => oneLine (same ▸ inside)
  have line := apart.line
  rw [split, List.takeWhile_append_of_pos all] at line
  exact line

theorem gap_head : ∀ ch ∈ rest.head?, isBlank ch = true := by
  intro ch first
  cases rest with
  | nil => cases first
  | cons x rest =>
    cases Option.some.inj first
    by_cases newline : ch = '\n'
    · rw [newline]
      rfl
    · have line := gap_line apart split oneLine ch
      rw [List.takeWhile_cons_of_pos (by simpa using newline)] at line
      exact line (List.mem_append_right _ List.mem_cons_self)

end Gaps

theorem Apart.head (apart : site.Apart) : ∀ ch ∈ site.tail.head?, isBlank ch = true :=
  gap_head apart (List.nil_append _).symm List.not_mem_nil

theorem stops_word {rest : List Char} (blank : ∀ ch ∈ rest.head?, isBlank ch = true) :
    Stops (fun ch => !isWordStop ch) rest := by
  intro ch first
  simp [isWordStop, blank ch first]

theorem beside_end : site.Beside ⟨site.size, []⟩ ⟨site.size + site.lead, site.tail⟩ :=
  .past (List.nil_append _).symm List.not_mem_nil

namespace Beside

/-- Cursors beside each other stay so over a run of characters of a class without newline. -/
theorem skipWhile {p : Char → Bool} (newline : p '\n' = false) (beside : site.Beside c d) :
    site.Beside (c.skipWhile p) (d.skipWhile p) := by
  have onLine (s : List Char) : '\n' ∉ s.takeWhile p := by
    intro inside
    rw [List.mem_takeWhile_imp inside] at newline
    cases newline
  cases beside with
  | inside within =>
    rcases put_skipWhile p within with ⟨-, same⟩ | ⟨ended, on⟩
    · rw [same]
      exact .inside ((c.stop_skipWhile p).trans within)
    · rw [ended, on]
      exact .past List.takeWhile_append_dropWhile.symm (onLine _)
  | @past gap rest split oneLine =>
    -- the run only widens the gap between the end of the text and the second cursor
    have longer : site.tail = (gap ++ rest.takeWhile p) ++ rest.dropWhile p := by
      rw [split, List.append_assoc, List.takeWhile_append_dropWhile]
    have moved := Beside.past longer (by simp [oneLine, onLine])
    rw [List.length_append, ← Nat.add_assoc] at moved
    exact moved

theorem skipInlineBlanks (beside : site.Beside c d) :
    site.Beside c.skipInlineBlanks d.skipInlineBlanks := beside.skipWhile rfl

theorem afterWord (beside : site.Beside c d) : site.Beside c.afterWord d.afterWord :=
  beside.skipWhile rfl

theorem advance {n : Nat} (beside : site.Beside c d) (short : n ≤ c.rest.length) (some : 0 < n) :
    site.Beside (c.advance n) (d.advance n) := by
  have more : c.rest ≠ [] := List.length_pos_iff.mp (by omega)
  rw [beside.eq_put more, put_advance short]
  exact .inside ((c.stop_advance n).trans beside.within)

variable (apart : site.Apart) (beside : site.Beside c d)
include apart beside

theorem word : d.word = c.word := by
  cases beside with
  | inside =>
    have none := takeWhile_stops (stops_word apart.head)
    simp only [Cursor.word, put, List.takeWhile_append, none, List.append_nil]
    split
    · rename_i whole
      exact (List.takeWhile_prefix _).eq_of_length whole |>.symm
    · rfl
  | past split oneLine => exact takeWhile_stops (stops_word (gap_head apart split oneLine))

theorem peek {ch : Char} (solid : isBlank ch = false) : d.peek = some ch ↔ c.peek = some ch := by
  have other {rest : List Char} (head : ∀ x ∈ rest.head?, isBlank x = true) : rest.head? ≠ some ch := by
    intro first
    rw [head ch first] at solid
    cases solid
  cases beside with
  | inside =>
    cases rest : c.rest with
    | cons x xs => simp [Cursor.peek, put, rest]
    | nil => simpa [Cursor.peek, put, rest] using other apart.head
  | past split oneLine => simpa [Cursor.peek] using other (gap_head apart split oneLine)

/-- The line at the two cursors differs by blanks at its end. -/
theorem line (inBlock : Bool) : ∃ gap, d.line inBlock = c.line inBlock ++ gap ∧
    (∀ ch ∈ gap, isBlank ch = true) ∧ site.Beside (c.afterLine inBlock) (d.afterLine inBlock) := by
  cases beside with
  | inside within =>
    rcases lineSegment_append_blank inBlock 0 c.rest apart.line with same | ⟨whole, on⟩
    · have line : (site.put c).line inBlock = c.line inBlock := same
      have short : (c.line inBlock).length ≤ c.rest.length := length_lineSegment inBlock 0 c.rest
      refine ⟨[], by rw [line, List.append_nil], by simp, ?_⟩
      rw [Cursor.afterLine, Cursor.afterLine, line, put_advance short]
      exact .inside ((c.stop_advance _).trans within)
    · have line : (site.put c).line inBlock = c.rest ++ site.tail.takeWhile (· != '\n') := on
      have first : c.afterLine inBlock = ⟨site.size, []⟩ := by
        simp [Cursor.afterLine, Cursor.line, whole, Cursor.advance, ← within, Cursor.stop]
      have second : (site.put c).afterLine inBlock =
          Cursor.skipWhile (· != '\n') ⟨site.size + site.lead, site.tail⟩ := by
        have text : site.put c = ⟨c.pos + site.lead, (c.rest ++ site.tail.takeWhile (· != '\n')) ++
            site.tail.dropWhile (· != '\n')⟩ := by
          rw [List.append_assoc, List.takeWhile_append_dropWhile]
          rfl
        rw [Cursor.afterLine, line, text, Cursor.advance_append, List.length_append, ← within]
        simp only [Cursor.skipWhile, Cursor.stop, Cursor.mk.injEq, and_true]
        omega
      refine ⟨_, line.trans ?_, apart.line, ?_⟩
      · rw [Cursor.line, whole]
      · rw [first, second]
        exact beside_end.skipWhile rfl
  | @past gap rest split oneLine =>
    have blank : ∀ ch ∈ rest.takeWhile (· != '\n'), isBlank ch = true := fun ch inside =>
      gap_line apart split oneLine ch (List.mem_append_right _ inside)
    have line (pos : Nat) : Cursor.line ⟨pos, rest⟩ inBlock = rest.takeWhile (· != '\n') :=
      lineSegment_blank inBlock 0 blank
    refine ⟨_, line _, blank, ?_⟩
    rw [Cursor.afterLine_blank inBlock blank]
    exact (Beside.past split oneLine).skipWhile rfl

/-- After blanks the two cursors are at the same character, or the text has ended. -/
theorem skipBlanks :
    (∃ ch, site.At c.skipBlanks ch ∧ d.skipBlanks = site.put c.skipBlanks) ∨
      c.skipBlanks = ⟨site.size, []⟩ ∧
        d.skipBlanks = Cursor.skipBlanks ⟨site.size + site.lead, site.tail⟩ := by
  cases beside with
  | inside within =>
    rcases put_skipWhile isBlank within with ⟨more, same⟩ | ended
    · left
      obtain ⟨ch, rest, text⟩ := List.exists_cons_of_ne_nil more
      have solid : isBlank ch = false := by
        have first := List.head?_dropWhile_not isBlank c.rest
        change c.rest.dropWhile isBlank = ch :: rest at text
        rw [text] at first
        exact first
      have next : c.skipBlanks.peek = some ch := by rw [Cursor.peek, Cursor.skipBlanks, text]; rfl
      exact ⟨ch, ⟨next, solid, (c.stop_skipWhile isBlank).trans within⟩, same⟩
    · exact .inr ended
  | @past gap rest split oneLine =>
    have blank : ∀ ch ∈ gap, isBlank ch = true := fun ch inside =>
      gap_line apart split oneLine ch (List.mem_append_left _ inside)
    refine .inr ⟨rfl, ?_⟩
    rw [split]
    exact (Cursor.skipWhile_run blank _ rest).symm

omit apart

theorem upTo {ch : Char} {before : List Char} {close : Cursor}
    (found : c.upTo ch = some (before, close)) : d.upTo ch = some (before, site.put close) := by
  obtain ⟨⟨first, after⟩, split, result⟩ := Option.map_eq_some_iff.mp found
  cases result
  have text := splitAtFirst_some split
  have more : c.rest ≠ [] := by simp [text]
  have short : before.length ≤ c.rest.length := by simp [text]
  rw [beside.eq_put more, ← put_advance short, Cursor.upTo]
  have later : splitAtFirst ch (site.put c).rest = some (before, after ++ site.tail) :=
    splitAtFirst_append_right split site.tail
  rw [later]
  rfl

theorem upTo_none {ch : Char} (blank : site.Blank) (solid : isBlank ch = false)
    (missing : c.upTo ch = none) : d.upTo ch = none := by
  have absent : ch ∉ site.tail := by
    intro inside
    rw [blank ch inside] at solid
    cases solid
  rw [Cursor.upTo_none] at missing ⊢
  cases beside with
  | inside => simp [put, missing, absent]
  | past split =>
    rw [split] at absent
    exact fun inside => absent (List.mem_append_right _ inside)

end Beside
end Scanning

end Site
end Primer
