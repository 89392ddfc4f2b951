import Primer.Proofs.Reading
import Primer.Proofs.WellFormed

/-! Trees written as source text, one statement a line, and the trees whose texts can
be told from what is written around them. The statements without a body are read
back here. -/
namespace Primer

/-- The characters of a text. Other data has none. -/
def Datum.chars : Datum → List Char
  | .text s => s.toList
  | _ => []

def numeral (n : Int) : List Char := (toString n).toList

/-- A value as a literal: a numeral, or text between double quotes. -/
def Datum.written : Datum → List Char
  | .int n => numeral n
  | .text s => '"' :: s.toList ++ ['"']
  | _ => []

/-- Entries with a comma and a space between them. -/
def commaList : List (List Char) → List Char
  | [] => []
  | [entry] => entry
  | entry :: next :: entries => entry ++ ',' :: ' ' :: commaList (next :: entries)

def parenList (entries : List (List Char)) : List Char := '(' :: commaList entries ++ [')']

namespace Node

/-- The text of an else-branch, if there is one. -/
def elseText : Node → List Char → List Char
  | missing, _ => []
  | _, text => " else ".toList ++ text

mutual

/-- The source text of a statement. Trees that no source gives have no text. -/
def render : Node → List Char
  | say message _ => "say ".toList ++ message.chars
  | math op operands _ _ => op.name.toList ++ parenList (operands.map numeral)
  | block statements _ => '{' :: '\n' :: renderAll statements ++ ['}']
  | loop count body _ => "repeat ".toList ++ numeral count ++ ' ' :: render body
  | define name params body _ =>
    "function ".toList ++ name.chars ++ parenList (params.map fun p => '$' :: p.chars) ++
      ' ' :: render body
  | call name args _ => "call ".toList ++ name.chars ++ parenList (args.map Datum.chars)
  | branch condition yes no _ =>
    "if ".toList ++ condition.chars ++ ' ' :: render yes ++ elseText no (render no)
  | assign name value _ => "set $".toList ++ name.chars ++ " = ".toList ++ value.written
  | missing | program _ | declare .. => []

/-- The source text of statements, each ended by a newline. -/
def renderAll : List Node → List Char
  | [] => []
  | node :: nodes => render node ++ '\n' :: renderAll nodes

end

@[simp] theorem renderAll_nil : renderAll [] = [] := rfl

@[simp] theorem renderAll_cons (node : Node) (nodes : List Node) :
    renderAll (node :: nodes) = node.render ++ '\n' :: renderAll nodes := rfl

theorem render_say (m : String) (o : Datum) :
    (say (.text m) o).render = "say".toList ++ ' ' :: m.toList := rfl

theorem render_math (op : Operator) (ns : List Int) (keyword o : Datum) :
    (math op ns keyword o).render = op.name.toList ++ parenList (ns.map numeral) := rfl

theorem render_loop (count : Int) (body : Node) (o : Datum) :
    (loop count body o).render =
      "repeat".toList ++ ' ' :: (numeral count ++ ' ' :: body.render) := by
  have text : (loop count body o).render = "repeat ".toList ++ numeral count ++ ' ' :: body.render :=
    rfl
  simp [text]

theorem render_define (name : String) (params : List String) (body : Node) (o : Datum) :
    (define (.text name) (params.map .text) body o).render =
      "function".toList ++ ' ' :: (name.toList ++
        (parenList (params.map fun p => '$' :: p.toList) ++ ' ' :: body.render)) := by
  have text : (define (.text name) (params.map .text) body o).render = "function ".toList ++
      name.toList ++ parenList ((params.map Datum.text).map fun p => '$' :: p.chars) ++
      ' ' :: body.render := rfl
  simp [text, Datum.chars, Function.comp_def]

theorem render_call (name : String) (args : List String) (o : Datum) :
    (call (.text name) (args.map .text) o).render =
      "call".toList ++ ' ' :: (name.toList ++ parenList (args.map String.toList)) := by
  have text : (call (.text name) (args.map .text) o).render = "call ".toList ++
      name.toList ++ parenList ((args.map Datum.text).map Datum.chars) := rfl
  simp [text, Datum.chars, Function.comp_def]

theorem render_assign (name : String) (value o : Datum) :
    (assign (.text name) value o).render =
      "set".toList ++ ' ' :: '$' :: (name.toList ++ ' ' :: '=' :: ' ' :: value.written) := by
  have text : (assign (.text name) value o).render = "set $".toList ++ name.toList ++
      " = ".toList ++ value.written := rfl
  simp [text]

theorem render_branch (condition : String) (yes no : Node) (o : Datum) :
    (branch (.text condition) yes no o).render =
      'i' :: 'f' :: ' ' :: (condition.toList ++ ' ' :: (yes.render ++ elseText no no.render)) := by
  have text : (branch (.text condition) yes no o).render =
    "if ".toList ++ condition.toList ++ ' ' :: yes.render ++ elseText no no.render := rfl
  rw [text]
  simp

theorem render_block (nodes : List Node) (o : Datum) :
    (block nodes o).render = '{' :: '\n' :: (renderAll nodes ++ ['}']) := rfl

end Node

structure IsEntry (s : List Char) : Prop where
  nonempty : s ≠ []
  trimmed : trim s = s
  noComma : ',' ∉ s
  noParen : ')' ∉ s

structure IsVariable (s : List Char) : Prop where
  nonempty : s ≠ []
  trimmed : trim s = s
  noEquals : '=' ∉ s
  oneLine : '\n' ∉ s
  noOpen : '{' ∉ s
  noClose : '}' ∉ s

namespace Node

/-- A tree whose texts can be told from what is written around them. In a block, a
text that runs to the end of its line must not close the block. -/
inductive Writable : Bool → Node → Prop
  | say {inBlock : Bool} {m : String} {o : Datum} : IsMessage m.toList →
      (inBlock = true → ClosesNothing m.toList) → Writable inBlock (.say (.text m) o)
  | math {inBlock : Bool} {op : Operator} {ns : List Int} {keyword o : Datum} : ns ≠ [] →
      (∀ n ∈ ns, n.natAbs < tenTo digitLimit) → Writable inBlock (.math op ns keyword o)
  | block {inBlock : Bool} {nodes : List Node} {o : Datum} : (∀ n ∈ nodes, Writable true n) →
      Writable inBlock (.block nodes o)
  | loop {inBlock : Bool} {count : Int} {body : Node} {o : Datum} :
      count.natAbs < tenTo digitLimit → body.isBlock = true → Writable inBlock body →
      Writable inBlock (.loop count body o)
  | define {inBlock : Bool} {name : String} {params : List String} {body : Node} {o : Datum} :
      IsName name.toList → (∀ p ∈ params, IsEntry p.toList) → body.isBlock = true →
      Writable inBlock body → Writable inBlock (.define (.text name) (params.map .text) body o)
  | call {inBlock : Bool} {name : String} {args : List String} {o : Datum} :
      IsName name.toList → (∀ a ∈ args, IsEntry a.toList) →
      Writable inBlock (.call (.text name) (args.map .text) o)
  | branch {inBlock : Bool} {condition : String} {yes : Node} {o : Datum} :
      IsCondition condition.toList → yes.isBlock = true → Writable inBlock yes →
      Writable inBlock (.branch (.text condition) yes .missing o)
  | branchElse {inBlock : Bool} {condition : String} {yes no : Node} {o : Datum} :
      IsCondition condition.toList → yes.isBlock = true → Writable inBlock yes →
      no.isAlternative = true → Writable inBlock no →
      Writable inBlock (.branch (.text condition) yes no o)
  | assignNumber {inBlock : Bool} {name : String} {n : Int} {o : Datum} :
      IsVariable name.toList → n.natAbs < tenTo digitLimit →
      Writable inBlock (.assign (.text name) (.int n) o)
  | assignText {inBlock : Bool} {name t : String} {o : Datum} :
      IsVariable name.toList → '\n' ∉ t.toList → (inBlock = true → ClosesNothing t.toList) →
      Writable inBlock (.assign (.text name) (.text t) o)

end Node

open Node

theorem solid_of_isDigit {c : Char} (digit : isDigit c = true) : isWordStop c = false := by
  have bounds := isDigit_bounds digit
  have blank : isBlank c = false := by
    simp only [isBlank, blankRanges, List.any_cons, List.any_nil, Bool.or_false, Bool.or_eq_false_iff,
      Bool.and_eq_false_iff, decide_eq_false_iff_not]
    omega
  have other : ∀ x : Char, 57 < x.toNat ∨ x.toNat < 48 → (c == x) = false := by
    intro x apart
    rw [beq_eq_false_iff_ne]
    rintro rfl
    omega
  simp [isWordStop, blank, other '(' (by decide), other '{' (by decide), other '}' (by decide)]

theorem numeral_chars (n : Int) :
    ∀ c ∈ numeral n, isWordStop c = false ∧ c ≠ ',' ∧ c ≠ ')' := by
  have digits : ∀ c ∈ Nat.toDigits 10 n.natAbs, isWordStop c = false ∧ c ≠ ',' ∧ c ≠ ')' := by
    intro c inside
    have digit := List.all_eq_true.mp (toDigits_all_isDigit n.natAbs) c inside
    have bounds := isDigit_bounds digit
    refine ⟨solid_of_isDigit digit, ?_, ?_⟩ <;> rintro rfl <;> exact absurd bounds (by decide)
  intro c inside
  unfold numeral at inside
  rw [toList_toString_int] at inside
  split at inside
  · rcases List.mem_cons.mp inside with rfl | later
    · decide
    · exact digits c later
  · exact digits c inside

theorem numeral_isName (n : Int) : IsName (numeral n) := by
  refine ⟨?_, fun c inside => (numeral_chars n c inside).1⟩
  unfold numeral
  rw [toList_toString_int]
  split
  · exact List.cons_ne_nil _ _
  · exact Nat.toDigits_ne_nil

theorem numeral_isEntry (n : Int) : IsEntry (numeral n) where
  nonempty := (numeral_isName n).nonempty
  trimmed := trim_solid fun c inside => not_blank_of_solid (numeral_chars n c inside).1
  noComma := fun inside => (numeral_chars n _ inside).2.1 rfl
  noParen := fun inside => (numeral_chars n _ inside).2.2 rfl

theorem IsEntry.cons_head {s : List Char} (entry : IsEntry s) :
    ∃ c rest, s = c :: rest ∧ isBlank c = false := by
  cases s with
  | nil => exact absurd rfl entry.nonempty
  | cons c rest => exact ⟨c, rest, rfl, (trimmed_cons entry.trimmed).1⟩

theorem commaList_noParen {entries : List (List Char)} (all : ∀ e ∈ entries, IsEntry e) :
    ')' ∉ commaList entries := by
  fun_induction commaList entries with
  | case1 => exact List.not_mem_nil
  | case2 entry => exact (all entry List.mem_cons_self).noParen
  | case3 entry next entries ih =>
    obtain ⟨first, others⟩ := List.forall_mem_cons.mp all
    intro inside
    simp only [List.mem_append, List.mem_cons] at inside
    rcases inside with here | comma | space | later
    · exact first.noParen here
    · cases comma
    · cases space
    · exact ih others later

/-- Cutting a list at its commas gives its entries back. -/
theorem cut_commaList {entries : List (List Char)} (nonempty : entries ≠ [])
    (all : ∀ e ∈ entries, IsEntry e) : (cut (· == ',') (commaList entries)).map trim = entries := by
  have separate : ∀ {e : List Char}, IsEntry e → ∀ c ∈ e, (c == ',') = false := by
    intro e entry c inside
    rw [beq_eq_false_iff_ne]
    rintro rfl
    exact entry.noComma inside
  fun_induction commaList entries with
  | case1 => exact absurd rfl nonempty
  | case2 entry =>
    have only := all entry List.mem_cons_self
    rw [cut_of_none (separate only), List.map_singleton, only.trimmed]
  | case3 entry next entries ih =>
    obtain ⟨first, others⟩ := List.forall_mem_cons.mp all
    rw [cut_append (by decide) (separate first), List.map_cons, first.trimmed,
      map_trim_cut_blank (by decide) (by decide), ih (List.cons_ne_nil _ _) others]

theorem trim_commaList_ne_nil {entries : List (List Char)} (nonempty : entries ≠ [])
    (all : ∀ e ∈ entries, IsEntry e) : trim (commaList entries) ≠ [] := by
  cases entries with
  | nil => exact absurd rfl nonempty
  | cons entry entries =>
    obtain ⟨c, rest, rfl, solid⟩ := (all entry List.mem_cons_self).cons_head
    cases entries <;> simp [commaList, trim_cons solid]

theorem upTo_parenList {entries : List (List Char)} (all : ∀ e ∈ entries, IsEntry e) (pos : Nat)
    (rest : List Char) :
    Cursor.upTo ⟨pos, parenList entries ++ rest⟩ ')' =
      some ('(' :: commaList entries, ⟨pos + (commaList entries).length + 1, ')' :: rest⟩) := by
  have absent : ')' ∉ '(' :: commaList entries := by
    intro inside
    rcases List.mem_cons.mp inside with paren | later
    · cases paren
    · exact commaList_noParen all later
  have found := Cursor.upTo_append absent pos rest
  simpa [parenList, Nat.add_assoc] using found

theorem advance_parenList (entries : List (List Char)) (pos : Nat) (rest : List Char) :
    Cursor.advance ⟨pos + (commaList entries).length + 1, ')' :: rest⟩ 1 =
      ⟨pos + (parenList entries).length, rest⟩ := by
  simp [Cursor.advance, parenList]
  omega

theorem readEntries_parenList {entries : List (List Char)} (all : ∀ e ∈ entries, IsEntry e)
    (what : String) (pos : Nat) (rest : List Char) :
    readEntries what ⟨pos, parenList entries ++ rest⟩ =
      .ok (entries, ⟨pos + (parenList entries).length, rest⟩) := by
  simp only [readEntries, upTo_parenList all, List.drop_one, List.tail_cons, advance_parenList]
  by_cases nonempty : entries = []
  · subst nonempty
    rfl
  · have shown : (trim (commaList entries)).isEmpty = false := by
      rw [List.isEmpty_eq_false_iff]
      exact trim_commaList_ne_nil nonempty all
    have full : entries.any (·.isEmpty) = false := by
      rw [List.any_eq_false]
      intro e inside
      simpa using (all e inside).nonempty
    simp [shown, cut_commaList nonempty all, full]

/-- Operands are read by their trimmed entries, wherever the entries stand. -/
theorem readOperands_numerals {ns : List Int} (small : ∀ n ∈ ns, n.natAbs < tenTo digitLimit)
    {entries : List (List Char)} (same : entries.map trim = ns.map numeral) (op : Operator)
    (pos : Nat) : readOperands op pos entries = .ok ns := by
  induction entries generalizing ns pos with
  | nil =>
    cases ns with
    | nil => rfl
    | cons n ns => cases same
  | cons entry entries ih =>
    cases ns with
    | nil => cases same
    | cons n ns =>
      obtain ⟨first, others⟩ := List.cons.inj same
      obtain ⟨bounded, rest⟩ := List.forall_mem_cons.mp small
      have nonempty : (numeral n).isEmpty = false :=
        List.isEmpty_eq_false_iff.mpr (numeral_isName n).nonempty
      have number : readWhole (numeral n) = .ok (some n) := readWhole_toString bounded
      simp [readOperands, first, nonempty, number, ih rest others]

section Statements
variable {depth start : Nat}

theorem readMath_parenList {ns : List Int} (nonempty : ns ≠ [])
    (small : ∀ n ∈ ns, n.natAbs < tenTo digitLimit) (op : Operator) (keyword : List Char)
    (pos : Nat) (rest : List Char) :
    readMath op keyword start ⟨pos, parenList (ns.map numeral) ++ rest⟩ =
      .ok (.math op ns (textOf keyword) (atOffset start),
        ⟨pos + (parenList (ns.map numeral)).length, rest⟩) := by
  have all : ∀ e ∈ ns.map numeral, IsEntry e := by
    intro e inside
    obtain ⟨n, _, rfl⟩ := List.mem_map.mp inside
    exact numeral_isEntry n
  have entries := cut_commaList (by simpa using nonempty) all
  have shown : ns.isEmpty = false := List.isEmpty_eq_false_iff.mpr nonempty
  simp only [readMath, upTo_parenList all, List.drop_one, List.tail_cons, advance_parenList,
    readOperands_numerals small entries, ok_bind, shown]
  rfl

theorem readSay_written {m : List Char} (message : IsMessage m)
    (closed : decide (0 < depth) = true → ClosesNothing m) (pos : Nat) (rest : List Char) :
    readSay depth start ⟨pos, ' ' :: m ++ '\n' :: rest⟩ =
      .ok (.say (textOf m) (atOffset start), ⟨pos + 1 + m.length, '\n' :: rest⟩) := by
  have stop : Stops isInlineBlank (m ++ '\n' :: rest) := by
    cases m with
    | nil => exact stops_cons rfl
    | cons c m => exact stops_inline (stops_cons (trimmed_cons message.trimmed).1)
  simp only [readSay, List.cons_append, Cursor.skipInlineBlanks_space pos stop,
    Cursor.line_append message.oneLine closed, Cursor.afterLine_append message.oneLine closed,
    message.trimmed]

theorem name_stops {name : List Char} (named : IsName name) (rest : List Char) :
    Stops isInlineBlank (name ++ rest) := by
  cases name with
  | nil => exact absurd rfl named.nonempty
  | cons c name =>
    exact stops_inline (stops_cons (not_blank_of_solid (named.solid c List.mem_cons_self)))

theorem readCall_written {name : List Char} (named : IsName name) {args : List (List Char)}
    (all : ∀ a ∈ args, IsEntry a) (pos : Nat) (rest : List Char) :
    readCall depth start ⟨pos, ' ' :: name ++ (parenList args ++ rest)⟩ =
      .ok (.call (textOf name) (args.map textOf) (atOffset start),
        ⟨pos + 1 + name.length + (parenList args).length, rest⟩) := by
  have stop : ∀ c ∈ (parenList args ++ rest).head?, isWordStop c = true :=
    forall_head_cons rfl
  have shown : name.isEmpty = false := List.isEmpty_eq_false_iff.mpr named.nonempty
  have inline : Stops isInlineBlank (parenList args ++ rest) := stops_cons rfl
  simp only [readCall, List.cons_append, Cursor.skipInlineBlanks_space pos (name_stops named _),
    Cursor.word_append named.solid stop, Cursor.afterWord_append named.solid stop, shown,
    Cursor.skipInlineBlanks_stops _ inline, readEntries_parenList all]
  rfl

/-- A text that stands for a value at the end of a line. -/
structure IsLiteral (inBlock : Bool) (s : List Char) (value : Datum) : Prop where
  oneLine : '\n' ∉ s
  trimmed : trim s = s
  closed : inBlock = true → ClosesNothing s
  read : literal s = .ok value

theorem numeral_isLiteral (inBlock : Bool) {n : Int} (small : n.natAbs < tenTo digitLimit) :
    IsLiteral inBlock (numeral n) (.int n) where
  oneLine := fun inside => absurd (numeral_chars n _ inside).1 (by decide)
  trimmed := (numeral_isEntry n).trimmed
  closed := fun _ => by
    have none : '}' ∉ numeral n := fun inside => absurd (numeral_chars n _ inside).1 (by decide)
    simpa using closesNothing_append none (s := []) (by simp [ClosesNothing])
  read := by
    have number : readWhole (numeral n) = .ok (some n) := readWhole_toString small
    simp [literal, number]

theorem quoted_isLiteral {inBlock : Bool} {t : String} (oneLine : '\n' ∉ t.toList)
    (closed : inBlock = true → ClosesNothing t.toList) :
    IsLiteral inBlock ('"' :: t.toList ++ ['"']) (.text t) where
  oneLine := by simpa using oneLine
  trimmed := by
    rw [List.cons_append, trim_cons (by decide), trimEnd_eq_rdropWhile,
      List.rdropWhile_concat_neg _ _ _ (by decide)]
  closed := fun inside =>
    closesNothing_cons (by decide) (closesNothing_concat (by decide) (closed inside))
  read := by rw [literal_quoted, String.ofList_toList]

theorem variable_written {name : List Char} (named : IsVariable name) :
    dropDollar (trim ('$' :: name ++ [' '])) = name := by
  rw [trim_append_blank (by decide), trim_cons (by decide), trimEnd_of_trimmed named.trimmed]
  rfl

theorem line_assign {name : List Char} (named : IsVariable name) {v : List Char} {value : Datum}
    {inBlock : Bool} (final : IsLiteral inBlock v value) (pos : Nat) (rest : List Char) :
    Cursor.line ⟨pos, '$' :: (name ++ ' ' :: '=' :: ' ' :: (v ++ '\n' :: rest))⟩ inBlock =
      ('$' :: name ++ [' ']) ++ '=' :: ' ' :: v := by
  have noClose : '}' ∉ '$' :: name ++ [' ', '=', ' '] := by simpa using named.noClose
  have closed : inBlock = true → ClosesNothing ('$' :: name ++ ' ' :: '=' :: ' ' :: v) := by
    intro inside
    simpa using closesNothing_append noClose (final.closed inside)
  have oneLine : '\n' ∉ '$' :: name ++ ' ' :: '=' :: ' ' :: v := by
    simpa using ⟨named.oneLine, final.oneLine⟩
  simpa using Cursor.line_append oneLine closed pos rest

theorem readAssign_written {name : List Char} (named : IsVariable name) {v : List Char}
    {value : Datum} (final : IsLiteral (decide (0 < depth)) v value) (pos : Nat)
    (rest : List Char) :
    readAssign depth start
        ⟨pos, ' ' :: '$' :: (name ++ ' ' :: '=' :: ' ' :: (v ++ '\n' :: rest))⟩ =
      .ok (.assign (textOf name) value (atOffset start),
        ⟨pos + 5 + name.length + v.length, '\n' :: rest⟩) := by
  have shown : name.isEmpty = false := List.isEmpty_eq_false_iff.mpr named.nonempty
  have noEquals : '=' ∉ '$' :: name ++ [' '] := by simpa using named.noEquals
  have valueLine : '\n' ∉ ' ' :: v := by simpa using final.oneLine
  have valueClosed : decide (0 < depth) = true → ClosesNothing (' ' :: v) :=
    fun inside => closesNothing_cons (by decide) (final.closed inside)
  have skipped : Cursor.skipInlineBlanks
      ⟨pos, ' ' :: '$' :: (name ++ ' ' :: '=' :: ' ' :: (v ++ '\n' :: rest))⟩ =
      ⟨pos + 1, '$' :: (name ++ ' ' :: '=' :: ' ' :: (v ++ '\n' :: rest))⟩ :=
    Cursor.skipInlineBlanks_space pos (stops_cons rfl)
  -- the value is read from the character after the equals sign
  have moved : Cursor.advance ⟨pos + 1, '$' :: (name ++ ' ' :: '=' :: ' ' :: (v ++ '\n' :: rest))⟩
      (('$' :: name ++ [' ']).length + 1) = ⟨pos + 4 + name.length, (' ' :: v) ++ '\n' :: rest⟩ := by
    have far := Cursor.advance_append (pos + 1) ('$' :: name ++ [' ', '='])
      ((' ' :: v) ++ '\n' :: rest)
    simp only [List.length_append, List.length_cons, List.length_nil, List.append_assoc,
      List.cons_append, List.nil_append] at far ⊢
    rw [far]
    congr 1
    omega
  simp only [readAssign, skipped, line_assign named final, splitAtFirst_append noEquals,
    variable_written named, shown, moved, Cursor.line_append valueLine valueClosed,
    Cursor.afterLine_append valueLine valueClosed, trim_blank_cons (show isBlank ' ' = true from rfl),
    final.trimmed, final.read]
  simp
  omega

end Statements

end Primer
