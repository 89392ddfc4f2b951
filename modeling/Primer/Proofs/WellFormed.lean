import Primer.Proofs.Decimal
import Primer.Proofs.Results
import Primer.Proofs.Text

/-! The form of the trees that are read from a source: which statements occur, how
they nest and what their texts hold. Main statement: every statement of a program
that is read is well formed. -/
namespace Primer

/-- A value of the language: text, or a number that can be written. -/
def Datum.IsValue : Datum → Prop
  | .text _ => True
  | .int n => n.natAbs < tenTo digitLimit
  | _ => False

def Node.isBlock : Node → Bool
  | .block .. => true
  | _ => false

/-- What may stand after `else`. -/
def Node.isAlternative : Node → Bool
  | .block .. | .branch .. => true
  | _ => false

structure IsName (s : List Char) : Prop where
  nonempty : s ≠ []
  solid : ∀ c ∈ s, isWordStop c = false

structure IsMessage (s : List Char) : Prop where
  oneLine : '\n' ∉ s
  trimmed : trim s = s

structure IsCondition (s : List Char) : Prop where
  nonempty : s ≠ []
  trimmed : trim s = s
  noBrace : '{' ∉ s

namespace Node

inductive WellFormed : Node → Prop
  | say {m : List Char} {o : Nat} : IsMessage m → WellFormed (.say (textOf m) (atOffset o))
  | math {op : Operator} {ns : List Int} {keyword : List Char} {o : Nat} : ns ≠ [] →
      (∀ n ∈ ns, n.natAbs < tenTo digitLimit) →
      WellFormed (.math op ns (textOf keyword) (atOffset o))
  | block {nodes : List Node} {o : Nat} : (∀ n ∈ nodes, WellFormed n) →
      WellFormed (.block nodes (atOffset o))
  | loop {count : Int} {body : Node} {o : Nat} : count.natAbs < tenTo digitLimit →
      body.isBlock = true → WellFormed body → WellFormed (.loop count body (atOffset o))
  | define {name : List Char} {params : List (List Char)} {body : Node} {o : Nat} :
      IsName name → (∀ p ∈ params, p ≠ []) → body.isBlock = true → WellFormed body →
      WellFormed (.define (textOf name) (params.map textOf) body (atOffset o))
  | call {name : List Char} {args : List (List Char)} {o : Nat} :
      IsName name → (∀ a ∈ args, a ≠ []) →
      WellFormed (.call (textOf name) (args.map textOf) (atOffset o))
  | branch {condition : List Char} {yes : Node} {o : Nat} :
      IsCondition condition → yes.isBlock = true → WellFormed yes →
      WellFormed (.branch (textOf condition) yes .missing (atOffset o))
  | branchElse {condition : List Char} {yes no : Node} {o : Nat} :
      IsCondition condition → yes.isBlock = true → WellFormed yes →
      no.isAlternative = true → WellFormed no →
      WellFormed (.branch (textOf condition) yes no (atOffset o))
  | assign {name : List Char} {value : Datum} {o : Nat} : name ≠ [] → value.IsValue →
      WellFormed (.assign (textOf name) value (atOffset o))

end Node

open Node

theorem newline_not_mem_lineSegment (inBlock : Bool) (depth : Nat) (s : List Char) :
    '\n' ∉ lineSegment inBlock depth s := by
  induction s generalizing depth with
  | nil => exact List.not_mem_nil
  | cons c s ih =>
    unfold lineSegment
    split
    · exact List.not_mem_nil
    · rename_i other
      have head : ∀ depth, '\n' ∉ c :: lineSegment inBlock depth s := by
        intro depth inside
        rcases List.mem_cons.mp inside with first | later
        · exact other first.symm
        · exact ih depth later
      split
      · exact head _
      · split
        · cases depth with
          | zero => exact List.not_mem_nil
          | succ depth => exact head depth
        · exact head depth

theorem line_isMessage (c : Cursor) (inBlock : Bool) : IsMessage (trim (c.line inBlock)) :=
  ⟨fun inside => newline_not_mem_lineSegment inBlock 0 c.rest (mem_of_mem_trim inside), trim_trim _⟩

theorem word_isName {c : Cursor} (nonempty : ¬ c.word.isEmpty = true) : IsName c.word := by
  refine ⟨fun none => nonempty (List.isEmpty_iff.mpr none), fun ch inside => ?_⟩
  have stop := List.mem_takeWhile_imp inside
  simpa using stop

theorem words_nonempty (s : List Char) : ∀ w ∈ words s, w ≠ [] := by
  intro w inside none
  have kept := (List.mem_filter.mp inside).2
  rw [none] at kept
  cases kept

theorem all_nonempty {entries : List (List Char)}
    (none : ¬ entries.any (·.isEmpty) = true) : ∀ e ∈ entries, e ≠ [] := by
  intro e inside empty
  apply none
  exact List.any_eq_true.mpr ⟨e, inside, List.isEmpty_iff.mpr empty⟩

theorem literal_isValue {s : List Char} {value : Datum} (read : literal s = .ok value) :
    value.IsValue := by
  obtain ⟨number, found, result⟩ := bind_eq_ok.mp read
  cases number with
  | none => cases result; exact trivial
  | some n => cases result; exact readWhole_lt found

/-- Whatever stands between quotes is text. -/
theorem literal_quoted (s : List Char) :
    literal ('"' :: s ++ ['"']) = .ok (.text (String.ofList s)) := by
  have noNumber : readWhole ('"' :: (s ++ ['"'])) = .ok none := rfl
  have inner : unquote ('"' :: (s ++ ['"'])) = s := by simp [unquote]
  simp [literal, noNumber, inner]

/-- A reader of nested statements that gives well-formed ones. -/
def ReadsWell (read : StatementReader) : Prop :=
  ∀ ⦃depth c node after⦄, read depth c = .ok (node, after) → node.WellFormed

section Readers
variable {read : StatementReader} {depth start : Nat} {c after : Cursor} {node : Node}

theorem readUntilClose_wellFormed (nested : ReadsWell read) {opened bound : Nat}
    {nodes : List Node} (accepted : readUntilClose (read depth) opened bound c = .ok (nodes, after)) :
    ∀ n ∈ nodes, n.WellFormed := by
  induction bound generalizing c nodes with
  | zero => cases accepted
  | succ bound ih =>
    simp only [readUntilClose] at accepted
    split at accepted
    · cases accepted
    · cases accepted
      simp
    · obtain ⟨⟨first, next⟩, head, accepted⟩ := bind_eq_ok.mp accepted
      obtain ⟨⟨others, last⟩, tail, accepted⟩ := bind_eq_ok.mp accepted
      cases accepted
      exact List.forall_mem_cons.mpr ⟨nested head, ih tail⟩

theorem readBlock_wellFormed (nested : ReadsWell read)
    (accepted : readBlock read depth c = .ok (node, after)) :
    node.isBlock = true ∧ node.WellFormed := by
  obtain ⟨⟨nodes, last⟩, inside, accepted⟩ := bind_eq_ok.mp accepted
  cases accepted
  exact ⟨rfl, .block (readUntilClose_wellFormed nested inside)⟩

theorem expectBlock_wellFormed (nested : ReadsWell read) {what : String}
    (accepted : expectBlock read what depth c = .ok (node, after)) :
    node.isBlock = true ∧ node.WellFormed := by
  simp only [expectBlock] at accepted
  split at accepted
  · exact readBlock_wellFormed nested accepted
  · cases accepted

theorem readEntries_nonempty {what : String} {entries : List (List Char)}
    (accepted : readEntries what c = .ok (entries, after)) : ∀ e ∈ entries, e ≠ [] := by
  unfold readEntries at accepted
  split at accepted
  · cases accepted
  · dsimp only at accepted
    split at accepted
    · cases accepted
      simp
    · split at accepted
      · cases accepted
      · rename_i none
        cases accepted
        exact all_nonempty none

theorem readSay_wellFormed (accepted : readSay depth start c = .ok (node, after)) :
    node.WellFormed := by
  cases accepted
  exact .say (line_isMessage _ _)

theorem readDefine_wellFormed (nested : ReadsWell read)
    (accepted : readDefine read depth start c = .ok (node, after)) : node.WellFormed := by
  simp only [readDefine] at accepted
  split at accepted
  · cases accepted
  · rename_i named
    obtain ⟨⟨entries, next⟩, _, accepted⟩ := bind_eq_ok.mp accepted
    dsimp only at accepted
    split at accepted
    · cases accepted
    · rename_i none
      obtain ⟨⟨body, last⟩, inside, accepted⟩ := bind_eq_ok.mp accepted
      cases accepted
      have block := expectBlock_wellFormed nested inside
      exact .define (word_isName named) (all_nonempty none) block.1 block.2

theorem readCall_wellFormed (accepted : readCall depth start c = .ok (node, after)) :
    node.WellFormed := by
  simp only [readCall] at accepted
  split at accepted
  · cases accepted
  · rename_i named
    split at accepted
    · obtain ⟨⟨args, next⟩, listed, accepted⟩ := bind_eq_ok.mp accepted
      cases accepted
      exact .call (word_isName named) (readEntries_nonempty listed)
    · cases accepted
      exact .call (word_isName named) (words_nonempty _)

theorem readLoop_wellFormed (nested : ReadsWell read)
    (accepted : readLoop read depth start c = .ok (node, after)) : node.WellFormed := by
  obtain ⟨count, number, accepted⟩ := bind_eq_ok.mp accepted
  cases count with
  | none => cases accepted
  | some count =>
    obtain ⟨⟨body, last⟩, inside, accepted⟩ := bind_eq_ok.mp accepted
    cases accepted
    have block := expectBlock_wellFormed nested inside
    exact .loop (readWhole_lt (orFault_eq_ok.mp number)) block.1 block.2

theorem splitAtFirst_not_mem {ch : Char} {s before rest : List Char}
    (found : splitAtFirst ch s = some (before, rest)) : ch ∉ before := by
  induction s generalizing before with
  | nil => cases found
  | cons c s ih =>
    unfold splitAtFirst at found
    split at found
    · cases found
      exact List.not_mem_nil
    · rename_i other
      obtain ⟨⟨first, last⟩, later, result⟩ := Option.map_eq_some_iff.mp found
      cases result
      intro inside
      rcases List.mem_cons.mp inside with here | there
      · exact other here.symm
      · exact ih later there

theorem upTo_not_mem {ch : Char} {before : List Char}
    (found : c.upTo ch = some (before, after)) : ch ∉ before := by
  obtain ⟨⟨first, last⟩, split, result⟩ := Option.map_eq_some_iff.mp found
  cases result
  exact splitAtFirst_not_mem split

theorem condition_isCondition {text : List Char} {brace : Cursor}
    (found : c.upTo '{' = some (text, brace)) (nonempty : ¬ (trim text).isEmpty = true) :
    IsCondition (trim text) :=
  ⟨fun none => nonempty (List.isEmpty_iff.mpr none), trim_trim text,
    fun inside => upTo_not_mem found (mem_of_mem_trim inside)⟩

theorem readBranch_wellFormed (nested : ReadsWell read) {bound : Nat}
    (accepted : readBranch read depth bound start c = .ok (node, after)) :
    node.isAlternative = true ∧ node.WellFormed := by
  induction bound generalizing start c node after with
  | zero => cases accepted
  | succ bound ih =>
    simp only [readBranch] at accepted
    split at accepted
    · cases accepted
    · rename_i text brace found
      split at accepted
      · cases accepted
      · rename_i nonempty
        have condition := condition_isCondition found nonempty
        obtain ⟨⟨yes, next⟩, inside, accepted⟩ := bind_eq_ok.mp accepted
        have block := readBlock_wellFormed nested inside
        dsimp only at accepted
        split at accepted
        · split at accepted
          · obtain ⟨⟨no, last⟩, chain, accepted⟩ := bind_eq_ok.mp accepted
            cases accepted
            have other := ih chain
            exact ⟨rfl, .branchElse condition block.1 block.2 other.1 other.2⟩
          · obtain ⟨⟨no, last⟩, final, accepted⟩ := bind_eq_ok.mp accepted
            cases accepted
            have other := expectBlock_wellFormed nested final
            have alternative : no.isAlternative = true := by
              cases no with
              | block => rfl
              | _ => cases other.1
            exact ⟨rfl, .branchElse condition block.1 block.2 alternative other.2⟩
        · cases accepted
          exact ⟨rfl, .branch condition block.1 block.2⟩

theorem readAssign_wellFormed (accepted : readAssign depth start c = .ok (node, after)) :
    node.WellFormed := by
  simp only [readAssign] at accepted
  split at accepted
  · cases accepted
  · split at accepted
    · cases accepted
    · rename_i nonempty
      obtain ⟨value, number, accepted⟩ := bind_eq_ok.mp accepted
      cases accepted
      exact .assign (fun none => nonempty (List.isEmpty_iff.mpr none))
        (literal_isValue (orFault_eq_ok.mp number))

theorem readOperands_lt {op : Operator} {pos : Nat} {entries : List (List Char)} {ns : List Int}
    (accepted : readOperands op pos entries = .ok ns) :
    ∀ n ∈ ns, n.natAbs < tenTo digitLimit := by
  induction entries generalizing pos ns with
  | nil => cases accepted; simp
  | cons entry entries ih =>
    simp only [readOperands] at accepted
    split at accepted
    · exact ih accepted
    · obtain ⟨number, found, accepted⟩ := bind_eq_ok.mp accepted
      cases number with
      | none => cases accepted
      | some first =>
        obtain ⟨others, tail, accepted⟩ := bind_eq_ok.mp accepted
        cases accepted
        exact List.forall_mem_cons.mpr ⟨readWhole_lt (orFault_eq_ok.mp found), ih tail⟩

theorem readMath_wellFormed {op : Operator} {keyword : List Char}
    (accepted : readMath op keyword start c = .ok (node, after)) : node.WellFormed := by
  unfold readMath at accepted
  split at accepted
  · cases accepted
  · obtain ⟨operands, listed, accepted⟩ := bind_eq_ok.mp accepted
    split at accepted
    · cases accepted
    · rename_i nonempty
      cases accepted
      exact .math (fun none => nonempty (List.isEmpty_iff.mpr none)) (readOperands_lt listed)

theorem readStatementWith_wellFormed (nested : ReadsWell read) :
    ReadsWell (readStatementWith read) := by
  intro depth c node after accepted
  simp only [readStatementWith] at accepted
  split at accepted
  · exact (readBlock_wellFormed nested accepted).2
  · cases accepted
  · split at accepted
    · cases accepted
    · split at accepted
      · exact readSay_wellFormed accepted
      · exact readDefine_wellFormed nested accepted
      · exact readCall_wellFormed accepted
      · exact readLoop_wellFormed nested accepted
      · exact (readBranch_wellFormed nested accepted).2
      · exact readAssign_wellFormed accepted
      · exact readMath_wellFormed accepted
      · cases accepted

end Readers

theorem readStatement_wellFormed (bound : Nat) : ReadsWell (readStatement bound) := by
  induction bound with
  | zero => intro depth c node after accepted; cases accepted
  | succ bound ih => exact readStatementWith_wellFormed ih

theorem readUntilEnd_wellFormed {read : StatementReader} (nested : ReadsWell read)
    {depth bound : Nat} {c : Cursor} {nodes : List Node}
    (accepted : readUntilEnd (read depth) bound c = .ok nodes) : ∀ n ∈ nodes, n.WellFormed := by
  induction bound generalizing c nodes with
  | zero => cases accepted
  | succ bound ih =>
    simp only [readUntilEnd] at accepted
    split at accepted
    · cases accepted
      simp
    · obtain ⟨⟨first, next⟩, head, accepted⟩ := bind_eq_ok.mp accepted
      obtain ⟨others, tail, accepted⟩ := bind_eq_ok.mp accepted
      cases accepted
      exact List.forall_mem_cons.mpr ⟨nested head, ih tail⟩

/-- A source that is read gives a program, and all its statements are well formed. -/
theorem parse_wellFormed {source : List Char} {program : Node}
    (accepted : parse source = .ok program) :
    ∃ body, program = .program body ∧ ∀ n ∈ body, n.WellFormed := by
  unfold parse at accepted
  split at accepted
  · rename_i body read
    cases accepted
    exact ⟨body, rfl, readUntilEnd_wellFormed (readStatement_wellFormed _) read⟩
  · cases accepted

theorem parse_of_isOk {source : List Char} (read : (parse source).isOk = true) :
    ∃ body, parse source = .ok (.program body) := by
  cases accepted : parse source with
  | ok program =>
    obtain ⟨body, rfl, -⟩ := parse_wellFormed accepted
    exact ⟨body, rfl⟩
  | error failure =>
    rw [accepted] at read
    cases read

theorem mem_definitionsIn {d : Definition} {nodes : List Node} (inside : d ∈ definitionsIn nodes) :
    ∃ n ∈ nodes, d ∈ n.definitions := by
  induction nodes with
  | nil => cases inside
  | cons node nodes ih =>
    rcases List.mem_append.mp inside with here | later
    · exact ⟨node, List.mem_cons_self, here⟩
    · obtain ⟨n, member, found⟩ := ih later
      exact ⟨n, List.mem_cons_of_mem node member, found⟩

theorem definitions_wellFormed {node : Node} (formed : node.WellFormed) :
    ∀ d ∈ node.definitions, d.node.WellFormed := by
  induction formed with
  | say | math | call | assign => intro d inside; cases inside
  | block _ ih =>
    intro d inside
    obtain ⟨n, member, found⟩ := mem_definitionsIn inside
    exact ih n member d found
  | loop _ _ _ ih => exact ih
  | define named params block body ih =>
    intro d inside
    rcases List.mem_append.mp inside with deeper | here
    · exact ih d deeper
    · cases List.mem_singleton.mp here
      exact .define named params block body
  | branch _ _ _ ih =>
    intro d inside
    rcases List.mem_append.mp inside with first | second
    · exact ih d first
    · cases second
  | branchElse _ _ _ _ _ yes no =>
    intro d inside
    rcases List.mem_append.mp inside with first | second
    · exact yes d first
    · exact no d second

theorem definitionsIn_wellFormed {nodes : List Node} (formed : ∀ n ∈ nodes, n.WellFormed) :
    ∀ d ∈ definitionsIn nodes, d.node.WellFormed := by
  intro d inside
  obtain ⟨n, member, found⟩ := mem_definitionsIn inside
  exact definitions_wellFormed (formed n member) d found

theorem definition_named {d : Definition} (formed : d.node.WellFormed) :
    ∃ name, d.name = textOf name := by
  obtain ⟨name, params, body, offset⟩ := d
  cases formed with
  | define => exact ⟨_, rfl⟩

theorem definition_body {d : Definition} (formed : d.node.WellFormed) : d.body.WellFormed := by
  obtain ⟨name, params, body, o⟩ := d
  cases formed with
  | define _ _ _ body => exact body

theorem definition_params {d : Definition} (formed : d.node.WellFormed) :
    ∃ params : List (List Char), d.params = params.map textOf := by
  obtain ⟨name, params, body, o⟩ := d
  cases formed with
  | define => exact ⟨_, rfl⟩

end Primer
