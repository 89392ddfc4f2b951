import Primer.CommandLine
import Primer.Proofs.Embedding
import Primer.Proofs.Verbosity

/-! Programs read without the blanks around them. The command reads the trimmed text of a
file and reports places in the whole text. Main statement: trimming changes neither what
is read nor how it runs, and the places reported are those of the whole text. -/
namespace Primer

section Runs
variable {verbosity limit : Nat} {body : List Node} {d : Diagnostic}
  (failed : (runNode verbosity limit (.program body)).failure = some (.diagnostic d))
include failed

theorem runNode_silent : (runNode 0 limit (.program body)).failure = some (.diagnostic d) := by
  rcases runNode_quiets (Nat.zero_le verbosity) limit (.program body) with same | ⟨f, faulted⟩
  · rw [Run.failure, same]
    exact failed
  · cases faulted.symm.trans failed

theorem runNode_moved (k : Nat) :
    (runNode 0 limit (.program (Node.shiftAll k body))).failure = some (.diagnostic (d.shift k)) := by
  have silent : (runNode 0 limit (.program body)).outcome.failure = _ := runNode_silent failed
  rw [Run.failure, runNode_shift, Outcome.shift, silent]
  rfl

/-- A program that was moved fails with the same diagnostic, moved, whatever is traced,
unless it comes to a trace that cannot be written. -/
theorem runNode_moved_traced (k level : Nat) :
    (runNode level limit (.program (Node.shiftAll k body))).failure = some (.diagnostic (d.shift k)) ∨
      0 < level ∧ (runNode level limit (.program (Node.shiftAll k body))).outcome.Faulted := by
  have moved := runNode_moved failed k
  rcases runNode_quiets (Nat.zero_le level) limit (.program (Node.shiftAll k body)) with same | faulted
  · rw [Run.failure, same] at moved
    exact .inl moved
  · refine .inr ⟨Nat.pos_of_ne_zero fun zero => ?_, faulted⟩
    obtain ⟨f, faulted⟩ := faulted
    rw [zero] at faulted
    cases faulted.symm.trans moved

theorem runNode_context : d.context = none := by
  -- moving drops a context, and moving by nothing changes no run
  have moved := runNode_moved failed 0
  rw [Node.shiftAll_zero, runNode_silent failed] at moved
  have same : d = d.shift 0 := by
    injection moved with moved
    injection moved
  rw [same]
  rfl

end Runs

namespace CommandLine

open Site

/-- Where the program of a text stands: after its leading blanks, before the others. -/
def programSite (text : List Char) : Site :=
  ⟨leading text, (trim text).length, ((trimStart text).reverse.takeWhile isBlank).reverse⟩

theorem programSite_blank (text : List Char) : (programSite text).Blank := by
  intro ch inside
  exact List.mem_takeWhile_imp (List.mem_reverse.mp inside)

theorem leading_eq (text : List Char) : leading text = (text.takeWhile isBlank).length := by
  have split := congrArg List.length (text.takeWhile_append_dropWhile (p := isBlank))
  rw [List.length_append] at split
  unfold leading trimStart
  omega

theorem trim_append_tail (text : List Char) : trim text ++ (programSite text).tail = trimStart text := by
  have split := (trimStart text).reverse.takeWhile_append_dropWhile (p := isBlank)
  have reversed := congrArg List.reverse split
  rw [List.reverse_append, List.reverse_reverse] at reversed
  exact reversed

theorem length_trimmed_le (text : List Char) : (trim text).length ≤ text.length := by
  have length := congrArg List.length (trim_append_tail text)
  have fewer : (trimStart text).length ≤ text.length := (List.dropWhile_suffix isBlank).length_le
  rw [List.length_append] at length
  omega

theorem skipBlanks_programSite (text : List Char) :
    (Cursor.start text).skipBlanks = ((programSite text).put (.start (trim text))).skipBlanks := by
  have run : ∀ ch ∈ text.takeWhile isBlank, isBlank ch = true := fun ch => List.mem_takeWhile_imp
  have skipped := Cursor.skipWhile_run run 0 (trimStart text)
  have whole : text.takeWhile isBlank ++ trimStart text = text := List.takeWhile_append_dropWhile
  rw [whole, ← leading_eq, ← trim_append_tail] at skipped
  exact skipped

theorem readBody_trim (text : List Char) :
    (programSite text).Carried (fun nodes moved => moved = Node.shiftAll (leading text) nodes)
      (readBody (trim text)) (readBody text) := by
  have enough : (trim text).length + 1 ≤ text.length + 1 := Nat.succ_le_succ (length_trimmed_le text)
  have read : (programSite text).Carried _ (readBody (trim text)) _ :=
    readBody_carried (programSite_blank text) rfl enough enough
  rw [← readUntilEnd_congr (Nat.succ_pos _) (skipBlanks_programSite text)] at read
  exact read

/-- A text and its program are both accepted, or both rejected for the same reason. -/
theorem parse_trim (text : List Char) :
    (∃ body, parse (trim text) = .ok (.program body) ∧
      parse text = .ok (.program (Node.shiftAll (leading text) body))) ∨
    (∃ p offset moved, (programSite text).Moves offset moved ∧
      parse (trim text) = .error (.diagnostic ⟨p, atOffset offset, some (snippet (trim text) offset)⟩) ∧
      parse text = .error (.diagnostic ⟨p, atOffset moved, some (snippet text moved)⟩)) ∨
    ∃ f, parse (trim text) = .error (.fault f) ∧ parse text = .error (.fault f) := by
  have carried := readBody_trim text
  have blank := programSite_blank text
  cases read : readBody (trim text) with
  | ok body =>
    rw [read] at carried
    obtain ⟨_, whole, rfl⟩ := carried.of_ok
    exact .inl ⟨body, parse_eq_ok.mpr read, parse_eq_ok.mpr whole⟩
  | error r =>
    rw [read] at carried
    cases r with
    | problem p offset =>
      obtain ⟨moved, whole, moves⟩ := carried.of_problem blank
      exact .inr (.inl ⟨p, offset, moved, moves, parse_eq_diagnostic.mpr ⟨p, offset, read, rfl⟩,
        parse_eq_diagnostic.mpr ⟨p, moved, whole, rfl⟩⟩)
    | fault f =>
      have whole := carried.of_fault blank
      exact .inr (.inr ⟨f, parse_eq_fault.mpr read, parse_eq_fault.mpr whole⟩)
    | exhausted => exact absurd read (readBody_not_exhausted _)

/-- The octets of a file that holds a text. -/
def Encodes (octets : List UInt8) (text : List Char) : Prop :=
  ∃ characters, decodeOctets octets = .ok characters ∧ unifyNewlines characters = text

theorem trimmed_nonempty {text : List Char} (other : parse (trim text) ≠ .ok (.program [])) :
    (trim text).isEmpty = false := by
  cases empty : (trim text).isEmpty with
  | false => rfl
  | true =>
    rw [List.isEmpty_iff.mp empty] at other
    exact absurd rfl other

theorem withProgram_ok {octets : List UInt8} {text : List Char} (encodes : Encodes octets text)
    (nonempty : (trim text).isEmpty = false) {program : Node} (read : parse (trim text) = .ok program)
    (path : String) (next : List Char → Node → Result) :
    withProgram path octets next = next text program := by
  obtain ⟨characters, decoded, rfl⟩ := encodes
  simp only [withProgram, decoded, nonempty, read]
  rfl

theorem withProgram_diagnostic {octets : List UInt8} {text : List Char} (encodes : Encodes octets text)
    {d : Diagnostic} (failed : parse (trim text) = .error (.diagnostic d))
    (path : String) (next : List Char → Node → Result) :
    withProgram path octets next = .error (reportText d (some text)) := by
  have nonempty : (trim text).isEmpty = false := by
    apply trimmed_nonempty
    rw [failed]
    intro same
    cases same
  obtain ⟨characters, decoded, rfl⟩ := encodes
  simp only [withProgram, decoded, nonempty, failed]
  rfl

theorem reportText_atOffset (p : Problem) (offset : Nat) (context : Option String) (text : List Char) :
    reportText ⟨p, atOffset offset, context⟩ (some text) =
      Report.format ⟨p.kind.name, p.message, atOffset (offset + leading text), none⟩ (some text) := by
  simp [reportText, placedIn, Diagnostic.report, atOffset]

section Reports
variable {verbosity limit : Nat} {body : List Node} {d : Diagnostic}
  (failed : (runNode verbosity limit (.program body)).failure = some (.diagnostic d))
include failed

theorem reportText_moved (text : List Char) :
    reportText d (some text) = (d.shift (leading text)).report.format (some text) := by
  have context := runNode_context failed
  obtain ⟨p, offset, context⟩ := d
  cases offset with
  | int n => rfl
  | _ => simp_all [reportText, placedIn, Diagnostic.report, Diagnostic.shift, Datum.shift]

theorem perform_reports {text : List Char} (read : parse (trim text) = .ok (.program body))
    {octets : List UInt8} (encodes : Encodes octets text) (path : String) (look : String → Entry) :
    ((Task.run path).perform verbosity limit octets look).stderr =
      "Error: " ++ (d.shift (leading text)).report.format (some text) ++ "\n" := by
  -- the empty program does not fail
  have nonempty : (trim text).isEmpty = false := by
    apply trimmed_nonempty
    intro empty
    rw [read] at empty
    cases empty
    cases failed
  rw [Task.perform, withProgram_ok encodes nonempty read, ← reportText_moved failed]
  simp only [finish, failed]

end Reports

/-- A text is a program if and only if it is one without the blanks around it, and then
its offsets are larger by the number of blanks before it. What the command says when it
cannot read a program, or when running it fails, has the place that the whole text gives:
that of its own diagnostic, but at most the end of the program. -/
theorem trimming_keeps_places (text : List Char) :
    (parse text).isOk = (parse (trim text)).isOk ∧
    (∀ body, parse (trim text) = .ok (.program body) →
      parse text = .ok (.program (Node.shiftAll (leading text) body)) ∧
      (∀ limit, (runNode 0 limit (.program (Node.shiftAll (leading text) body))).failure =
        (runNode 0 limit (.program body)).failure.map (Failure.shift (leading text))) ∧
      ∀ verbosity limit d, (runNode verbosity limit (.program body)).failure = some (.diagnostic d) →
        ∃ e, e.problem = d.problem ∧
          (∀ level,
            let whole := runNode level limit (.program (Node.shiftAll (leading text) body))
            whole.failure = some (.diagnostic e) ∨ 0 < level ∧ whole.outcome.Faulted) ∧
          ∀ path octets look, Encodes octets text →
            ((Task.run path).perform verbosity limit octets look).stderr =
              "Error: " ++ e.report.format (some text) ++ "\n") ∧
    ((∃ d, parse text = .error (.diagnostic d)) ↔ ∃ e, parse (trim text) = .error (.diagnostic e)) ∧
    ∀ d, parse text = .error (.diagnostic d) →
      ∃ offset e, d.offset = atOffset offset ∧ leading text ≤ offset ∧
        parse (trim text) = .error (.diagnostic e) ∧ e.problem = d.problem ∧
        e.offset = atOffset (min (offset - leading text) (trim text).length) ∧
        ∀ path octets next, Encodes octets text →
          withProgram path octets next = .error (Report.format
            ⟨d.problem.kind.name, d.problem.message,
              atOffset (min offset (leading text + (trim text).length)), none⟩ (some text)) := by
  rcases parse_trim text with ⟨body, read, whole⟩ | ⟨p, offset, moved, moves, failed, whole⟩ | ⟨f, failed, whole⟩
  · refine ⟨by rw [read, whole]; rfl, fun _ again => ?_, by simp [read, whole], by simp [whole]⟩
    cases read.symm.trans again
    refine ⟨whole, fun limit => ?_, fun verbosity limit d failed => ?_⟩
    · exact congrArg Outcome.failure (runNode_shift (leading text) limit body)
    · exact ⟨d.shift (leading text), rfl, runNode_moved_traced failed (leading text),
        fun path octets look encodes => perform_reports failed read encodes path look⟩
  · refine ⟨by rw [failed, whole]; rfl, by simp [failed], by simp [failed, whole], fun d again => ?_⟩
    cases whole.symm.trans again
    have within : offset ≤ (trim text).length := moves.within
    have least : offset + leading text ≤ moved := moves.least
    have same : offset < (trim text).length → moved = offset + leading text := moves.same
    have back : offset = min (moved - leading text) (trim text).length := by omega
    have clamped : offset + leading text = min moved (leading text + (trim text).length) := by omega
    refine ⟨moved, _, rfl, by omega, failed, rfl, congrArg atOffset back, ?_⟩
    intro path octets next encodes
    rw [withProgram_diagnostic encodes failed, reportText_atOffset, clamped]
  · exact ⟨by rw [failed, whole], by simp [failed], by simp [failed, whole], by simp [whole]⟩

/-- A file whose program starts on its third line and calls what it does not define. -/
def indentedFile : List UInt8 := [10, 10, 99, 97, 108, 108, 32, 102, 10]

def indentedText : List Char := "\n\ncall f\n".toList

theorem trimming_keeps_places_indentedText :
    Encodes indentedFile indentedText ∧ ∃ e, e.problem = .undefinedFunction "f" ∧
      (runNode 0 9 (.program [.call (.text "f") [] (.int 2)])).failure = some (.diagnostic e) ∧
      ∀ path look, ((Task.run path).perform 0 9 indentedFile look).stderr =
        "Error: " ++ e.report.format (some indentedText) ++ "\n" := by
  have encodes : Encodes indentedFile indentedText := ⟨indentedText, by decide +kernel, by decide +kernel⟩
  have trimmed : trim indentedText = "call f".toList := by decide +kernel
  have read : parse (trim indentedText) = .ok (.program [.call (.text "f") [] (.int 0)]) := by
    rw [trimmed]
    rfl
  have failed : (runNode 0 9 (.program [.call (.text "f") [] (.int 0)])).failure =
      some (.diagnostic ⟨.undefinedFunction "f", .int 0, none⟩) := by rfl
  obtain ⟨-, -, runs⟩ := (trimming_keeps_places indentedText).2.1 _ read
  obtain ⟨e, same, whole, reports⟩ := runs 0 9 _ failed
  refine ⟨encodes, e, same, ?_, fun path look => reports path indentedFile look encodes⟩
  exact (whole 0).resolve_right fun traced => absurd traced.1 (Nat.lt_irrefl 0)

end CommandLine
end Primer
