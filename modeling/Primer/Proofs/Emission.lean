import Primer.Proofs.JsonText
import Primer.Proofs.Octets
import Primer.Proofs.Offsets
import Primer.Proofs.Storage
import Primer.Proofs.Trimming

/-! Programs run from their stored form. Main statement: the file that the command stores
for a program is read back as the program, so running it does what running the program
does, up to the place that a diagnostic is given. -/
namespace Primer

open Node

namespace Datum

theorem IsValue.plain {value : Datum} (isValue : value.IsValue) : value.IsPlain := by
  cases value with
  | text => exact .text
  | int => exact .int isValue
  | _ => cases isValue

theorem plain_texts (texts : List (List Char)) : (Datum.list (texts.map textOf)).IsPlain := by
  apply IsPlain.list
  intro d inside
  obtain ⟨s, _, rfl⟩ := List.mem_map.mp inside
  exact .text

theorem plain_numbers {ns : List Int} (small : ∀ n ∈ ns, n.natAbs < tenTo digitLimit) :
    (Datum.list (ns.map .int)).IsPlain := by
  apply IsPlain.list
  intro d inside
  obtain ⟨n, member, rfl⟩ := List.mem_map.mp inside
  exact .int (small n member)

end Datum

theorem plain_storeAll {nodes : List Node} (each : ∀ n ∈ nodes, n.store.IsPlain) :
    (Datum.list (storeAll nodes)).IsPlain := by
  apply Datum.IsPlain.list
  induction nodes with
  | nil => simp [storeAll]
  | cons node nodes ih =>
    obtain ⟨first, others⟩ := List.forall_mem_cons.mp each
    rw [storeAll]
    exact List.forall_mem_cons.mpr ⟨first, ih others⟩

/-- A tree that was read is stored as plain data if its offsets can be written. -/
theorem store_plain {node : Node} (formed : node.WellFormed) (places : ∀ n ∈ node.nodes, n.offset.IsPlain) :
    node.store.IsPlain := by
  have text : ∀ s, (Datum.text s).IsPlain := fun _ => .text
  have named : ∀ s, (textOf s).IsPlain := fun _ => .text
  induction formed with
  | @say m o _ =>
    have here : (atOffset o).IsPlain := places _ (self_mem_nodes _)
    exact .record (by simp) (by simp [text, named, here])
  | @math op ns keyword o _ small =>
    have here : (atOffset o).IsPlain := places _ (self_mem_nodes _)
    exact .record (by simp) (by simp [text, named, here, Datum.plain_numbers small])
  | @block nodes o _ ih =>
    have here : (atOffset o).IsPlain := places _ (self_mem_nodes _)
    have each : ∀ n ∈ nodes, n.store.IsPlain := by
      intro statement member
      apply ih statement member
      intro n inside
      exact places n (List.mem_cons_of_mem _ (mem_nodesIn.mpr ⟨statement, member, inside⟩))
    exact .record (by simp) (by simp [text, here, plain_storeAll each])
  | @loop count body o small _ _ ih =>
    have here : (atOffset o).IsPlain := places _ (self_mem_nodes _)
    have inner := ih fun n inside => places n (List.mem_cons_of_mem _ inside)
    exact .record (by simp) (by simp [text, here, inner, Datum.IsPlain.int small])
  | @define name params body o _ _ _ _ ih =>
    have here : (atOffset o).IsPlain := places _ (self_mem_nodes _)
    have inner := ih fun n inside => places n (List.mem_cons_of_mem _ inside)
    exact .record (by simp) (by simp [text, named, here, inner, Datum.plain_texts])
  | @call name args o _ _ =>
    have here : (atOffset o).IsPlain := places _ (self_mem_nodes _)
    exact .record (by simp) (by simp [text, named, here, Datum.plain_texts])
  | @branch condition yes o _ _ _ ih =>
    have here : (atOffset o).IsPlain := places _ (self_mem_nodes _)
    have first := ih fun n inside => places n (nodes_yes inside _ _ _)
    exact .record (by simp) (by simp [text, named, here, first, store, Datum.IsPlain.null])
  | @branchElse condition yes no o _ _ _ alternative _ ih ih' =>
    have here : (atOffset o).IsPlain := places _ (self_mem_nodes _)
    have first := ih fun n inside => places n (nodes_yes inside _ _ _)
    have second := ih' fun n inside => places n (nodes_no (alternative_present alternative) inside _ _ _)
    exact .record (by simp) (by simp [text, named, here, first, second])
  | @assign name value o _ isValue =>
    have here : (atOffset o).IsPlain := places _ (self_mem_nodes _)
    exact .record (by simp) (by simp [text, named, here, isValue.plain])

/-- A program that was read is stored as plain data, if its source has no offset that is
too long to be written. -/
theorem parse_store_plain {source : List Char} {program : Node} (accepted : parse source = .ok program)
    (fits : source.length ≤ tenTo digitLimit) : program.store.IsPlain := by
  obtain ⟨body, rfl, formed⟩ := parse_wellFormed accepted
  have each : ∀ n ∈ body, n.store.IsPlain := by
    intro statement member
    apply store_plain (formed statement member)
    intro n inside
    have listed : n ∈ nodesIn body := mem_nodesIn.mpr ⟨statement, member, inside⟩
    obtain ⟨o, place, -, before⟩ := (parse_ascending accepted).mem listed
    rw [place]
    exact .int (before.trans_le fits)
  exact .record (by simp) (by simp [Datum.IsPlain.text, plain_storeAll each])

theorem parse_tabled {source : List Char} {program : Node} (accepted : parse source = .ok program) :
    program.Tabled := by
  obtain ⟨body, rfl, formed⟩ := parse_wellFormed accepted
  exact .program (fun n inside => (formed n inside).tabled) (wellFormed_hasTable formed)

namespace CommandLine

/-- The file that is stored for a program is read back as the program. -/
theorem readStored_written {program : Node} (tabled : program.Tabled) (plain : program.store.IsPlain) :
    readStored (fileOctets (Json.write program.store)) = .ok program := by
  have lines : unifyNewlines (Json.write program.store).toList = (Json.write program.store).toList :=
    unifyNewlines_of_none (Json.writeAt_noReturn plain 0)
  rw [readStored, decodeOctets_fileOctets, ok_bind]
  dsimp only
  rw [lines, Json.read_write plain, ok_bind, load_store tabled]

/-- The words of a command ask for a task, to be traced up to a level. -/
def Asks (args : List String) (verbosity : Nat) (task : Task) : Prop :=
  ∃ options, Options.parse args = .ok options ∧ options.task = .ok task ∧ options.verbosity = verbosity

theorem run_asked {args : List String} {verbosity : Nat} {task : Task} (asks : Asks args verbosity task)
    {look : String → Entry} {octets : List UInt8} (found : look task.path = .file octets) (limit : Nat) :
    run limit args look = task.perform verbosity limit octets look := by
  obtain ⟨options, parsed, asked, rfl⟩ := asks
  simp only [run, parsed, asked, found]

def firstLine (text : String) : List Char := text.toList.takeWhile (· ≠ '\n')

theorem takeWhile_newline (line rest : List Char) :
    (line ++ '\n' :: rest).takeWhile (· ≠ '\n') = line.takeWhile (· ≠ '\n') := by
  induction line with
  | nil => rfl
  | cons c line ih => simp only [List.cons_append, List.takeWhile_cons, ih]

theorem firstLine_append (line rest : String) : firstLine (line ++ "\n" ++ rest) = firstLine line := by
  have text : (line ++ "\n" ++ rest).toList = line.toList ++ '\n' :: rest.toList := by
    simp [String.toList_append]
  rw [firstLine, text, takeWhile_newline]
  rfl

/-- A report starts with its headline, whatever else it shows. -/
theorem format_headline (r : Report) (source : Option (List Char)) :
    ∃ rest, r.format source ++ "\n" = r.headline ++ "\n" ++ rest := by
  unfold Report.format
  split
  · have lead : "\n  at line " = "\n" ++ "  at line " := rfl
    exact ⟨_, by simp only [toString, String.append_assoc]; rw [lead, String.append_assoc]⟩
  · split
    · exact ⟨_, by simp only [String.append_assoc]; rfl⟩
    · exact ⟨"", by simp⟩

theorem reportText_headline (d : Diagnostic) (text : Option (List Char)) :
    ∃ rest, reportText d text ++ "\n" = d.report.headline ++ "\n" ++ rest := by
  cases text with
  | none => exact format_headline d.report none
  | some text =>
    have same : (placedIn text d).headline = d.report.headline := by
      unfold placedIn
      split
      · rename_i report
        rw [report]
        rfl
      · rfl
    exact same ▸ format_headline (placedIn text d) (some text)

theorem firstLine_report (d : Diagnostic) (text : Option (List Char)) :
    firstLine ("Error: " ++ reportText d text ++ "\n") = firstLine ("Error: " ++ d.report.headline) := by
  obtain ⟨rest, shown⟩ := reportText_headline d text
  rw [String.append_assoc, shown, ← String.append_assoc, ← String.append_assoc]
  exact firstLine_append _ rest

/-- Two commands that did the same, up to what they say after the first line of an error. -/
structure Result.Alike (r s : Result) : Prop where
  status : r.status = s.status
  stdout : r.stdout = s.stdout
  created : r.created = s.created
  headline : firstLine r.stderr = firstLine s.stderr

/-- The text that a program was read from shows only in the place of a diagnostic. -/
theorem finish_alike (verbosity : Nat) (text text' : Option (List Char)) (r : Run) :
    (finish verbosity text r).Alike (finish verbosity text' r) := by
  unfold finish
  cases r.failure with
  | none => exact ⟨rfl, rfl, rfl, rfl⟩
  | some failure =>
    cases failure with
    | diagnostic d => exact ⟨rfl, rfl, rfl, by simp only [firstLine_report]⟩
    | fault f => exact ⟨rfl, rfl, rfl, rfl⟩
    | tooDeep => exact ⟨rfl, rfl, rfl, rfl⟩

section Commands
variable {path : String} {look : String → Entry} {octets : List UInt8} {text : List Char}
  {program : Node} (found : look path = .file octets) (encodes : Encodes octets text)
  (nonblank : (trim text).isEmpty = false) (read : parse (trim text) = .ok program)
include found encodes nonblank read

theorem run_program {args : List String} {verbosity : Nat} (asks : Asks args verbosity (.run path))
    (limit : Nat) :
    run limit args look = finish verbosity (some text) (runNode verbosity limit program) := by
  rw [run_asked asks found, Task.perform, withProgram_ok encodes nonblank read]

theorem run_emit {args : List String} {verbosity : Nat} (asks : Asks args verbosity (.emit path))
    (writable : (look (storedPath path)).fault? (storedPath path) = none) (limit : Nat) :
    (run limit args look).status = .ok 0 ∧
      (run limit args look).created = [(storedPath path, Json.write program.store)] := by
  rw [run_asked asks found, Task.perform, withProgram_ok encodes nonblank read, storeAt, writable]
  exact ⟨rfl, rfl⟩

end Commands

/-- Storing the program of a file succeeds, and running what was stored gives the same
output, exit status and trace as running the file, and the same first line of an error. -/
theorem stored_runs_alike {path : String} {look : String → Entry} {octets : List UInt8}
    {text : List Char} {program : Node} (found : look path = .file octets)
    (encodes : Encodes octets text) (nonblank : (trim text).isEmpty = false)
    (read : parse (trim text) = .ok program) (fits : (trim text).length ≤ tenTo digitLimit)
    (writable : (look (storedPath path)).fault? (storedPath path) = none)
    {direct emitting loading : List String} {verbosity level : Nat}
    (asksRun : Asks direct verbosity (.run path)) (asksEmit : Asks emitting level (.emit path))
    (asksLoad : Asks loading verbosity (.load (storedPath path))) (limit : Nat) :
    ∃ content, (run limit emitting look).status = .ok 0 ∧
      (run limit emitting look).created = [(storedPath path, content)] ∧
      ∀ after : String → Entry, after (storedPath path) = .file (fileOctets content) →
        (run limit direct look).Alike (run limit loading after) := by
  obtain ⟨status, created⟩ := run_emit found encodes nonblank read asksEmit writable limit
  refine ⟨_, status, created, fun after stored => ?_⟩
  have back := readStored_written (parse_tabled read) (parse_store_plain read fits)
  rw [run_program found encodes nonblank read asksRun, run_asked asksLoad stored, Task.perform, back]
  exact finish_alike verbosity (some text) none _

/-- A program after a blank line, with text beyond ASCII, that fails on its last line. -/
def failingText : String := "\n set x = \"é\"\n say $x\n DIVIDE(1, 0)\n"

def failingFiles (path : String) : Entry :=
  if path = "a" then .file (fileOctets failingText) else .missing

theorem stored_runs_alike_failingFiles :
    Asks ["-v", "a"] 1 (.run "a") ∧ Asks ["--emit-ast", "a"] 0 (.emit "a") ∧
      Asks ["--ast", "a.ast.json", "-v"] 1 (.load "a.ast.json") ∧
      ∃ content, (run nestingLimit ["--emit-ast", "a"] failingFiles).created = [("a.ast.json", content)] ∧
        ∀ after : String → Entry, after "a.ast.json" = .file (fileOctets content) →
          (run nestingLimit ["-v", "a"] failingFiles).Alike
            (run nestingLimit ["--ast", "a.ast.json", "-v"] after) := by
  have asksRun : Asks ["-v", "a"] 1 (.run "a") := ⟨_, rfl, rfl, rfl⟩
  have asksEmit : Asks ["--emit-ast", "a"] 0 (.emit "a") := ⟨_, rfl, rfl, rfl⟩
  have asksLoad : Asks ["--ast", "a.ast.json", "-v"] 1 (.load (storedPath "a")) := ⟨_, rfl, rfl, rfl⟩
  have encodes : Encodes (fileOctets failingText) failingText.toList :=
    ⟨_, decodeOctets_fileOctets failingText, unifyNewlines_of_none (by decide +kernel)⟩
  have nonblank : (trim failingText.toList).isEmpty = false := by decide +kernel
  obtain ⟨body, read⟩ := parse_of_isOk (show (parse (trim failingText.toList)).isOk = true by decide +kernel)
  have length : (trim failingText.toList).length ≤ tenTo 3 := by decide +kernel
  have fits := length.trans (tenTo_mono (show 3 ≤ digitLimit by decide))
  have found : failingFiles "a" = .file (fileOctets failingText) := rfl
  obtain ⟨content, -, created, alike⟩ := stored_runs_alike found encodes nonblank read fits rfl asksRun
    asksEmit asksLoad nestingLimit
  exact ⟨asksRun, asksEmit, asksLoad, content, created, alike⟩

end CommandLine
end Primer
