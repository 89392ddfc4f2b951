import Primer.CommandLine.FileTree
import Primer.CommandLine.Options
import Primer.Json.Reader
import Primer.Json.Writer
import Primer.Node.Stored
import Primer.Run
import Primer.Text.Utf8

/-! The command: run a program, store it, or run a stored one. What the command
reads is given to it as entries and what it writes is its result, so that a run of
the command is a function of its words and of what its paths lead to. -/
namespace Primer.CommandLine

def versionText : String := "KinderScript version 1.2.0\n"

def linesText (lines : List String) : String := String.join (lines.map (· ++ "\n"))

def usageText : String := linesText [
  "usage: kinderscript [-h] [-v] [--version]",
  "                    [--emit-ast KINDER_FILE | --ast AST_JSON_FILE]",
  "                    [program]"]

def helpText : String := usageText ++ linesText [
  "",
  "KinderScript language interpreter",
  "",
  "positional arguments:",
  "  program               KinderScript program file (.kinder) to execute",
  "",
  "options:",
  "  -h, --help            show this help message and exit",
  "  -v                    increase debug verbosity (can be repeated)",
  "  --version             show program's version number and exit",
  "  --emit-ast KINDER_FILE",
  "                        emit AST JSON for the given .kinder file",
  "  --ast AST_JSON_FILE   execute AST from a JSON file"]

/-- What a command has done. -/
structure Result where
  /-- The exit status, unless a fault ended the command. -/
  status : Except Fault Nat
  stdout : String := ""
  stderr : String := ""
  /-- The files written, with their content. -/
  created : List (String × String) := []

def Result.error (message : String) : Result :=
  { status := .ok 1, stderr := "Error: " ++ message ++ "\n" }

def Result.misuse (message : String) : Result :=
  { status := .ok 2, stderr := usageText ++ "kinderscript: error: " ++ message ++ "\n" }

def Stop.result : Stop → Result
  | .help => { status := .ok 0, stdout := helpText }
  | .version => { status := .ok 0, stdout := versionText }
  | .misuse message => .misuse message

inductive Task
  | run (path : String)
  /-- Store the program of a file. -/
  | emit (path : String)
  /-- Run a stored program. -/
  | load (path : String)
  deriving DecidableEq, Repr

def Task.path : Task → String
  | .run path | .emit path | .load path => path

/-- The path at which the program of a file is stored. -/
def storedPath (path : String) : String := path ++ ".ast.json"

/-- The file that a task writes besides its trace. -/
def Task.target? : Task → Option String
  | .emit path => some (storedPath path)
  | .run _ | .load _ => none

/-- What the options ask for. An empty value counts as none. -/
def Options.task (o : Options) : Except Stop Task :=
  let given (value : Option String) : Option String :=
    (value.filter fun v => !v.isEmpty).map plainPath
  match given o.emit, given o.load, given o.program with
  | some path, _, _ => .ok (.emit path)
  | none, some path, _ => .ok (.load path)
  | none, none, some path => .ok (.run path)
  | none, none, none => .error (.misuse "missing program file; or use --emit-ast/--ast")

/-- The number of blanks that a file's text starts with. -/
def leading (text : List Char) : Nat := text.length - (trimStart text).length

/-- A diagnostic of the trimmed program, placed in the whole text. The context is
made anew from it. -/
def placedIn (text : List Char) (d : Diagnostic) : Report :=
  match d.report with
  | ⟨name, message, .int offset, _⟩ => ⟨name, message, .int (offset + leading text), none⟩
  | r => r

def reportText (d : Diagnostic) : Option (List Char) → String
  | some text => (placedIn text d).format (some text)
  | none => d.report.format none

/-- The result of a run, its program being read from a text if one is given. -/
def finish (verbosity : Nat) (text : Option (List Char)) (r : Run) : Result :=
  let base : Result := {
    status := .ok 0
    stdout := linesText r.lines
    created :=
      if 0 < verbosity && r.started then
        [("debug.txt", linesText r.messages)]
      else [] }
  match r.failure with
  | none => base
  | some (.diagnostic d) =>
    { base with status := .ok 1, stderr := "Error: " ++ reportText d text ++ "\n" }
  | some .tooDeep =>
    { base with
      status := .ok 1
      stderr := "Error: RecursionError: program recursed too deeply\n" }
  | some (.fault f) => { base with status := .error f }

def blankMessage (path : String) : String :=
  "file " ++ path ++ " is empty or contains only whitespace"

/-- Reads the program of a file and goes on with it. -/
def withProgram (path : String) (octets : List UInt8) (next : List Char → Node → Result) : Result :=
  match decodeOctets octets with
  | .error f => { status := .error f }
  | .ok decoded =>
    let text := unifyNewlines decoded
    if (trim text).isEmpty then .error (blankMessage path)
    else match parse (trim text) with
      | .ok program => next text program
      | .error (.diagnostic d) => .error (reportText d (some text))
      | .error (.fault f) => { status := .error f }
      | .error .tooDeep => .error "program nested too deeply"

/-- Faults in a stored program that are reported; all others end the command. -/
def isReported (f : Fault) : Bool :=
  match f.family with
  | .sort | .value | .field | .encoding => true
  | _ => false

def readStored (octets : List UInt8) : Except Fault Node := do
  let text := unifyNewlines (← decodeOctets octets)
  Node.load (← Json.read text)

/-- The result of storing a program at a path, given what the path leads to. -/
def storeAt (path : String) (entry : Entry) (program : Node) : Result :=
  match entry.fault? path with
  | some f => { status := .error f }
  | none => {
    status := .ok 0
    stdout := path ++ "\n"
    created := [(path, Json.write program.store)] }

def Task.perform (verbosity limit : Nat) (octets : List UInt8) (look : String → Entry) :
    Task → Result
  | .run path => withProgram path octets fun text program =>
    finish verbosity (some text) (runNode verbosity limit program)
  | .emit path => withProgram path octets fun _ program =>
    storeAt (storedPath path) (look (storedPath path)) program
  | .load path =>
    match readStored octets with
    | .ok program => finish verbosity none (runNode verbosity limit program)
    | .error f =>
      if isReported f then .error ("invalid AST file " ++ path ++ ": " ++ f.message)
      else { status := .error f }

/-- Runs the command on its words, given what paths lead to. -/
def run (limit : Nat) (args : List String) (look : String → Entry) : Result :=
  match Options.parse args with
  | .error stop => stop.result
  | .ok options =>
    match options.task with
    | .error stop => stop.result
    | .ok task =>
      match look task.path with
      | .missing => .error ("file " ++ task.path ++ " not found")
      | .file octets => task.perform options.verbosity limit octets look
      | .directory => { status := .error (.notAFile task.path) }
      | .tooLong => { status := .error (.nameTooLong task.path) }

end Primer.CommandLine
