import Primer.Text.Digit
import Primer.Text.Quoted

/-! The words of a command line as options. Long options may be shortened while
they stay unambiguous, values may be attached with an equals sign, and short
options may be joined, with or without the sign. After a lone `--` every word is
plain. -/
namespace Primer.CommandLine

inductive Flag
  | help | verbose | version | emit | load
  deriving DecidableEq, Repr

namespace Flag

def spellings : List (String × Flag) :=
  [("-h", help), ("--help", help), ("-v", verbose), ("--version", version),
   ("--emit-ast", emit), ("--ast", load)]

/-- All spellings of a flag, as messages name it. -/
def label : Flag → String
  | help => "-h/--help"
  | verbose => "-v"
  | version => "--version"
  | emit => "--emit-ast"
  | load => "--ast"

def ofSpelling? (s : List Char) : Option Flag := spellings.lookup (String.ofList s)

end Flag

/-- Reasons to stop before any work is done. -/
inductive Stop
  | help
  | version
  | misuse (message : String)
  deriving DecidableEq, Repr

/-- A word of the command line, by its form. -/
inductive Word
  | plain (text : String)
  /-- A lone `--`. -/
  | divider
  /-- A flag, with the value attached to it by an equals sign. -/
  | flag (f : Flag) (value : Option String)
  /-- A short flag, and the characters joined to it. -/
  | joined (f : Flag) (tail : List Char)
  | unknown (text : String)
  deriving DecidableEq, Repr

def Word.isOption : Word → Bool
  | .flag .. | .joined .. | .unknown _ => true
  | .plain _ | .divider => false

def Word.text : Word → String
  | .plain text | .unknown text => text
  | .divider => "--"
  | .flag f _ | .joined f _ => f.label

/-- A text up to its first equals sign, and what follows the sign. -/
def splitEquals (s : List Char) : List Char × Option String :=
  match s.span (· != '=') with
  | (name, _ :: value) => (name, some (String.ofList value))
  | (name, []) => (name, none)

/-- Negative numbers are not options. A newline may end one. -/
def looksNegative (s : List Char) : Bool :=
  match s with
  | '-' :: body =>
    let body := if body.getLast? = some '\n' then body.dropLast else body
    let isDecimal (c : Char) : Bool := (digitValue? c).isSome
    let after := body.dropWhile isDecimal
    (!body.isEmpty && after.isEmpty) ||
      (match after with
        | '.' :: digits => !digits.isEmpty && digits.all isDecimal
        | _ => false)
  | _ => false

/-- The flags a shortened word may stand for, with their spellings. -/
def candidates (s : List Char) : List (String × Word) :=
  match s with
  | '-' :: '-' :: _ =>
    let (name, value) := splitEquals s
    (Flag.spellings.filter fun entry => name.isPrefixOf entry.1.toList).map
      fun entry => (entry.1, .flag entry.2 value)
  | _ =>
    (Flag.spellings.filter fun entry => decide (entry.1.toList = s.take 2)).map
      fun entry => (entry.1, .joined entry.2 (s.drop 2))

/-- A flag with a text after its equals sign. To a short flag the text is joined. -/
def attached (name : List Char) (f : Flag) (value : String) : Word :=
  if name.length = 2 && !value.isEmpty then .joined f value.toList else .flag f (some value)

def classify (s : List Char) : Except Stop Word :=
  let plain := Word.plain (String.ofList s)
  if s.head? ≠ some '-' || s.length = 1 then .ok plain
  else match Flag.ofSpelling? s, splitEquals s with
    | some f, _ => .ok (.flag f none)
    | none, (name, value) =>
      match Flag.ofSpelling? name, value with
      | some f, some value => .ok (attached name f value)
      | _, _ =>
        match candidates s with
        | [(_, word)] => .ok word
        | [] =>
          if looksNegative s || s.contains ' ' then .ok plain else .ok (.unknown (String.ofList s))
        | many => .error (.misuse ("ambiguous option: " ++ String.ofList s ++ " could match " ++
            ", ".intercalate (many.map (·.1))))

def classifyAll : List String → Except Stop (List Word)
  | [] => .ok []
  | arg :: args =>
    if arg = "--" then .ok (.divider :: args.map .plain)
    else do return (← classify arg.toList) :: (← classifyAll args)

structure Options where
  verbosity : Nat := 0
  emit : Option String := none
  load : Option String := none
  program : Option String := none
  deriving Repr

/-- Options so far, whether the program word has been taken, and words that have
no use. -/
structure State where
  options : Options := {}
  taken : Bool := false
  extras : List String := []

def misuseOf (f : Flag) (problem : String) : Except Stop α :=
  .error (.misuse ("argument " ++ f.label ++ ": " ++ problem))

def ignored (f : Flag) (value : String) : Except Stop α :=
  misuseOf f ("ignored explicit argument " ++ quoted value)

/-- The flags of a joined word. Each of its characters has to name a short flag. -/
def joinedFlags (f : Flag) : List Char → Except Stop (List Flag)
  | [] => .ok [f]
  | c :: cs =>
    match Flag.ofSpelling? ['-', c] with
    | none => ignored f (String.ofList (c :: cs))
    | some g => do return f :: (← joinedFlags g cs)

/-- Takes a flag that has no value. -/
def State.take (st : State) (f : Flag) : Except Stop State :=
  match f with
  | .help => .error .help
  | .version => .error .version
  | _ => .ok { st with options := { st.options with verbosity := st.options.verbosity + 1 } }

def State.takeAll (st : State) : List Flag → Except Stop State
  | [] => .ok st
  | f :: fs => do (← st.take f).takeAll fs

/-- Gives a flag its value. The two flags that have one exclude each other. A lone
`--` is an empty value. -/
def State.give (st : State) (f : Flag) (value : String) : Except Stop State :=
  let value := if value = "--" then "" else value
  match f with
  | .emit =>
    if st.options.load.isSome then misuseOf .emit ("not allowed with argument " ++ Flag.load.label)
    else .ok { st with options := { st.options with emit := some value } }
  | _ =>
    if st.options.emit.isSome then misuseOf .load ("not allowed with argument " ++ Flag.emit.label)
    else .ok { st with options := { st.options with load := some value } }

def State.useless (st : State) (words : List String) : State := { st with extras := st.extras ++ words }

def State.setProgram (st : State) (text : String) : State :=
  { st with options := { st.options with program := some text }, taken := true }

/-- The words after the last option. The first plain one is the program, and a
divider next to it is dropped. -/
def State.finish (st : State) (words : List Word) : State :=
  if st.taken then st.useless (words.map Word.text)
  else match words with
    | .divider :: .plain text :: rest => (st.setProgram text).useless (rest.map Word.text)
    | .plain text :: .divider :: rest => (st.setProgram text).useless (rest.map Word.text)
    | .plain text :: rest => (st.setProgram text).useless (rest.map Word.text)
    | .divider :: rest => st.useless (rest.map Word.text)
    | rest => st.useless (rest.map Word.text)

def consume (st : State) : List Word → Except Stop State
  | [] => .ok st
  | .flag .emit none :: .plain value :: rest => do consume (← st.give .emit value) rest
  | .flag .load none :: .plain value :: rest => do consume (← st.give .load value) rest
  | .flag .emit none :: _ => misuseOf .emit "expected one argument"
  | .flag .load none :: _ => misuseOf .load "expected one argument"
  | .flag .emit (some value) :: rest => do consume (← st.give .emit value) rest
  | .flag .load (some value) :: rest => do consume (← st.give .load value) rest
  | .flag f (some value) :: _ => ignored f value
  | .flag f none :: rest => do consume (← st.take f) rest
  | .joined f tail :: rest => do
    let st ← st.takeAll (← joinedFlags f tail)
    consume st rest
  | .unknown text :: rest => consume (st.useless [text]) rest
  | .plain text :: rest =>
    if !rest.any Word.isOption then .ok (st.finish (.plain text :: rest))
    else if st.taken then consume (st.useless [text]) rest
    else consume (st.setProgram text) rest
  | .divider :: rest => .ok (st.finish (.divider :: rest))

/-- Reads the words of a command line. -/
def Options.parse (args : List String) : Except Stop Options := do
  let st ← consume {} (← classifyAll args)
  if st.extras.isEmpty then return st.options
  else .error (.misuse ("unrecognized arguments: " ++ " ".intercalate st.extras))

end Primer.CommandLine
