import Primer.Cursor
import Primer.Datum.Value
import Primer.Report
import Primer.Node

/-! Reading programs. There is no separate tokenizer: a word at the start of a
statement says how much text the statement needs, and what is left over starts
the next one. Statements nest only through blocks, so each reader takes the
reader of nested statements as an argument. -/
namespace Primer

/-- Why a source is not a program. -/
inductive Rejection
  | problem (p : Problem) (offset : Nat)
  | fault (f : Fault)
  /-- More nesting than the given bound. -/
  | exhausted
  deriving Repr

abbrev Reading := Except Rejection

/-- A reader of statements at a number of enclosing blocks. A reader gives what it
read and the cursor after it. -/
abbrev StatementReader := Nat → Cursor → Reading (Node × Cursor)

def reject (p : Problem) (offset : Nat) : Reading α := .error (.problem p offset)

def orFault (r : Except Fault α) : Reading α := r.mapError .fault

def atOffset (pos : Nat) : Datum := .int pos
def textOf (s : List Char) : Datum := .text (String.ofList s)

/-- The commands, as a statement's first word names them. -/
inductive Command
  | say | define | call | loop | branch | assign
  | math (op : Operator)
  deriving DecidableEq, Repr

/-- The command of a word in any case. An operator is one only before a parenthesis. -/
def Command.ofWord? (word : List Char) (next : Option Char) : Option Command :=
  match String.ofList (lower word) with
  | "say" => some .say
  | "function" => some .define
  | "call" => some .call
  | "repeat" => some .loop
  | "if" => some .branch
  | "set" => some .assign
  | name => if next = some '(' then (Operator.ofName? name).map .math else none

/-- The statements up to the closing brace of a block, `bound` of them at most. -/
def readUntilClose (read : Cursor → Reading (Node × Cursor)) (opened : Nat) :
    Nat → Cursor → Reading (List Node × Cursor)
  | 0, _ => .error .exhausted
  | bound + 1, c =>
    let c := c.skipBlanks
    match c.peek with
    | none => reject .unclosedBlock opened
    | some '}' => .ok ([], c.advance 1)
    | some _ => do
      let (node, c) ← read c
      let (nodes, c) ← readUntilClose read opened bound c
      return (node :: nodes, c)

/-- A block, from its opening brace on. -/
def readBlock (read : StatementReader) (depth : Nat) (c : Cursor) : Reading (Node × Cursor) := do
  let (nodes, after) ← readUntilClose (read (depth + 1)) c.pos (c.rest.length + 1) (c.advance 1)
  return (.block nodes (atOffset c.pos), after)

def expectBlock (read : StatementReader) (what : String) (depth : Nat) (c : Cursor) :
    Reading (Node × Cursor) :=
  let c := c.skipBlanks
  if c.peek = some '{' then readBlock read depth c else reject (.missingBlock what) c.pos

/-- A list of entries between parentheses, from the opening one on. -/
def readEntries (what : String) (c : Cursor) : Reading (List (List Char) × Cursor) :=
  match c.upTo ')' with
  | none => reject (.unclosedList what) c.pos
  | some (text, close) =>
    let inner := text.drop 1
    if (trim inner).isEmpty then .ok ([], close.advance 1)
    else
      let entries := (cut (· == ',') inner).map trim
      if entries.any (·.isEmpty) then reject (.emptyEntry what) c.pos
      else .ok (entries, close.advance 1)

def readSay (depth start : Nat) (c : Cursor) : Reading (Node × Cursor) :=
  let c := c.skipInlineBlanks
  let inBlock := decide (0 < depth)
  .ok (.say (textOf (trim (c.line inBlock))) (atOffset start), c.afterLine inBlock)

/-- The parameters of a definition, between parentheses or up to the body. -/
def readParams (name : List Char) (c : Cursor) : Reading (List (List Char) × Cursor) :=
  if c.peek = some '(' then
    readEntries ("definition of function '" ++ String.ofList name ++ "'") c
  else match c.upTo '{' with
    | none => reject (.missingBody (String.ofList name)) c.pos
    | some (text, body) => .ok (words text, body)

def readDefine (read : StatementReader) (depth start : Nat) (c : Cursor) : Reading (Node × Cursor) :=
  let c := c.skipInlineBlanks
  let name := c.word
  if name.isEmpty then reject .unnamedFunction c.pos
  else do
    let (entries, c) ← readParams name c.afterWord.skipInlineBlanks
    let params := entries.map dropDollar
    if params.any (·.isEmpty) then reject (.unnamedParameter (String.ofList name)) start
    else
      let (body, c) ←
        expectBlock read ("body of function '" ++ String.ofList name ++ "'") depth c
      return (.define (textOf name) (params.map textOf) body (atOffset start), c)

def readCall (depth start : Nat) (c : Cursor) : Reading (Node × Cursor) :=
  let c := c.skipInlineBlanks
  let name := c.word
  if name.isEmpty then reject .unnamedCall c.pos
  else
    let c := c.afterWord.skipInlineBlanks
    if c.peek = some '(' then do
      let (args, c) ← readEntries ("call to '" ++ String.ofList name ++ "'") c
      return (.call (textOf name) (args.map textOf) (atOffset start), c)
    else
      let inBlock := decide (0 < depth)
      let args := words (trim (c.line inBlock))
      .ok (.call (textOf name) (args.map textOf) (atOffset start), c.afterLine inBlock)

def readLoop (read : StatementReader) (depth start : Nat) (c : Cursor) : Reading (Node × Cursor) := do
  let c := c.skipInlineBlanks
  match ← orFault (readWhole c.word) with
  | none => reject (.badCount (String.ofList c.word)) c.pos
  | some count =>
    let (body, c) ← expectBlock read "repeat" depth c.afterWord
    return (.loop count body (atOffset start), c)

/-- A conditional, from the text after its keyword on, with at most `bound`
further conditionals after an `else`. -/
def readBranch (read : StatementReader) (depth : Nat) :
    Nat → Nat → Cursor → Reading (Node × Cursor)
  | 0, _, _ => .error .exhausted
  | bound + 1, start, c => do
    let c := c.skipInlineBlanks
    match c.upTo '{' with
    | none => reject .missingBranch c.pos
    | some (text, brace) =>
      let condition := trim text
      if condition.isEmpty then reject .missingCondition c.pos
      else
        let (yes, c) ← readBlock read depth brace
        if lower c.nextWord = ['e', 'l', 's', 'e'] then
          let c := c.skipBlanks.afterWord
          if lower c.nextWord = ['i', 'f'] then
            let c := c.skipBlanks
            let (no, after) ← readBranch read depth bound c.pos c.afterWord
            return (.branch (textOf condition) yes no (atOffset start), after)
          else
            let (no, after) ← expectBlock read "else" depth c
            return (.branch (textOf condition) yes no (atOffset start), after)
        else return (.branch (textOf condition) yes .missing (atOffset start), c)

def readAssign (depth start : Nat) (c : Cursor) : Reading (Node × Cursor) :=
  let c := c.skipInlineBlanks
  let inBlock := decide (0 < depth)
  match splitAtFirst '=' (c.line inBlock) with
  | none => reject .missingEquals start
  | some (before, _) =>
    let name := dropDollar (trim before)
    if name.isEmpty then reject .missingVariable start
    else do
      let c := c.advance (before.length + 1)
      let value ← orFault (literal (trim (c.line inBlock)))
      return (.assign (textOf name) value (atOffset start), c.afterLine inBlock)

/-- The operands among the entries of a list, the first entry starting at `pos`. -/
def readOperands (op : Operator) : Nat → List (List Char) → Reading (List Int)
  | _, [] => .ok []
  | pos, entry :: entries =>
    let token := trim entry
    if token.isEmpty then readOperands op (pos + entry.length + 1) entries
    else do
      match ← orFault (readWhole token) with
      | none => reject (.badOperand op (String.ofList token)) (pos + (entry.takeWhile isBlank).length)
      | some n => return n :: (← readOperands op (pos + entry.length + 1) entries)

/-- An arithmetic command, from its opening parenthesis on. -/
def readMath (op : Operator) (keyword : List Char) (start : Nat) (c : Cursor) :
    Reading (Node × Cursor) :=
  match c.upTo ')' with
  | none => reject (.unclosedOperands op) c.pos
  | some (text, close) => do
    let operands ← readOperands op (c.pos + 1) (cut (· == ',') (text.drop 1))
    if operands.isEmpty then reject (.noOperands op) start
    else return (.math op operands (textOf keyword) (atOffset start), close.advance 1)

/-- One statement, given a reader of the statements nested in it. -/
def readStatementWith (read : StatementReader) : StatementReader := fun depth c =>
  let c := c.skipBlanks
  let start := c.pos
  match c.peek with
  | some '{' => readBlock read depth c
  | some '}' => reject .strayClose start
  | next =>
    let word := c.word
    if word.isEmpty then reject (.noCommand (String.ofList next.toList)) start
    else
      let c := c.afterWord
      match Command.ofWord? word c.peek with
      | some .say => readSay depth start c
      | some .define => readDefine read depth start c
      | some .call => readCall depth start c
      | some .loop => readLoop read depth start c
      | some .branch => readBranch read depth (c.rest.length + 1) start c
      | some .assign => readAssign depth start c
      | some (.math op) => readMath op word start c
      | none => reject (.unknownCommand (String.ofList word)) start

/-- One statement in which blocks nest less deep than a bound. -/
def readStatement : Nat → StatementReader
  | 0 => fun _ _ => .error .exhausted
  | bound + 1 => readStatementWith (readStatement bound)

/-- The statements up to the end, `bound` of them at most. -/
def readUntilEnd (read : Cursor → Reading (Node × Cursor)) : Nat → Cursor → Reading (List Node)
  | 0, _ => .error .exhausted
  | bound + 1, c =>
    let c := c.skipBlanks
    if c.atEnd then .ok []
    else do
      let (node, c) ← read c
      return node :: (← readUntilEnd read bound c)

/-- The statements of a source. A bound of one more than the length is never
reached: a nested block and a statement each take a character. -/
def readBody (source : List Char) : Reading (List Node) :=
  readUntilEnd (readStatement (source.length + 1) 0) (source.length + 1) (.start source)

def Rejection.failure (source : List Char) : Rejection → Failure
  | .problem p offset => .diagnostic ⟨p, atOffset offset, some (snippet source offset)⟩
  | .fault f => .fault f
  | .exhausted => .tooDeep

/-- Reads a program. A diagnostic comes with a snippet of the source. -/
def parse (source : List Char) : Except Failure Node :=
  match readBody source with
  | .ok body => .ok (.program body)
  | .error r => .error (r.failure source)

end Primer
