import Primer.Fault
import Primer.Text.Blank
import Primer.Text.Digit
import Primer.Text.Quoted

/-! Powers of the two bases in use, and whole numbers as text. A literal is an optional
sign and ASCII digits and nothing else. Stored programs may write numbers more freely:
blanks around them, digits of any script and single underscores between digits. Neither
reading nor writing goes beyond `digitLimit` digits. -/
namespace Primer

def twoTo (n : Nat) : Nat := Nat.pow 2 n
def tenTo (n : Nat) : Nat := Nat.pow 10 n

def digitLimit : Nat := 4300

def isDigit (c : Char) : Bool := decide ('0' ≤ c) && decide (c ≤ '9')

/-- The value of ASCII digits, read from the left. -/
def digitsValue (digits : List Char) : Nat := Nat.ofDigitChars 10 digits 0

/-- The sign of a literal (true for minus) and what follows it. -/
def splitSign : List Char → Bool × List Char
  | '-' :: cs => (true, cs)
  | '+' :: cs => (false, cs)
  | cs => (false, cs)

def signed (negative : Bool) (n : Nat) : Int := if negative then -(n : Int) else n

/-- Reads a literal. A text of another form is no number, which is not a fault. -/
def readWhole (s : List Char) : Except Fault (Option Int) :=
  let (negative, digits) := splitSign s
  if !digits.isEmpty && digits.all isDigit then
    if digits.length ≤ digitLimit then .ok (some (signed negative (digitsValue digits)))
    else .error (.literalTooLong digits.length)
  else .ok none

/-- Writes a number in decimal. -/
def writeWhole (n : Int) : Except Fault String :=
  if n.natAbs < tenTo digitLimit then .ok (toString n) else .error .numberTooLong

/-- Blanks allowed around a freely written number: all but four ASCII separators. -/
def isMargin (c : Char) : Bool := isBlank c && !(decide (0x1c ≤ c.toNat) && decide (c.toNat ≤ 0x1f))

/-- The run of digits and underscores that a freely written number starts with,
as digit values with `none` for an underscore, and the text after the run. -/
def looseRun : List Char → List (Option Nat) × List Char
  | [] => ([], [])
  | c :: cs =>
    if c = '_' then let (run, rest) := looseRun cs; (none :: run, rest)
    else match digitValue? c with
      | some d => let (run, rest) := looseRun cs; (some d :: run, rest)
      | none => ([], c :: cs)

/-- Underscores stand one at a time between digits. -/
def wellSpaced : List (Option Nat) → Bool
  | [some _] => true
  | some _ :: none :: run => wellSpaced run
  | some _ :: run => wellSpaced run
  | _ => false

/-- Reads a freely written number. The digit limit is checked before the text
after the digits. A fault shows the start of a text that is no number. -/
def readLoose (s : String) : Except Fault Int :=
  let bad := Fault.notWhole (String.ofList ((quoteChars s.toList).take 200))
  let (negative, body) := splitSign (s.toList.dropWhile isMargin)
  let (run, rest) := looseRun body
  let digits := run.filterMap id
  if !wellSpaced run then .error bad
  else if digitLimit < digits.length then .error (.literalTooLong digits.length)
  else if !rest.all isMargin then .error bad
  else .ok (signed negative (digits.foldl (fun n d => 10 * n + d) 0))

end Primer
