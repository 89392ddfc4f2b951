import Primer.Text.Blank

/-! Places in a source text. An offset counts characters from the start; lines
and columns count from one, and only a newline ends a line. -/
namespace Primer

structure Place where
  line : Nat
  column : Nat
  deriving DecidableEq, Repr

/-- The nearest offset that lies in the source, its end included. -/
def clampOffset (source : List Char) (offset : Int) : Nat := min offset.toNat source.length

/-- The place just after a text. -/
def placeAfter (before : List Char) : Place where
  line := before.count '\n' + 1
  column := (before.reverse.takeWhile (· != '\n')).length + 1

def placeOf (source : List Char) (offset : Int) : Place :=
  placeAfter (source.take (clampOffset source offset))

def isNewline (c : Char) : Bool := c == '\n'

/-- The lines of a source, without the newlines between them. -/
def linesOf (source : List Char) : List (List Char) := cut isNewline source

/-- A line without the carriage returns that end it. -/
def dropReturns (line : List Char) : List Char := (line.reverse.dropWhile (· == '\r')).reverse

/-- The number of a line, right-aligned in four columns, and a colon. -/
def lineLabel (line : Nat) : List Char :=
  let digits := Nat.toDigits 10 line
  List.replicate (4 - digits.length) ' ' ++ digits ++ [':', ' ']

/-- The line an offset lies in, and a caret under the character there. -/
def snippetChars (source : List Char) (offset : Int) : List Char :=
  let place := placeOf source offset
  let label := lineLabel place.line
  let line := ((linesOf source)[place.line - 1]?).getD []
  label ++ dropReturns line ++ '\n' :: List.replicate (label.length + place.column - 1) ' ' ++ ['^']

def snippet (source : List Char) (offset : Int) : String :=
  String.ofList (snippetChars source offset)

end Primer
