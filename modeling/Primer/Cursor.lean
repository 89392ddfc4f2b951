import Primer.Text.Blank

/-! Reading a source from the left. A cursor is the text that is left and the
number of characters before it; no reading looks back. -/
namespace Primer

structure Cursor where
  pos : Nat
  rest : List Char
  deriving DecidableEq, Repr

/-- The characters that end a command or a name, blanks apart. -/
def isWordStop (c : Char) : Bool := isBlank c || c == '(' || c == '{' || c == '}'

/-- The rest of a line. In a block, a closing brace that no brace opened on the
same line also ends it; `depth` counts the braces open so far. -/
def lineSegment (inBlock : Bool) : Nat → List Char → List Char
  | _, [] => []
  | depth, c :: cs =>
    if c = '\n' then []
    else if inBlock && c == '{' then c :: lineSegment inBlock (depth + 1) cs
    else if inBlock && c == '}' then
      match depth with
      | 0 => []
      | depth + 1 => c :: lineSegment inBlock depth cs
    else c :: lineSegment inBlock depth cs

/-- The text before the first occurrence of a character, and the text after it. -/
def splitAtFirst (ch : Char) : List Char → Option (List Char × List Char)
  | [] => none
  | c :: cs =>
    if c = ch then some ([], cs)
    else (splitAtFirst ch cs).map fun (before, after) => (c :: before, after)

namespace Cursor

def start (source : List Char) : Cursor := ⟨0, source⟩

def atEnd (c : Cursor) : Bool := c.rest.isEmpty

def peek (c : Cursor) : Option Char := c.rest.head?

/-- Moves on, but not past the end. -/
def advance (c : Cursor) (n : Nat) : Cursor := ⟨c.pos + min n c.rest.length, c.rest.drop n⟩

/-- Moves on, or back if the number is negative, but not out of the source. -/
def move (source : List Char) (c : Cursor) : Int → Cursor
  | .ofNat n => c.advance n
  | .negSucc n => ⟨c.pos - (n + 1), source.drop (c.pos - (n + 1))⟩

def skipWhile (p : Char → Bool) (c : Cursor) : Cursor :=
  ⟨c.pos + (c.rest.takeWhile p).length, c.rest.dropWhile p⟩

def skipBlanks (c : Cursor) : Cursor := c.skipWhile isBlank
def skipInlineBlanks (c : Cursor) : Cursor := c.skipWhile isInlineBlank

/-- The longest run of characters that can form a command or a name. -/
def word (c : Cursor) : List Char := c.rest.takeWhile fun ch => !isWordStop ch
def afterWord (c : Cursor) : Cursor := c.skipWhile fun ch => !isWordStop ch

/-- The word after any blanks. -/
def nextWord (c : Cursor) : List Char := c.skipBlanks.word

def line (c : Cursor) (inBlock : Bool) : List Char := lineSegment inBlock 0 c.rest
def lineEnd (c : Cursor) (inBlock : Bool) : Nat := c.pos + (c.line inBlock).length
def afterLine (c : Cursor) (inBlock : Bool) : Cursor := c.advance (c.line inBlock).length

/-- The text before the next occurrence of a character, and the cursor at it. -/
def upTo (c : Cursor) (ch : Char) : Option (List Char × Cursor) :=
  (splitAtFirst ch c.rest).map fun (before, _) => (before, c.advance before.length)

end Cursor

/-- The place of a bound in a text of a length: a negative bound counts from the end. -/
def sliceBound (length : Nat) (bound : Int) : Nat :=
  if 0 ≤ bound then min bound.toNat length else (bound + length).toNat

/-- Where a pattern first occurs in a text, counting from `index`. -/
def occurrence (pattern : List Char) : Nat → List Char → Option Nat
  | index, [] => if pattern.isEmpty then some index else none
  | index, c :: cs =>
    if pattern.isPrefixOf (c :: cs) then some index else occurrence pattern (index + 1) cs

/-- Where a pattern first occurs between two bounds of a source. -/
def findBetween (source pattern : List Char) (first last : Int) : Option Nat :=
  let stop := sliceBound source.length last
  if 0 ≤ first && decide (stop < first.toNat) then none
  else
    let first := sliceBound source.length first
    if stop < first then none
    else occurrence pattern first ((source.take stop).drop first)

end Primer
