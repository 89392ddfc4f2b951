/-! Blank characters, and the cuts made at them. Text is scanned as a list of
characters, so every length and offset counts characters. -/
namespace Primer

/- The closed ranges of code points that count as blank. The zero-width space
and the byte order mark are not among them. -/
def blankRanges : List (Nat × Nat) :=
  [(0x9, 0xd), (0x1c, 0x20), (0x85, 0x85), (0xa0, 0xa0), (0x1680, 0x1680), (0x2000, 0x200a),
   (0x2028, 0x2029), (0x202f, 0x202f), (0x205f, 0x205f), (0x3000, 0x3000)]

def isBlank (c : Char) : Bool :=
  blankRanges.any fun r => decide (r.1 ≤ c.toNat) && decide (c.toNat ≤ r.2)

/-- Blanks that separate words without ending a line. -/
def isInlineBlank (c : Char) : Bool :=
  c == ' ' || c == '\t' || c == '\r' || c == '\x0c' || c == '\x0b'

def trimStart (s : List Char) : List Char := s.dropWhile isBlank
def trimEnd (s : List Char) : List Char := (s.reverse.dropWhile isBlank).reverse
def trim (s : List Char) : List Char := trimEnd (trimStart s)

/-- Cuts a text at every separator. The pieces are one more than the
separators, so the empty text gives one empty piece. -/
def cut (separates : Char → Bool) : List Char → List (List Char)
  | [] => [[]]
  | c :: cs =>
    if separates c then [] :: cut separates cs
    else match cut separates cs with
      | [] => [[c]]
      | piece :: pieces => (c :: piece) :: pieces

/-- The maximal runs of characters that are not blank. -/
def words (s : List Char) : List (List Char) :=
  (cut isBlank s).filter fun w => !w.isEmpty

/-- ASCII lower case. No keyword is the lower case of a non-ASCII letter. -/
def lower (s : List Char) : List Char := s.map Char.toLower

end Primer
