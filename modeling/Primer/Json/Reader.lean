import Primer.Cursor
import Primer.Datum
import Primer.Position

/-! JSON text as data. Numbers without fraction and exponent are integers; `NaN`
and the infinities are numbers too. A name given twice in an object has its last
value. Problems are reported at the first character that cannot be right. -/
namespace Primer.Json

inductive Rejection
  | problem (text : String) (pos : Nat)
  | fault (f : Fault)
  /-- More nesting than the given bound. -/
  | exhausted

abbrev Reading := Except Rejection

def reject (text : String) (pos : Nat) : Reading α := .error (.problem text pos)

def isGap (c : Char) : Bool := c == ' ' || c == '\t' || c == '\n' || c == '\r'

def skipGap (c : Cursor) : Cursor := c.skipWhile isGap

def hexDigit? (c : Char) : Option Nat :=
  if '0' ≤ c && c ≤ '9' then some (c.toNat - '0'.toNat)
  else if 'a' ≤ c && c ≤ 'f' then some (c.toNat - 'a'.toNat + 10)
  else if 'A' ≤ c && c ≤ 'F' then some (c.toNat - 'A'.toNat + 10)
  else none

def hexUnit? (a b c d : Char) : Option Nat := do
  return (((← hexDigit? a) * 16 + (← hexDigit? b)) * 16 + (← hexDigit? c)) * 16 + (← hexDigit? d)

def isHighUnit (n : Nat) : Bool := 0xd800 ≤ n && n ≤ 0xdbff
def isLowUnit (n : Nat) : Bool := 0xdc00 ≤ n && n ≤ 0xdfff

/-- A unit on its own. Half of a pair stands for no character. -/
def unitChar (n : Nat) : Char := if isHighUnit n || isLowUnit n then '\ufffd' else Char.ofNat n

def escaped? (c : Char) : Option Char :=
  match c with
  | '"' => some '"'
  | '\\' => some '\\'
  | '/' => some '/'
  | 'b' => some '\x08'
  | 'f' => some '\x0c'
  | 'n' => some '\n'
  | 'r' => some '\r'
  | 't' => some '\t'
  | _ => none

def badUnit : String := "Invalid \\uXXXX escape"

/-- The characters of a string up to its closing quote, from position `pos` on. -/
def stringFrom (opened : Nat) : Nat → List Char → Reading (List Char × Cursor)
  | _, [] => reject "Unterminated string starting at" opened
  | pos, '"' :: cs => .ok ([], ⟨pos + 1, cs⟩)
  | _, ['\\'] => reject "Unterminated string starting at" opened
  | pos, '\\' :: 'u' :: a :: b :: c :: d :: x :: cs =>
    match hexUnit? a b c d with
    | none => reject badUnit (pos + 1)
    | some high =>
      match x, cs with
      | '\\', 'u' :: e :: f :: g :: h :: y :: rest =>
        if isHighUnit high then
          match hexUnit? e f g h with
          | none => reject badUnit (pos + 7)
          | some low =>
            if isLowUnit low then do
              let (s, after) ← stringFrom opened (pos + 12) (y :: rest)
              return (Char.ofNat (0x10000 + (high - 0xd800) * 0x400 + (low - 0xdc00)) :: s, after)
            else do
              let (s, after) ← stringFrom opened (pos + 6) ('\\' :: 'u' :: e :: f :: g :: h :: y :: rest)
              return (unitChar high :: s, after)
        else do
          let (s, after) ← stringFrom opened (pos + 6) ('\\' :: 'u' :: e :: f :: g :: h :: y :: rest)
          return (unitChar high :: s, after)
      | x, cs => do
        let (s, after) ← stringFrom opened (pos + 6) (x :: cs)
        return (unitChar high :: s, after)
  | pos, '\\' :: 'u' :: _ => reject badUnit (pos + 1)
  | pos, '\\' :: c :: cs =>
    match escaped? c with
    | none => reject "Invalid \\escape" pos
    | some e => do
      let (s, after) ← stringFrom opened (pos + 2) cs
      return (e :: s, after)
  | pos, c :: cs =>
    if c.toNat < 0x20 then reject "Invalid control character at" pos
    else do
      let (s, after) ← stringFrom opened (pos + 1) cs
      return (c :: s, after)
termination_by _ cs => cs.length

/-- A string, from its opening quote on. -/
def readString (c : Cursor) : Reading (String × Cursor) := do
  let (s, after) ← stringFrom c.pos (c.pos + 1) (c.rest.drop 1)
  return (String.ofList s, after)

def expecting (what : String) (c : Cursor) : Reading α := reject ("Expecting " ++ what) c.pos

/-- The integer digits of a number: a zero stands alone. -/
def wholePart : List Char → List Char
  | '0' :: _ => ['0']
  | cs => cs.takeWhile isDigit

/-- The digits after a point, if there are any. -/
def fractionPart : List Char → Option (List Char)
  | '.' :: cs => match cs.takeWhile isDigit with
    | [] => none
    | digits => some digits
  | _ => none

/-- The length and the value of an exponent, if there is one. -/
def exponentPart : List Char → Option (Nat × Int)
  | mark :: cs =>
    if mark == 'e' || mark == 'E' then
      let (negative, body) := splitSign cs
      match body.takeWhile isDigit with
      | [] => none
      | digits =>
        some (1 + (cs.length - body.length) + digits.length, signed negative (digitsValue digits))
    else none
  | [] => none

def readNumber (c : Cursor) : Reading (Datum × Cursor) :=
  let (negative, body) := match c.rest with
    | '-' :: cs => (true, cs)
    | cs => (false, cs)
  match wholePart body with
  | [] => expecting "value" c
  | whole =>
    let afterWhole := body.drop whole.length
    let fraction := fractionPart afterWhole
    let fractionLength := match fraction with
      | some digits => digits.length + 1
      | none => 0
    let exponent := exponentPart (afterWhole.drop fractionLength)
    let exponentLength := match exponent with
      | some (n, _) => n
      | none => 0
    let after := c.advance
      ((if negative then 1 else 0) + whole.length + fractionLength + exponentLength)
    match fraction, exponent with
    | none, none =>
      if digitLimit < whole.length then .error (.fault (.literalTooLong whole.length))
      else .ok (.int (signed negative (digitsValue whole)), after)
    | _, _ =>
      let digits := fraction.getD []
      let power : Int := (exponent.map (·.2)).getD 0
      .ok (.float (.ofDecimal negative (digitsValue (whole ++ digits)) (power - digits.length)), after)

/-- The constants, and the data they stand for. -/
def constants : List (List Char × Datum) :=
  [("null".toList, .null), ("true".toList, .bool true), ("false".toList, .bool false),
   ("NaN".toList, .float (.nan 0)), ("Infinity".toList, .float (.infinite false)),
   ("-Infinity".toList, .float (.infinite true))]

/-- Enters a field. A name that is there already keeps its place. -/
def putField (fields : List (String × Datum)) (name : String) (d : Datum) : List (String × Datum) :=
  match fields with
  | [] => [(name, d)]
  | (name', d') :: rest =>
    if name' = name then (name, d) :: rest else (name', d') :: putField rest name d

/-- A reader of values. -/
abbrev ValueReader := Cursor → Reading (Datum × Cursor)

/-- The elements of an array from the first one on, `bound` of them at most. -/
def readElements (read : ValueReader) : Nat → Cursor → Reading (List Datum × Cursor)
  | 0, _ => .error .exhausted
  | bound + 1, c => do
    let (d, c) ← read c
    let c := skipGap c
    match c.peek with
    | some ']' => return ([d], c.advance 1)
    | some ',' =>
      let (ds, c) ← readElements read bound (skipGap (c.advance 1))
      return (d :: ds, c)
    | _ => expecting "',' delimiter" c

/-- The fields of an object from the first one on, `bound` of them at most. -/
def readFields (read : ValueReader) :
    Nat → List (String × Datum) → Cursor → Reading (List (String × Datum) × Cursor)
  | 0, _, _ => .error .exhausted
  | bound + 1, fields, c => do
    if c.peek ≠ some '"' then expecting "property name enclosed in double quotes" c
    else
      let (name, c) ← readString c
      let c := skipGap c
      if c.peek ≠ some ':' then expecting "':' delimiter" c
      else
        let (d, c) ← read (skipGap (c.advance 1))
        let c := skipGap c
        let fields := putField fields name d
        match c.peek with
        | some '}' => return (fields, c.advance 1)
        | some ',' => readFields read bound fields (skipGap (c.advance 1))
        | _ => expecting "',' delimiter" c

/-- A value, given a reader of the values nested in it. -/
def readValueWith (read : ValueReader) : ValueReader := fun c =>
  match c.peek with
  | some '"' => do
    let (s, c) ← readString c
    return (.text s, c)
  | some '{' => do
    let first := skipGap (c.advance 1)
    if first.peek = some '}' then return (.record [], first.advance 1)
    else
      let (fields, c) ← readFields read (first.rest.length + 1) [] first
      return (.record fields, c)
  | some '[' => do
    let first := skipGap (c.advance 1)
    if first.peek = some ']' then return (.list [], first.advance 1)
    else
      let (items, c) ← readElements read (first.rest.length + 1) first
      return (.list items, c)
  | _ =>
    match constants.find? fun entry => entry.1.isPrefixOf c.rest with
    | some (name, d) => .ok (d, c.advance name.length)
    | none => readNumber c

/-- A value nested less deep than a bound. -/
def readValue : Nat → ValueReader
  | 0 => fun _ => .error .exhausted
  | bound + 1 => readValueWith (readValue bound)

def readWholeText (source : List Char) : Reading Datum := do
  if source.head? = some '\ufeff' then
    reject "Unexpected UTF-8 BOM (decode using utf-8-sig)" 0
  else
    let (d, c) ← readValue (source.length + 1) (skipGap (.start source))
    let c := skipGap c
    if c.atEnd then return d else reject "Extra data" c.pos

def Rejection.toFault (source : List Char) : Rejection → Fault
  | .problem text pos =>
    let place := placeAfter (source.take pos)
    .malformed text place.line place.column pos
  | .fault f => f
  | .exhausted => .malformed "Nested too deeply" 1 1 0

/-- Reads a JSON text. -/
def read (source : List Char) : Except Fault Datum :=
  match readWholeText source with
  | .ok d => .ok d
  | .error r => .error (r.toFault source)

end Primer.Json
