import Primer.Number.Binary64

/-! The text of a double: the fewest digits that read back as the same number
and, among those, the digits nearest to it. Positional notation is used from
`0.0001` up to below `10 ^ 16`, and a whole number keeps `.0`. -/
namespace Primer.Binary64

/-- The largest `k` with `10 ^ k ≤ num / den`, found from an estimate by size. -/
def decimalExponent (num den : Nat) : Int :=
  let atLeast (k : Int) : Bool :=
    if 0 ≤ k then decide (den * tenTo k.toNat ≤ num) else decide (den ≤ num * tenTo (-k).toNat)
  let estimate : Int := (Nat.toDigits 10 num).length - (Nat.toDigits 10 den).length
  if atLeast estimate then estimate else estimate - 1

/-- A positive double between the two reals that bound what rounds to it, all
three over the denominator `den`. -/
structure Span where
  low : Nat
  mid : Nat
  high : Nat
  den : Nat
  /-- Whether the two bounds round to the double themselves. -/
  closed : Bool

def span (m : Nat) (e : Int) : Span :=
  let lowStep := if m = twoTo 52 && decide (-1074 < e) then 1 else 2
  let e := e - 2
  if 0 ≤ e then
    let unit := twoTo e.toNat
    ⟨(4 * m - lowStep) * unit, 4 * m * unit, (4 * m + 2) * unit, 1, m % 2 == 0⟩
  else ⟨4 * m - lowStep, 4 * m, 4 * m + 2, twoTo (-e).toNat, m % 2 == 0⟩

/-- Whether `candidate * 10 ^ k` lies in the span. -/
def Span.holds (s : Span) (candidate : Nat) (k : Int) : Bool :=
  let (value, scale) := if 0 ≤ k then (candidate * tenTo k.toNat * s.den, 1)
    else (candidate * s.den, tenTo (-k).toNat)
  if s.closed then decide (s.low * scale ≤ value) && decide (value ≤ s.high * scale)
  else decide (s.low * scale < value) && decide (value < s.high * scale)

/-- The neighbour of the double on the grid of `10 ^ k` that lies in the span; of
two the nearer, and of two equally near the even one. -/
def Span.onGrid (s : Span) (k : Int) : Option Nat :=
  let (num, den) := if 0 ≤ k then (s.mid, s.den * tenTo k.toNat)
    else (s.mid * tenTo (-k).toNat, s.den)
  let below := num / den
  let rest := num % den
  match s.holds below k, s.holds (below + 1) k with
  | true, true =>
    if 2 * rest < den || (2 * rest = den && below % 2 = 0) then some below else some (below + 1)
  | true, false => some below
  | false, true => some (below + 1)
  | false, false => none

/-- The first grid, from one digit on, that has a point in the span. -/
def shortestFrom (s : Span) (top : Int) : Nat → Nat → Nat × Int
  | 0, digits => ((s.onGrid (top - digits)).getD 0, top - digits)
  | more + 1, digits =>
    match s.onGrid (top - digits) with
    | some n => (n, top - digits)
    | none => shortestFrom s top more (digits + 1)

/-- The shortest digits of a positive double, as a number times a power of ten. -/
def shortest (m : Nat) (e : Int) : Nat × Int :=
  let s := span m e
  shortestFrom s (decimalExponent s.mid s.den) 17 0

def dropZeros (digits : List Char) : List Char :=
  (digits.reverse.dropWhile (· == '0')).reverse

def padExponent (n : Nat) : String := if n < 10 then "0" ++ toString n else toString n

/-- Digits with the point after the first `point` of them. -/
def place (digits : List Char) (point : Int) : String :=
  let count : Int := digits.length
  if point ≤ -4 || 16 < point then
    let e := point - 1
    let mark := if e < 0 then "e-" else "e+"
    let tail := match digits.tail with
      | [] => ""
      | ds => "." ++ String.ofList ds
    String.ofList (digits.take 1) ++ tail ++ mark ++ padExponent e.natAbs
  else if point ≤ 0 then
    "0." ++ String.ofList (List.replicate (-point).toNat '0' ++ digits)
  else if count ≤ point then
    String.ofList (digits ++ List.replicate (point - count).toNat '0') ++ ".0"
  else String.ofList (digits.take point.toNat) ++ "." ++ String.ofList (digits.drop point.toNat)

def text : Binary64 → String
  | .nan _ => "nan"
  | .infinite negative => if negative then "-inf" else "inf"
  | .finite negative m e =>
    let sign := if negative then "-" else ""
    if m = 0 then sign ++ "0.0"
    else
      let (n, k) := shortest m e
      let digits := Nat.toDigits 10 n
      sign ++ place (dropZeros digits) (k + digits.length)

end Primer.Binary64
