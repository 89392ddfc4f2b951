import Primer.Number.Whole

/-! Double-precision numbers as exact data: a finite one is a mantissa below
`2 ^ 53` times a power of two. Rounding is to the nearest value, a tie going to
the even mantissa, and is computed on natural numbers. What is not a number has a
label, by which one such datum is told from another. -/
namespace Primer

inductive Binary64
  | nan (label : Nat)
  | infinite (negative : Bool)
  /-- The number `± mantissa * 2 ^ exponent`. The mantissa is at least `2 ^ 52`
  unless the exponent is `-1074`. -/
  | finite (negative : Bool) (mantissa : Nat) (exponent : Int)
  deriving DecidableEq, Repr

/-- The natural number nearest to `n` that has at most 53 significant bits. -/
def nearest53 (n : Nat) : Nat :=
  if n < twoTo 53 then n
  else
    let unit := twoTo (n.log2 - 52)
    let below := n / unit
    let rest := n % unit
    let up := decide (unit < 2 * rest) || (decide (2 * rest = unit) && decide (below % 2 = 1))
    (if up then below + 1 else below) * unit

/-- Integers of at least this magnitude round beyond every finite double. -/
def roundingLimit : Nat := twoTo 1024 - twoTo 970

namespace Binary64

def zeroOf (negative : Bool) : Binary64 := .finite negative 0 (-1074)

/-- The double nearest to `num / den`. -/
def ofRatio (negative : Bool) (num den : Nat) : Binary64 :=
  if num = 0 || den = 0 then zeroOf negative
  else
    let scaled (e : Int) : Nat × Nat :=
      if 0 ≤ e then (num, den * twoTo e.toNat) else (num * twoTo (-e).toNat, den)
    let guess : Int := (num.log2 : Int) - den.log2 - 52
    let (n₀, d₀) := scaled guess
    let e : Int := max (if n₀ / d₀ < twoTo 52 then guess - 1 else guess) (-1074)
    let (n, d) := scaled e
    let below := n / d
    let rest := n % d
    let up := decide (d < 2 * rest) || (decide (2 * rest = d) && decide (below % 2 = 1))
    let m := if up then below + 1 else below
    let (m, e) := if m = twoTo 53 then (twoTo 52, e + 1) else (m, e)
    if 971 < e then .infinite negative else .finite negative m e

def ofInt (n : Int) : Binary64 := ofRatio (decide (n < 0)) n.natAbs 1

/-- The double nearest to `digits * 10 ^ exponent`. -/
def ofDecimal (negative : Bool) (digits : Nat) (exponent : Int) : Binary64 :=
  if digits = 0 then zeroOf negative
  else
    let magnitude : Int := exponent + (Nat.toDigits 10 digits).length
    if 400 < magnitude then .infinite negative
    else if magnitude < -400 then zeroOf negative
    else if 0 ≤ exponent then ofRatio negative (digits * tenTo exponent.toNat) 1
    else ofRatio negative digits (tenTo (-exponent).toNat)

def isZero : Binary64 → Bool
  | .finite _ 0 _ => true
  | _ => false

/-- The integer part, if the number is finite. -/
def truncate? : Binary64 → Option Int
  | .finite negative m e =>
    let magnitude : Nat := if 0 ≤ e then m * twoTo e.toNat else m / twoTo (-e).toNat
    some (if negative then -(magnitude : Int) else magnitude)
  | _ => none

/-- The integer that a number equals, if it equals one. -/
def whole? (x : Binary64) : Option Int :=
  match x with
  | .finite _ m e =>
    if 0 ≤ e || m % twoTo (-e).toNat = 0 then x.truncate? else none
  | _ => none

/-- Equality of numbers: the two zeros are equal and a NaN equals nothing. -/
def sameNumber : Binary64 → Binary64 → Bool
  | .nan _, _ => false
  | _, .nan _ => false
  | x, y => (x.isZero && y.isZero) || decide (x = y)

def signBit (negative : Bool) : UInt64 := if negative then 0x8000000000000000 else 0

def toBits : Binary64 → UInt64
  | .nan _ => 0x7ff8000000000000
  | .infinite negative => signBit negative ||| 0x7ff0000000000000
  | .finite negative m e =>
    signBit negative |||
      (if m < twoTo 52 then m.toUInt64
        else ((e + 1075).toNat.toUInt64 <<< 52) ||| (m - twoTo 52).toUInt64)

def ofBits (bits : UInt64) : Binary64 :=
  let negative := decide (bits >>> 63 = 1)
  let biased := ((bits >>> 52) &&& 0x7ff).toNat
  let fraction := (bits &&& 0xfffffffffffff).toNat
  if biased = 0x7ff then if fraction = 0 then .infinite negative else .nan 0
  else if biased = 0 then .finite negative fraction (-1074)
  else .finite negative (twoTo 52 + fraction) ((biased : Int) - 1075)

/-- Raising to a power, in hardware arithmetic. -/
def power (base exponent : Binary64) : Binary64 :=
  ofBits (Float.pow (Float.ofBits base.toBits) (Float.ofBits exponent.toBits)).toBits

end Binary64
end Primer
