import Primer.Fault
import Primer.Number.Whole

/-! Text from the octets of a file. A sequence that is cut short or goes wrong is
reported from its first octet up to the last one that still fitted. -/
namespace Primer

/-- The number of octets that follow a first octet, and the range of the first of
them. There is none for an octet that starts no sequence of two or more. -/
def octetsAfter? (first : Nat) : Option (Nat × Nat × Nat) :=
  if 0xc2 ≤ first && first ≤ 0xdf then some (1, 0x80, 0xbf)
  else if first = 0xe0 then some (2, 0xa0, 0xbf)
  else if first = 0xed then some (2, 0x80, 0x9f)
  else if 0xe1 ≤ first && first ≤ 0xef then some (2, 0x80, 0xbf)
  else if first = 0xf0 then some (3, 0x90, 0xbf)
  else if first = 0xf4 then some (3, 0x80, 0x8f)
  else if 0xf1 ≤ first && first ≤ 0xf3 then some (3, 0x80, 0xbf)
  else none

/-- The payload of a first octet that `n` octets follow. -/
def firstPayload (n first : Nat) : Nat := first % twoTo (6 - n)

/-- A sequence under way: its first octet and where it stands, how many octets are
owed, the range of the next one, and the value so far. -/
structure Sequence where
  first : Nat
  pos : Nat
  owed : Nat
  low : Nat
  high : Nat
  value : Nat

/-- Decodes from octet number `pos` on, within a sequence or between two. -/
def decodeFrom : Nat → Option Sequence → List Nat → Except Fault (List Char)
  | _, none, [] => .ok []
  | pos, some q, [] => .error (.undecodable q.first q.pos (pos - 1) "unexpected end of data")
  | pos, none, a :: rest =>
    if a < 0x80 then do return Char.ofNat a :: (← decodeFrom (pos + 1) none rest)
    else match octetsAfter? a with
      | none => .error (.undecodable a pos pos "invalid start byte")
      | some (owed, low, high) =>
        decodeFrom (pos + 1) (some ⟨a, pos, owed, low, high, firstPayload owed a⟩) rest
  | pos, some q, a :: rest =>
    if a < q.low || q.high < a then
      .error (.undecodable q.first q.pos (pos - 1) "invalid continuation byte")
    else
      let value := q.value * 64 + a % 64
      if q.owed ≤ 1 then do return Char.ofNat value :: (← decodeFrom (pos + 1) none rest)
      else decodeFrom (pos + 1) (some ⟨q.first, q.pos, q.owed - 1, 0x80, 0xbf, value⟩) rest

def decodeOctets (octets : List UInt8) : Except Fault (List Char) :=
  decodeFrom 0 none (octets.map UInt8.toNat)

end Primer
