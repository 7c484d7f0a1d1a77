namespace SearchFilter

/-- A string of octets, such as an assertion value or an encoded element. -/
abbrev Octets := List UInt8

namespace Hex

/-- The lower-case digit of a number below sixteen. -/
def digit (n : Nat) : Char :=
  if n < 10 then Char.ofNat ('0'.toNat + n) else Char.ofNat ('a'.toNat + (n - 10))

/-- The value of a hexadecimal digit of either case. -/
def value? (c : Char) : Option Nat :=
  if '0' ≤ c ∧ c ≤ '9' then some (c.toNat - '0'.toNat)
  else if 'a' ≤ c ∧ c ≤ 'f' then some (c.toNat - 'a'.toNat + 10)
  else if 'A' ≤ c ∧ c ≤ 'F' then some (c.toNat - 'A'.toNat + 10)
  else none

/-- The two digits of an octet, the high one first. -/
def pair (b : UInt8) : List Char :=
  [digit (b.toNat / 16), digit (b.toNat % 16)]

/-- The octet that two digits stand for. -/
def octet? (high low : Char) : Option UInt8 :=
  match value? high, value? low with
  | some h, some l => some (UInt8.ofNat (16 * h + l))
  | _, _ => none

/-- The digits of an octet string, two in lower case for each octet. -/
def encode (bs : Octets) : List Char :=
  bs.flatMap pair

/-- The digits of a number without padding, as in `1f`. -/
def ofNat (n : Nat) : List Char :=
  Nat.toDigits 16 n

/-- Why octets are not the text of digit pairs. -/
inductive Fault where
  /-- The digits do not pair up. -/
  | oddLength
  /-- The octet at this index is no digit. -/
  | notADigit (octet : UInt8) (index : Nat)
  deriving DecidableEq, Repr

/-- The value of the digit that an octet is the text of. -/
def octetValue? (b : UInt8) : Option Nat :=
  value? (Char.ofNat b.toNat)

/-- Reads digit pairs, the first of which stands at index `i` of the whole text. -/
def decodeFrom (i : Nat) : Octets → Except Fault Octets
  | [] => .ok []
  | [_] => .error .oddLength
  | high :: low :: rest =>
    match octetValue? high, octetValue? low with
    | none, _ => .error (.notADigit high i)
    | some _, none => .error (.notADigit low (i + 1))
    | some h, some l => do
      let tail ← decodeFrom (i + 2) rest
      return UInt8.ofNat (16 * h + l) :: tail

/-- Reads a text of digit pairs, in either case. An odd number of octets is refused before any digit
is looked at, and a fault says which digit it is. -/
def decode (text : Octets) : Except Fault Octets :=
  if text.length % 2 = 1 then .error .oddLength else decodeFrom 0 text

end Hex

end SearchFilter
