import SearchFilter.Octets
import SearchFilter.Text.Decimal

namespace SearchFilter.Yaml.Plain

/-- What a plain scalar stands for. -/
inductive Meaning where
  | null
  | bool (b : Bool)
  | integer (n : Int)
  /-- A number that is no integer, or not a number at all. -/
  | real
  | text
  deriving DecidableEq, Repr

/-- Whether a text spells nothing. -/
def isNullWord (cs : List Char) : Bool :=
  ["null", "Null", "NULL", "~"].any (·.toList == cs)

/-- Whether a scalar is left out or spelt as nothing. -/
def isNull (cs : List Char) : Bool :=
  cs.isEmpty || isNullWord cs

/-- The truth value of this spelling. -/
def bool? (cs : List Char) : Option Bool :=
  if ["true", "True", "TRUE"].any (·.toList == cs) then some true
  else if ["false", "False", "FALSE"].any (·.toList == cs) then some false
  else none

/-- Digits of a base up to sixteen. -/
def digits? (base : Nat) (cs : List Char) : Option Nat :=
  if cs.isEmpty then none
  else cs.foldlM (fun n c => do
    let d ← Hex.value? c
    if d < base then some (n * base + d) else none) 0

/-- Digits behind the mark of a base. -/
def based? : List Char → Option Nat
  | '0' :: 'x' :: cs => digits? 16 cs
  | '0' :: 'o' :: cs => digits? 8 cs
  | '0' :: 'b' :: cs => digits? 2 cs
  | _ => none

/-- A text without its sign. -/
def unsigned : List Char → List Char
  | '-' :: cs | '+' :: cs => cs
  | cs => cs

/-- Whether a text is made of decimal digits, behind a sign or none, and has a superfluous zero. -/
def isPadded (cs : List Char) : Bool :=
  match unsigned cs with
  | '0' :: rest => !rest.isEmpty && rest.all Decimal.isDigit
  | _ => false

/-- Digits in base ten without a superfluous zero, or in a marked base. -/
def magnitude? (cs : List Char) : Option Nat :=
  match based? cs with
  | some n => some n
  | none => if isPadded cs then none else digits? 10 cs

/-- The integer of at most 128 bits that a text is. -/
def integer? : List Char → Option Int
  | '-' :: cs => do
    let n ← magnitude? cs
    if n ≤ Nat.pow 2 127 then some (-(n : Int)) else none
  | '+' :: cs => do
    let n ← magnitude? cs
    if n < Nat.pow 2 128 then some (n : Int) else none
  | cs => do
    let n ← magnitude? cs
    if n < Nat.pow 2 128 then some (n : Int) else none

/-- The natural number of at most 64 bits that a text is. A plus sign may stand before it. -/
def word64? (cs : List Char) : Option Nat :=
  match integer? cs with
  | some n => if cs.head? != some '-' && n.toNat < Nat.pow 2 64 then some n.toNat else none
  | none => none

/-- The least number that no finite double is nearest to. -/
def overflow : Nat :=
  Nat.pow 2 1024 - Nat.pow 2 970

/-- Whether `digits` times ten to the power `exponent` is a finite double. The number of digits
decides except near the end of the range. -/
def isFinite (digits : List Char) (exponent : Int) : Bool :=
  let n := Decimal.value digits
  let places : Int := (Decimal.ofNat n).length + exponent
  if n = 0 || places ≤ 308 then true
  else if 310 ≤ places then false
  else if 0 ≤ exponent then n * Nat.pow 10 exponent.toNat < overflow
  else n < overflow * Nat.pow 10 (-exponent).toNat

/-- The exponent of a decimal fraction: the mark, a sign or none, digits. -/
def exponent? : List Char → Option Int
  | [] => some 0
  | c :: cs => if c == 'e' || c == 'E' then Decimal.int? cs else none

/-- Whether a text is a decimal fraction, behind a sign or none, that is a finite double. -/
def isFraction (cs : List Char) : Bool :=
  let cs := unsigned cs
  let whole := cs.takeWhile Decimal.isDigit
  let (part, rest) := match cs.dropWhile Decimal.isDigit with
    | '.' :: rest => (rest.takeWhile Decimal.isDigit, rest.dropWhile Decimal.isDigit)
    | rest => ([], rest)
  match exponent? rest with
  | none => false
  | some e => !(whole ++ part).isEmpty && isFinite (whole ++ part) (e - part.length)

/-- The spellings of the numbers that are not finite. -/
def isSpecial (cs : List Char) : Bool :=
  [".inf", ".Inf", ".INF", "+.inf", "+.Inf", "+.INF", "-.inf", "-.Inf", "-.INF", ".nan", ".NaN",
    ".NAN"].any (·.toList == cs)

/-- Whether a text is a number that is no integer. -/
def isReal (cs : List Char) : Bool :=
  isSpecial cs || (!isPadded cs && isFraction cs)

/-- What a plain scalar stands for. The spellings of null and the truth values are fixed; integers
may have a sign and a base; a number in decimal digits with superfluous zeros is a text, and so is a
number that is neither an integer of at most 128 bits nor a finite double. -/
def meaning (cs : List Char) : Meaning :=
  if isNull cs then .null
  else
    match bool? cs with
    | some b => .bool b
    | none =>
      match integer? cs with
      | some n => .integer n
      | none => if isReal cs then .real else .text

end SearchFilter.Yaml.Plain
