namespace SearchFilter.Decimal

/-- The digit of a number below ten. -/
def digit (n : Nat) : Char :=
  Char.ofNat ('0'.toNat + n)

/-- A decimal digit. -/
def isDigit (c : Char) : Bool :=
  '0' ≤ c && c ≤ '9'

/-- The digits of a number, the highest first. -/
def ofNat (n : Nat) : List Char :=
  if n < 10 then [digit n] else ofNat (n / 10) ++ [digit (n % 10)]
termination_by n
decreasing_by omega

/-- The text of a number, with a sign only where it is negative and no superfluous zero. -/
def ofInt (n : Int) : List Char :=
  if n < 0 then '-' :: ofNat n.natAbs else ofNat n.natAbs

/-- The number with these digits. -/
def value (cs : List Char) : Nat :=
  cs.foldl (fun n c => n * 10 + (c.toNat - '0'.toNat)) 0

/-- The number that a text of digits stands for. -/
def nat? (cs : List Char) : Option Nat :=
  if !cs.isEmpty && cs.all isDigit then some (value cs) else none

/-- The number that a text stands for: any number of digits, zeros first or not, behind a sign of
either kind or none. -/
def int? : List Char → Option Int
  | '-' :: cs => (nat? cs).map (fun n => -(n : Int))
  | '+' :: cs => (nat? cs).map (fun n => (n : Int))
  | cs => (nat? cs).map (fun n => (n : Int))

/-- A number as a signed word, if it fits. -/
def word? (n : Int) : Option Int64 :=
  if Int64.minValue.toInt ≤ n ∧ n ≤ Int64.maxValue.toInt then some (Int64.ofInt n) else none

/-- The signed word that a text stands for. -/
def int64? (cs : List Char) : Option Int64 :=
  (int? cs).bind word?

end SearchFilter.Decimal
