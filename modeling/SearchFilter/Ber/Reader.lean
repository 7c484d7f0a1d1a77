import SearchFilter.Ber.Length
import SearchFilter.Error
import SearchFilter.Octets.Utf8

namespace SearchFilter.Ber

/-- Whether a list has at least `n` members. It looks no further than that. -/
def reaches {α : Type} : Nat → List α → Bool
  | 0, _ => true
  | _ + 1, [] => false
  | n + 1, _ :: rest => reaches n rest

/-- Looking no further than it must, it still compares the length of the list. -/
theorem reaches_eq {α : Type} (n : Nat) (l : List α) : reaches n l = decide (n ≤ l.length) := by
  induction n generalizing l with
  | zero => simp [reaches]
  | succ n ih =>
    cases l with
    | nil => simp [reaches]
    | cons a l => simp [reaches, ih]

/-- A place in a buffer: how many octets lie before it, the octets from it on, and the content
length of the last header that was read completely. -/
structure Reader where
  offset : Nat
  rest : Octets
  length : Nat
  deriving DecidableEq, Repr, Inhabited

namespace Reader

/-- The start of a buffer. -/
def ofOctets (data : Octets) : Reader :=
  { offset := 0, rest := data, length := 0 }

/-- The place at an offset of a buffer. -/
def ofOctetsAt (data : Octets) (offset length : Nat) : Reader :=
  { offset, rest := data.drop offset, length }

/-- How many octets lie ahead. -/
def remaining (r : Reader) : Nat :=
  r.rest.length

/-- The reader `n` octets further on. -/
def advance (r : Reader) (n : Nat) : Reader :=
  { r with offset := r.offset + n, rest := r.rest.drop n }

/-- The next octet, which would be a tag. -/
def peek? (r : Reader) : Option UInt8 :=
  r.rest.head?

end Reader

/-- A read from a buffer: a value, or an error, together with the place where it stopped. A read that
fails leaves the reader where it noticed the fault, so reading can go on behind it. -/
abbrev Read := EStateM FilterError Reader

namespace Read

/-- Fails where the reader stands. -/
def fail {α : Type} (fault : BerFault) : Read α :=
  throw (.ber fault)

/-- Where the reader stands. -/
def offset : Read Nat :=
  return (← get).offset

/-- The content length of the last header. -/
def lastLength : Read Nat :=
  return (← get).length

/-- The next octet; `fault` where there is none. -/
def octet (fault : BerFault) : Read UInt8 := fun r =>
  match r.rest with
  | b :: _ => .ok b (r.advance 1)
  | [] => .error (.ber fault) r

/-- The next `n` octets; `fault`, told how many are left, where there are fewer. -/
def octets (n : Nat) (fault : Nat → BerFault) : Read Octets := fun r =>
  if reaches n r.rest then .ok (r.rest.take n) (r.advance n)
  else .error (.ber (fault r.remaining)) r

/-- The next octet as a tag. -/
def tag : Read UInt8 :=
  octet .missingTag

/-- The length octets of a header. A length of more than four digits is refused. -/
def length : Read Nat := do
  let first ← octet .missingLength
  if first < 0x80 then return first.toNat
  else
    let count := first.toNat - 128
    if count = 0 then fail .indefiniteLength
    else if 4 < count then fail (.lengthTooLarge count)
    else return ofBase256 (← octets count (.truncatedLength count))

/-- Remembers the content length of an element whose content lies in the buffer. -/
def enter (tag : UInt8) (n : Nat) : Read Unit := fun r =>
  if reaches n r.rest then .ok () { r with length := n }
  else .error (.ber (.truncatedElement tag n r.remaining)) r

/-- The header of an element whose content lies in the buffer. Gives the tag. -/
def header : Read UInt8 := do
  let t ← tag
  let n ← length
  enter t n
  return t

/-- The header of an element with the tag `expected`. Gives the content length. -/
def expect (expected : UInt8) (context : String) : Read Nat := do
  let found ← header
  if found = expected then lastLength
  else throw (.tagMismatch context expected found)

/-- The next `n` octets. -/
def raw (n : Nat) : Read Octets :=
  octets n (.truncatedContent n)

/-- The content of an element. -/
def octetString (tag : UInt8) (context : String) : Read Octets := do
  raw (← expect tag context)

/-- The text that octets are, where `field` is what a message calls them. -/
def text (field : String) (bs : Octets) : Read String :=
  match Utf8.decode? bs with
  | some s => return s
  | none => fail (.badText field)

/-- The content of an element as a text. -/
def string (tag : UInt8) (context : String) : Read String := do
  text context (← octetString tag context)

/-- The content of an element as a truth value: a single octet, false only where it is zero. -/
def boolean (tag : UInt8) (context : String) : Read Bool := do
  let n ← expect tag context
  if n = 1 then return (← raw 1) != [0]
  else fail (.booleanSize n)

/-- The tag of the element that stands for no value. -/
def nullTag : UInt8 := 0x05

/-- An element without content that stands for no value. -/
def null : Read Unit := do
  let n ← expect nullTag "null"
  if n = 0 then return ()
  else fail (.nullSize n)

/-- Reads with `one` as long as the reader stands before `stop`, at most `budget` times. A read that
advances needs no more times than there are octets up to `stop`. -/
def before {α : Type} (one : Read α) (stop : Nat) : (budget : Nat) → Read (List α)
  | 0 => return []
  | budget + 1 => do
    if (← offset) < stop then
      let a ← one
      return a :: (← before one stop budget)
    else return []

end Read

end SearchFilter.Ber
