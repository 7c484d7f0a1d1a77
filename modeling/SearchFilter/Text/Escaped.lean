import SearchFilter.Error
import SearchFilter.Octets.Utf8

namespace SearchFilter.Escaped

/-- An octet as a backslash and two digits. -/
def octet (b : UInt8) : List Char :=
  '\\' :: Hex.pair b

/-- Whether an octet of the ASCII range is written as digits: controls and `*`, `(`, `)`, `\`. -/
def isSpecial (b : UInt8) : Bool :=
  b < 0x20 || b == 0x2A || b == 0x28 || b == 0x29 || b == 0x5C

/-- How many octets behind a lead octet are written as digits with it. -/
def announced (b : UInt8) : Nat :=
  if 0xC0 ≤ b ∧ b ≤ 0xDF then 1 else if 0xE0 ≤ b ∧ b ≤ 0xEF then 2 else 0

/-- The character of a complete four-octet sequence that starts with `b`. -/
def fourOctets? (b : UInt8) (rest : Octets) : Option Char :=
  if 0xF0 ≤ b then (Utf8.start b rest).1 else none

/-- Writes octets of which the first `written` are part of a character already written, and the next
`owed` were announced by a lead octet. The lead octet of a two- or three-octet sequence and the
octets it announces are written as digits whatever they are, a complete four-octet sequence as its
character, and everything a filter text gives a meaning to as digits. -/
def writeAfter : (written owed : Nat) → Octets → List Char
  | _, _, [] => []
  | written + 1, owed, _ :: rest => writeAfter written owed rest
  | 0, owed + 1, b :: rest => octet b ++ writeAfter 0 owed rest
  | 0, 0, b :: rest =>
    if b < 0x80 then
      if isSpecial b then octet b ++ writeAfter 0 0 rest
      else Char.ofNat b.toNat :: writeAfter 0 0 rest
    else
      match fourOctets? b rest with
      | some c => c :: writeAfter 3 0 rest
      | none => octet b ++ writeAfter 0 (announced b) rest

/-- Writes a value so that no character of it has a meaning in a filter text. -/
def write (bs : Octets) : List Char :=
  writeAfter 0 0 bs

/-- Writes a text, such as an attribute name, the way a value is written. -/
def writeText (s : String) : List Char :=
  write (Utf8.encode s)

/-- Reads a value: a backslash and two digits are an octet, every other character its UTF-8 octets.
A backslash without two digits behind it is refused, and shown with the two characters behind it. -/
def read : List Char → Except FilterError Octets
  | [] => .ok []
  | c :: rest =>
    if c = '\\' then
      match rest with
      | high :: low :: rest' =>
        match Hex.octet? high low with
        | some b => do return b :: (← read rest')
        | none => .error (.parse (.badEscape (String.ofList ['\\', high, low])))
      | _ => .error (.parse (.badEscape (String.ofList ('\\' :: rest))))
    else do return String.utf8EncodeChar c ++ (← read rest)

end SearchFilter.Escaped

namespace SearchFilter

/-- The text of a value in a filter text. -/
def escape (value : Octets) : String :=
  String.ofList (Escaped.write value)

/-- The value that a text of a filter text stands for. -/
def unescape (text : String) : Except FilterError Octets :=
  Escaped.read text.toList

end SearchFilter
