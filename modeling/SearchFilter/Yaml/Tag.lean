import SearchFilter.Octets.Utf8
import SearchFilter.Text.Decimal
import SearchFilter.Yaml.Source

namespace SearchFilter.Yaml

/-- A tag as it is written: a handle, which is empty where the suffix is the whole tag, and the
octets of the suffix. Directives give handles their meaning. -/
structure TagText where
  handle : List Char
  suffix : Octets
  deriving DecidableEq, Repr

/-- A line with a per cent sign, which says how a document is to be read. -/
inductive Directive where
  | version (major minor : Nat)
  /-- Tags with this handle start with these octets. -/
  | tag (handle : List Char) (start : Octets)
  deriving DecidableEq, Repr

open Spot

namespace Tag

/-- A handle: an exclamation mark and a name, and another exclamation mark if there is one. -/
def handle : List Spot → Option (List Char × List Spot)
  | [] => none
  | s :: rest =>
    if s.char == '!' then
      let name := chars (rest.takeWhile (isNameChar ·.char))
      let rest := rest.drop name.length
      if startsWith '!' rest then some ('!' :: name ++ ['!'], rest.drop 1) else some ('!' :: name, rest)
    else none

/-- The octet that a per cent sign and two digits stand for. -/
def escapedOctet? : List Char → Option UInt8
  | '%' :: high :: low :: _ => Hex.octet? high low
  | _ => none

/-- How many octets a character takes that starts with this one. -/
def width? (b : UInt8) : Option Nat :=
  if b < 0x80 then some 1
  else if b < 0xC0 then none
  else if b < 0xE0 then some 2
  else if b < 0xF0 then some 3
  else if b < 0xF8 then some 4
  else none

/-- The octets of a character that is written octet by octet. -/
def escapedChar? (cs : List Char) : Option Octets := do
  let lead ← escapedOctet? cs
  let width ← width? lead
  let tail ← (List.range (width - 1)).mapM (fun i => escapedOctet? (cs.drop (3 * i + 3)))
  if tail.all Utf8.isTail then return lead :: tail else none

/-- A character that a tag may hold as it is. Some may stand there only in angle brackets, or in a
directive. -/
def isTagChar (enclosed : Bool) (c : Char) : Bool :=
  isNameChar c || [';', '/', '?', ':', '@', '&', '=', '+', '$', '.', '!', '~', '*', '\'', '(',
    ')'].contains c || (enclosed && [',', '[', ']'].contains c)

/-- The characters of a tag, as octets. -/
def octets (enclosed : Bool) (spots : List Spot) : Option (Octets × List Spot) :=
  match spots with
  | [] => some ([], [])
  | s :: rest =>
    if s.char == '%' then
      match escapedChar? (chars ((s :: rest).take 12)) with
      | none => none
      | some bs =>
        (octets enclosed (rest.drop (3 * bs.length - 1))).map fun (more, rest) => (bs ++ more, rest)
    else if isTagChar enclosed s.char then
      (octets enclosed rest).map fun (more, rest) => (Utf8.encodeChars [s.char] ++ more, rest)
    else some ([], s :: rest)
termination_by spots.length

/-- One or more characters of a tag. -/
def octets1 (enclosed : Bool) (spots : List Spot) : Option (Octets × List Spot) :=
  (octets enclosed spots).filter (!·.1.isEmpty)

/-- A tag without angle brackets. If no second exclamation mark ends the handle, the handle is the
first one alone; and an exclamation mark with nothing behind it is a tag of its own. -/
def short (spots : List Spot) : Option (TagText × List Spot) := do
  let (h, rest) ← handle spots
  if 1 < h.length && h.getLast? == some '!' then
    let (suffix, rest) ← octets1 false rest
    return ({ handle := h, suffix }, rest)
  else
    let (more, rest) ← octets false rest
    let suffix := Utf8.encodeChars (h.drop 1) ++ more
    if suffix.isEmpty then return ({ handle := [], suffix := Utf8.encodeChars ['!'] }, rest)
    else return ({ handle := ['!'], suffix }, rest)

/-- A tag in angle brackets, behind the first of them. -/
def enclosed (spots : List Spot) : Option (TagText × List Spot) := do
  let (suffix, rest) ← octets1 true spots
  if startsWith '>' rest then return ({ handle := [], suffix }, rest.drop 1) else none

/-- A tag. White space follows it, or a comma between brackets. -/
def ofSpots? (flow : Bool) (spots : List Spot) : Option (TagText × List Spot) := do
  let (tag, rest) ← if startsWith '<' (spots.drop 1) then enclosed (spots.drop 2) else short spots
  if endsWord rest || (flow && startsWith ',' rest) then return (tag, rest) else none

end Tag

/-- The name behind the sign of an anchor or an alias. White space follows it, or one of a few
signs. -/
def anchorName? (spots : List Spot) : Option (List Char × List Spot) :=
  let name := chars (spots.takeWhile (isNameChar ·.char))
  let rest := spots.drop name.length
  let isEnd (s : Spot) : Bool :=
    isSpace s.char || ['?', ':', ',', ']', '\x7d', '%', '@', '\x60'].contains s.char
  if !name.isEmpty && rest.head?.all isEnd then some (name, rest) else none

namespace Directive

/-- A part of a version: at most nine digits. -/
def number? (spots : List Spot) : Option (Nat × List Spot) := do
  let digits := chars (spots.takeWhile (·.char.isDigit))
  if 9 < digits.length then none else return (← Decimal.nat? digits, spots.drop digits.length)

/-- What follows the name of a directive that gives the version. -/
def version? (spots : List Spot) : Option (Directive × List Spot) := do
  let (major, rest) ← number? spots
  if startsWith '.' rest then
    let (minor, rest) ← number? (rest.drop 1)
    return (.version major minor, rest)
  else none

/-- What follows the name of a directive that gives a handle its meaning. -/
def tag? (spots : List Spot) : Option (Directive × List Spot) := do
  let (handle, rest) ← Tag.handle spots
  if handle.getLast? == some '!' && rest.head?.any (isBlank ·.char) then
    let (start, rest) ← Tag.octets1 true (afterBlanks rest)
    if endsWord rest then return (.tag handle start, rest) else none
  else none

/-- A directive behind its per cent sign. It takes the rest of its line. -/
def ofSpots? (spots : List Spot) : Option (Directive × List Spot) := do
  let name := chars (spots.takeWhile (isNameChar ·.char))
  let rest := spots.drop name.length
  if endsWord rest then
    let (directive, rest) ←
      if name == ['Y', 'A', 'M', 'L'] then version? (afterBlanks rest)
      else if name == ['T', 'A', 'G'] then tag? (afterBlanks rest)
      else none
    return (directive, ← afterLine? rest)
  else none

end Directive

end SearchFilter.Yaml
