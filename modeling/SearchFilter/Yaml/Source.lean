import SearchFilter.Octets.Utf8

namespace SearchFilter.Yaml

/-- A character that a text may hold as it is. -/
def isAllowed (c : Char) : Bool :=
  let n := c.toNat
  n == 0x9 || n == 0xA || n == 0xD || (0x20 ≤ n && n ≤ 0x7E) || n == 0x85 ||
    (0xA0 ≤ n && n ≤ 0xFFFD) || 0x10000 ≤ n

/-- White space within a line. -/
def isBlank (c : Char) : Bool :=
  c == ' ' || c == '\t'

/-- A character that ends a line. -/
def isBreak (c : Char) : Bool :=
  c == '\n' || c == '\u2028' || c == '\u2029'

/-- White space within a line or between lines. -/
def isSpace (c : Char) : Bool :=
  isBlank c || isBreak c

/-- A letter, a digit, a dash or a low line, of which names are made. -/
def isNameChar (c : Char) : Bool :=
  c.isAlphanum || c == '-' || c == '_'

/-- A text with its line breaks written in one way, but for the separators of lines and paragraphs,
which stay what they are. A line feed behind a carriage return belongs to the same break. -/
def unifyBreaks (cs : List Char) : List Char :=
  (cs.zip ('\x00' :: cs)).filterMap fun (c, before) =>
    if c == '\n' && before == '\r' then none
    else if c == '\r' || c == '\u0085' then some '\n'
    else some c

/-- A character of a text with its place: its line, how many characters stand before it on the line,
and how many octets these take. The place decides what belongs to what in a block, and how far a key
may reach. -/
structure Spot where
  char : Char
  line : Nat
  column : Nat
  offset : Nat
  deriving DecidableEq, Repr

namespace Spot

/-- The place of a character behind this one. -/
def next (s : Spot) (c : Char) : Spot :=
  if isBreak s.char then { char := c, line := s.line + 1, column := 0, offset := 0 }
  else { s with char := c, column := s.column + 1, offset := s.offset + s.char.utf8Size }

/-- The characters of a text in their places. -/
def ofChars : List Char → List Spot
  | [] => []
  | c :: cs =>
    let first : Spot := { char := c, line := 0, column := 0, offset := 0 }
    (cs.foldl (fun placed c => (placed.head?.map (·.next c)).toList ++ placed) [first]).reverse

/-- The characters of a text in their places, if all of them are allowed. -/
def ofText? (text : List Char) : Option (List Spot) :=
  if text.all isAllowed then some (ofChars (unifyBreaks text)) else none

/-- The characters without their places. -/
def chars (spots : List Spot) : List Char :=
  spots.map (·.char)

/-- Whether this character comes next. -/
def startsWith (c : Char) (spots : List Spot) : Bool :=
  spots.head?.any (·.char == c)

/-- Whether a word ends here: at white space or at the end of the text. -/
def endsWord (spots : List Spot) : Bool :=
  spots.head?.all (isSpace ·.char)

/-- Whether a document marker made of this character starts here: three of them at the start of a
line, which are a word. -/
def startsMarker (c : Char) : List Spot → Bool
  | s :: t :: u :: rest =>
    s.column == 0 && s.char == c && t.char == c && u.char == c && endsWord rest
  | _ => false

/-- Whether one of the two document markers starts here. -/
def startsAnyMarker (spots : List Spot) : Bool :=
  startsMarker '-' spots || startsMarker '.' spots

/-- The white space that comes next. -/
def space (spots : List Spot) : List Spot :=
  spots.takeWhile (isSpace ·.char)

/-- What follows the white space that comes next. -/
def afterSpace (spots : List Spot) : List Spot :=
  spots.dropWhile (isSpace ·.char)

/-- What follows the blanks that come next. -/
def afterBlanks (spots : List Spot) : List Spot :=
  spots.dropWhile (isBlank ·.char)

/-- What follows the rest of a line, the line break included, if the line holds nothing more than
blanks and a comment. -/
def afterLine? (spots : List Spot) : Option (List Spot) :=
  let rest := afterBlanks spots
  let rest := if startsWith '#' rest then rest.dropWhile (!isBreak ·.char) else rest
  match rest with
  | [] => some []
  | s :: rest => if isBreak s.char then some rest else none

theorem length_dropWhile_le (p : Spot → Bool) (spots : List Spot) :
    (spots.dropWhile p).length ≤ spots.length :=
  (List.dropWhile_sublist p).length_le

theorem length_afterSpace_le (spots : List Spot) : (afterSpace spots).length ≤ spots.length :=
  length_dropWhile_le _ _

/-- White space and what follows it are the whole text. -/
theorem length_space_add (spots : List Spot) :
    (space spots).length + (afterSpace spots).length = spots.length := by
  rw [space, afterSpace, ← List.length_append, List.takeWhile_append_dropWhile]

end Spot

end SearchFilter.Yaml
