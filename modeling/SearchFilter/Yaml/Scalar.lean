import SearchFilter.Octets
import SearchFilter.Yaml.Source

namespace SearchFilter.Yaml

/-- How a scalar is written. -/
inductive Style where
  | plain
  /-- Between single or double quotes. -/
  | quoted
  /-- As a block of lines. -/
  | literal
  /-- As a block of lines that are joined. -/
  | folded
  deriving DecidableEq, Repr

namespace Scalar

open Spot

/-- What white space inside a scalar stands for: itself within a line. Of several line breaks the
first one is left out, and a single one is a space; but a separator of lines or paragraphs stays. -/
def fold (space : List Char) : List Char :=
  match space.filter isBreak with
  | [] => space
  | ['\n'] => [' ']
  | '\n' :: breaks => breaks
  | breaks => breaks

/-- A character that opens, closes or separates values inside brackets. -/
def isFlowMark (c : Char) : Bool :=
  c == ',' || c == '[' || c == ']' || c == '\x7b' || c == '\x7d'

/-- The characters of a plain scalar up to white space, or up to what ends it: a colon before white
space, and inside brackets a separator. There a colon may not stand right before a separator. -/
def plainWord (flow : Bool) : List Spot → Option (List Char)
  | [] => some []
  | s :: rest =>
    if isSpace s.char || (s.char == ':' && endsWord rest) || (flow && isFlowMark s.char) then some []
    else if flow && s.char == ':' && rest.head?.any (fun t => isFlowMark t.char || t.char == '?') then
      none
    else (plainWord flow rest).map (s.char :: ·)

/-- Whether white space holds a tab that stands in for the indentation of a line. -/
def hasBadTab (least : Nat) (gap : List Spot) : Bool :=
  (gap.dropWhile (!isBreak ·.char)).any (fun s => s.char == '\t' && s.column < least)

/-- Whether a plain scalar ends with the white space before this place: the text ends here, a comment
or a document marker starts here, or the line starts before the column `least`, brackets apart. -/
def endsPlain (flow : Bool) (least : Nat) : List Spot → Bool
  | [] => true
  | s :: rest =>
    s.char == '#' || (!flow && s.column < least) || startsAnyMarker (s :: rest)

/-- A plain scalar: its text, what follows it and the white space behind it, and whether that white
space ends the line. Further lines start at the column `least` or behind it. -/
def plain (flow : Bool) (least : Nat) (spots : List Spot) :
    Option (List Char × List Spot × Bool) :=
  match plainWord flow spots with
  | none => none
  | some word =>
    let rest := spots.drop word.length
    let endsLine := (space rest).any (isBreak ·.char)
    if hasBadTab least (space rest) then none
    else if _h : (space rest).isEmpty ∨ endsPlain flow least (afterSpace rest) then
      some (word, afterSpace rest, endsLine)
    else
      match plain flow least (afterSpace rest) with
      | none => none
      | some ([], tail, _) => some (word, tail, endsLine)
      | some (more, tail, endsLine) => some (word ++ fold (chars (space rest)) ++ more, tail, endsLine)
termination_by spots.length
decreasing_by
  have hspace : 0 < (space (spots.drop word.length)).length :=
    List.length_pos_iff.2 fun hnil => _h (.inl (List.isEmpty_iff.2 hnil))
  have hsum := length_space_add (spots.drop word.length)
  have hdrop : (spots.drop word.length).length ≤ spots.length := by simp
  omega

/-- The character that a backslash and one character stand for. -/
def shortEscape? : Char → Option Char
  | '0' => some '\x00'
  | 'a' => some '\x07'
  | 'b' => some '\x08'
  | 't' | '\t' => some '\t'
  | 'n' => some '\n'
  | 'v' => some '\x0b'
  | 'f' => some '\x0c'
  | 'r' => some '\r'
  | 'e' => some '\x1b'
  | ' ' => some ' '
  | '"' => some '"'
  | '/' => some '/'
  | '\\' => some '\\'
  | 'N' => some '\u0085'
  | '_' => some '\u00a0'
  | 'L' => some '\u2028'
  | 'P' => some '\u2029'
  | _ => none

/-- The character of this number. -/
def character? (n : Nat) : Option Char :=
  if n < 0xD800 ∨ (0xDFFF < n ∧ n < 0x110000) then some (Char.ofNat n) else none

/-- The character whose number has exactly these hexadecimal digits. -/
def numbered? (count : Nat) (cs : List Char) : Option Char := do
  let digits ← (cs.take count).mapM Hex.value?
  if digits.length = count then character? (digits.foldl (fun n d => n * 16 + d) 0) else none

/-- The character that stands for itself behind a backslash, and how many characters write it. -/
def escaped? (spots : List Spot) : Option (Char × Nat) :=
  match chars (spots.take 9) with
  | [] => none
  | 'x' :: cs => (numbered? 2 cs).map (·, 3)
  | 'u' :: cs => (numbered? 4 cs).map (·, 5)
  | 'U' :: cs => (numbered? 8 cs).map (·, 9)
  | c :: _ => (shortEscape? c).map (·, 1)

/-- A quoted scalar behind its opening quote: its text and what follows the closing quote. Only double
quotes allow escapes; between single quotes the quote is written twice. An escaped line break is left
out with the blanks behind it. No document marker may stand inside. -/
def quoted (quote : Char) (spots : List Spot) : Option (List Char × List Spot) :=
  match spots with
  | [] => none
  | s :: rest =>
    if startsAnyMarker (s :: rest) then none
    else if s.char == quote then
      if quote == '\'' && startsWith quote rest then
        (quoted quote (rest.drop 1)).map fun (text, rest) => (quote :: text, rest)
      else some ([], rest)
    else if s.char == '\\' && quote == '"' then
      if rest.head?.any (isBreak ·.char) then
        let breaks := (chars (space (rest.drop 1))).filter isBreak
        (quoted quote (afterSpace (rest.drop 1))).map fun (text, rest) => (breaks ++ text, rest)
      else
        match escaped? rest with
        | none => none
        | some (c, count) =>
          (quoted quote (rest.drop count)).map fun (text, rest) => (c :: text, rest)
    else if isSpace s.char then
      let gap := chars (s :: space rest)
      (quoted quote (afterSpace rest)).map fun (text, rest) => (fold gap ++ text, rest)
    else (quoted quote rest).map fun (text, rest) => (s.char :: text, rest)
termination_by spots.length
decreasing_by
  all_goals
    have := length_afterSpace_le rest
    have := length_afterSpace_le (rest.drop 1)
    have : (rest.drop 1).length ≤ rest.length := by simp
    simp only [List.length_cons, List.length_drop] at *
    omega

/-- What becomes of the line breaks at the end of a block scalar. -/
inductive Chomp where
  | strip
  | clip
  | keep
  deriving DecidableEq, Repr

/-- The sign for what becomes of the line breaks, if one comes next, and what follows it. -/
def chompSign : List Spot → Option Chomp × List Spot
  | [] => (none, [])
  | s :: rest =>
    if s.char == '-' then (some .strip, rest)
    else if s.char == '+' then (some .keep, rest)
    else (none, s :: rest)

/-- The digit for the indentation, if one comes next, and what follows it. It may not be zero. -/
def indentDigit : List Spot → Option (Option Nat × List Spot)
  | [] => some (none, [])
  | s :: rest =>
    if s.char == '0' then none
    else if s.char.isDigit then some (some (s.char.toNat - '0'.toNat), rest)
    else some (none, s :: rest)

/-- The header of a block scalar, which takes the rest of its line: a sign and a digit in either
order. -/
def blockHeader? (spots : List Spot) : Option (Chomp × Option Nat × List Spot) := do
  let (sign, rest) := chompSign spots
  let (digit, rest) ← indentDigit rest
  let (sign, rest) := if sign.isNone && digit.isSome then chompSign rest else (sign, rest)
  return (sign.getD .clip, digit, ← afterLine? rest)

/-- The empty lines that come next, the indentation of the line behind them left out: the width of
the widest indentation, the line breaks, and what follows. Lines are indented by spaces, at most up
to the column `indent` where that is known. -/
def emptyLines (indent : Option Nat) (spots : List Spot) : Option (Nat × List Char × List Spot) :=
  let inside (s : Spot) : Bool := indent.all (s.column < ·)
  let width := (spots.takeWhile (fun s => s.char == ' ' && inside s)).length
  match _h : spots.drop width with
  | [] => some (width, [], [])
  | s :: rest =>
    if s.char == '\t' && inside s then none
    else if isBreak s.char then
      match emptyLines indent rest with
      | none => none
      | some (widest, breaks, rest) => some (max width widest, s.char :: breaks, rest)
    else some (width, [], s :: rest)
termination_by spots.length
decreasing_by
  have := congrArg List.length _h
  simp only [List.length_drop, List.length_cons] at this
  omega

/-- Reading empty lines gives nothing back. -/
theorem length_emptyLines_le {indent : Option Nat} {spots rest : List Spot} {width : Nat}
    {breaks : List Char} (h : emptyLines indent spots = some (width, breaks, rest)) :
    rest.length ≤ spots.length := by
  fun_induction emptyLines indent spots generalizing width breaks rest with
  | case1 => simp_all
  | case2 => simp at h
  | case3 => simp at h
  | case4 =>
    rename_i hdrop _ _ _ _ _ hrest ih
    have hle := ih hrest
    have hlength := congrArg List.length hdrop
    simp only [Option.some.injEq, Prod.mk.injEq] at h
    obtain ⟨_, _, rfl⟩ := h
    simp only [List.length_drop, List.length_cons] at hlength
    omega
  | case5 =>
    rename_i hdrop _ _
    have hlength := congrArg List.length hdrop
    simp only [Option.some.injEq, Prod.mk.injEq] at h
    obtain ⟨_, _, rfl⟩ := h
    simp only [List.length_drop, List.length_cons] at hlength ⊢
    omega

/-- A line of a block scalar: its text without the indentation, the line break behind it, if there is
one, and those of the empty lines that follow. -/
structure BlockLine where
  text : List Char
  lineBreak : List Char
  emptyBreaks : List Char
  deriving DecidableEq, Repr

/-- The lines of a block scalar whose text starts at the column `indent`, and what follows them. -/
def blockLines (indent : Nat) (spots : List Spot) : Option (List BlockLine × List Spot) :=
  if spots.head?.any (·.column == indent) then
    let text := spots.takeWhile (!isBreak ·.char)
    match _h : spots.dropWhile (!isBreak ·.char) with
    | [] => some ([{ text := chars text, lineBreak := [], emptyBreaks := [] }], [])
    | s :: rest =>
      match _hempty : emptyLines (some indent) rest with
      | none => none
      | some (_, emptyBreaks, next) =>
        (blockLines indent next).map fun (lines, rest) =>
          ({ text := chars text, lineBreak := [s.char], emptyBreaks } :: lines, rest)
  else some ([], spots)
termination_by spots.length
decreasing_by
  have := length_emptyLines_le _hempty
  have := length_dropWhile_le (!isBreak ·.char) spots
  have := congrArg List.length _h
  simp only [List.length_cons] at this
  omega

/-- Whether a line starts with a blank behind its indentation. Such lines are not joined. -/
def BlockLine.isIndented (line : BlockLine) : Bool :=
  line.text.head?.any isBlank

/-- What stands between two lines of a block scalar. In a folded one a line break is left out, and a
single one is a space. -/
def between (style : Style) (line next : BlockLine) : List Char :=
  if style = .folded ∧ line.lineBreak = ['\n'] ∧ !line.isIndented ∧ !next.isIndented then
    if line.emptyBreaks.isEmpty then [' '] else line.emptyBreaks
  else line.lineBreak ++ line.emptyBreaks

/-- The text of the lines of a block scalar up to the end of the last one. -/
def joinLines (style : Style) : List BlockLine → List Char
  | [] => []
  | [line] => line.text
  | line :: next :: lines => line.text ++ between style line next ++ joinLines style (next :: lines)

/-- The line breaks behind the last line that a block scalar keeps. -/
def tail (chomp : Chomp) (first : List Char) (lines : List BlockLine) : List Char :=
  match chomp, lines.getLast? with
  | .strip, _ => []
  | .clip, none => []
  | .keep, none => first
  | .clip, some line => line.lineBreak
  | .keep, some line => line.lineBreak ++ line.emptyBreaks

/-- A block scalar behind its indicator: its text and what follows it. It is indented further than
the column of the block it stands in, the next one to which is `least`; a digit in the header counts
from there. Without one the first line decides, together with the empty lines before it. -/
def block (style : Style) (least : Nat) (spots : List Spot) : Option (List Char × List Spot) := do
  let (chomp, digit, rest) ← blockHeader? spots
  let given := digit.map (least - 1 + ·)
  let (widest, first, rest) ← emptyLines given rest
  let (lines, rest) ← blockLines (given.getD (max widest (max least 1))) rest
  let start := if lines.isEmpty then [] else first
  return (start ++ joinLines style lines ++ tail chomp first lines, rest)

end Scalar

end SearchFilter.Yaml
