import SearchFilter.Octets
import SearchFilter.Text.GraphemeExtend
import SearchFilter.Text.Unprintable

namespace SearchFilter.Quoted

/-- Whether a character is shown by its number. -/
def isHidden (c : Char) : Bool :=
  Unprintable.contains c || GraphemeExtend.contains c

/-- How a character is shown where the quotes among `quotes` are escaped. -/
def showChar (quotes : List Char) (c : Char) : List Char :=
  if c = '\x00' then ['\\', '0']
  else if c = '\t' then ['\\', 't']
  else if c = '\n' then ['\\', 'n']
  else if c = '\r' then ['\\', 'r']
  else if c = '\\' ∨ c ∈ quotes then ['\\', c]
  else if isHidden c then ['\\', 'u', '\x7b'] ++ Hex.ofNat c.toNat ++ ['\x7d']
  else [c]

/-- A text in double quotes, with the quotes among `quotes` escaped. -/
def enclose (quotes : List Char) (s : String) : String :=
  String.ofList ('"' :: s.toList.flatMap (showChar quotes) ++ ['"'])

/-- A text in double quotes, as messages show it: the quote itself, the backslash and every
character that would not be seen as itself are written as escapes. -/
def text (s : String) : String :=
  enclose ['"'] s

/-- The path of a file in double quotes. Single quotes are escaped as well. -/
def path (s : String) : String :=
  enclose ['"', '\''] s

/-- A single character in single quotes. -/
def char (c : Char) : String :=
  String.ofList ('\'' :: showChar ['\''] c ++ ['\''])

end SearchFilter.Quoted
