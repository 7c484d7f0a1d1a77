import SearchFilter.Octets

namespace SearchFilter

/-- A JSON value. A number is kept as it is written. -/
inductive Json where
  | null
  | bool (b : Bool)
  | number (text : List Char)
  | string (s : String)
  | array (items : List Json)
  | object (fields : List (String × Json))
  deriving Repr, Inhabited

namespace Json

/-- An optional text; the null value where there is none. -/
def ofString? : Option String → Json
  | some s => string s
  | none => null

/-- How a character is written inside a string. -/
def escapeChar (c : Char) : List Char :=
  if c = '"' ∨ c = '\\' then ['\\', c]
  else if c = '\x08' then ['\\', 'b']
  else if c = '\x0c' then ['\\', 'f']
  else if c = '\n' then ['\\', 'n']
  else if c = '\r' then ['\\', 'r']
  else if c = '\t' then ['\\', 't']
  else if c.toNat < 0x20 then ['\\', 'u', '0', '0'] ++ Hex.pair (UInt8.ofNat c.toNat)
  else [c]

/-- The text of a string, in quotes. -/
def quote (s : String) : List Char :=
  '"' :: s.toList.flatMap escapeChar ++ ['"']

/-- A new line at the given level. -/
def newline (level : Nat) : List Char :=
  '\n' :: List.replicate (2 * level) ' '

mutual

/-- The text of a value that stands at the given level. -/
def indented (level : Nat) : Json → List Char
  | null => ['n', 'u', 'l', 'l']
  | bool true => ['t', 'r', 'u', 'e']
  | bool false => ['f', 'a', 'l', 's', 'e']
  | number text => text
  | string s => quote s
  | array [] => ['[', ']']
  | array items => '[' :: indentedItems (level + 1) items ++ newline level ++ [']']
  | object [] => ['\x7b', '\x7d']
  | object fields => '\x7b' :: indentedFields (level + 1) fields ++ newline level ++ ['\x7d']

/-- The lines of the items of a list. -/
def indentedItems (level : Nat) : List Json → List Char
  | [] => []
  | [item] => newline level ++ indented level item
  | item :: items => newline level ++ indented level item ++ ',' :: indentedItems level items

/-- The lines of the fields of an object. -/
def indentedFields (level : Nat) : List (String × Json) → List Char
  | [] => []
  | [(key, value)] => newline level ++ quote key ++ [':', ' '] ++ indented level value
  | (key, value) :: fields =>
    newline level ++ quote key ++ [':', ' '] ++ indented level value ++
      ',' :: indentedFields level fields

end

/-- The indented text of a value: one field or item to a line, two spaces for each level, and
nothing between the brackets of an empty value. -/
def pretty (v : Json) : String :=
  String.ofList (indented 0 v)

end Json

end SearchFilter
