import SearchFilter.Filter.Item

namespace SearchFilter

namespace Parsing

/-- The size of a text in octets. -/
def size : List Char → Nat
  | [] => 0
  | c :: rest => c.utf8Size + size rest

/-- Reads clauses with `one` up to the parenthesis that closes them, and gives what follows it. There
is at least one clause, and at most `budget` ones are read. -/
def clauses (one : List Char → Except FilterError (Filter × List Char)) :
    (budget : Nat) → List Char → Except FilterError (List Filter × List Char)
  | 0, _ => .error (.parse .unbalancedParens)
  | budget + 1, text => do
    let (f, rest) ← one text
    match rest with
    | [] => .error (.parse .unbalancedParens)
    | ')' :: rest => return ([f], rest)
    | rest =>
      let (fs, rest) ← clauses one budget rest
      return (f :: fs, rest)

/-- Reads the parenthesis that closes a filter, and gives what follows it. -/
def close : List Char → Except FilterError (List Char)
  | ')' :: rest => .ok rest
  | _ => .error (.parse .unbalancedParens)

/-- Reads an item up to the parenthesis that closes it, and gives what follows it. -/
def item (text : List Char) : Except FilterError (Assertion × List Char) :=
  match text.dropWhile (· != ')') with
  | [] => .error (.parse .unbalancedParens)
  | _ :: rest => do return (← Item.read (text.takeWhile (· != ')')), rest)

/-- Reads the filter that a text starts with, and gives what follows it. At most `depth` nested
parentheses are entered. The text ends a text of `total` octets, which fixes its offset. -/
def filter (total : Nat) : (depth : Nat) → List Char → Except FilterError (Filter × List Char)
  | 0, '(' :: _ => .error (.parse .nestedTooDeep)
  | depth + 1, '(' :: text =>
    match text with
    | '&' :: text => do
      let (fs, rest) ← clauses (filter total depth) (total + 1) text
      return (.junction .and fs, rest)
    | '|' :: text => do
      let (fs, rest) ← clauses (filter total depth) (total + 1) text
      return (.junction .or fs, rest)
    | '!' :: text => do
      let (f, rest) ← filter total depth text
      return (.negation f, ← close rest)
    | text => do
      let (a, rest) ← item text
      return (.leaf a, rest)
  | _, text => .error (.parse (.missingParen (total - size text)))

/-- A text that does not open a parenthesis is read as if it stood in a pair of them. -/
def wrap (text : List Char) : List Char :=
  if text.head? = some '(' then text else '(' :: text ++ [')']

/-- Reads a whole text. -/
def whole (depth : Nat) (text : List Char) : Except FilterError Filter :=
  if text.isEmpty then .error (.parse .noText)
  else
    let text := wrap text
    match filter (size text) depth text with
    | .error e => .error e
    | .ok (f, []) => .ok f
    | .ok (_, _ :: _) => .error (.parse .unbalancedParens)

end Parsing

namespace Filter

/-- Reads a filter text and refuses it as soon as more than `depth` nested parentheses would be
entered. -/
def parseWithin (depth : Nat) (text : String) : Except FilterError Filter :=
  Parsing.whole depth text.toList

/-- Reads a filter text from left to right by recursive descent; the first fault ends the reading. A
text opens no more parentheses than it has characters, so the bound is never met. -/
def parse (text : String) : Except FilterError Filter :=
  parseWithin (text.toList.length + 1) text

end Filter

end SearchFilter
