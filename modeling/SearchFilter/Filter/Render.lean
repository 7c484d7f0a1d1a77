import SearchFilter.Filter.Basic
import SearchFilter.Text.Escaped

namespace SearchFilter

/-- The text of fragments: a wildcard between each two, and where the first or last is absent. -/
def Substrings.chars (s : Substrings) : List Char :=
  Escaped.write (s.initial.getD []) ++ ['*'] ++ s.any.flatMap (fun f => Escaped.write f ++ ['*']) ++
    Escaped.write (s.final.getD [])

/-- The text of an extensible assertion. -/
def Extensible.chars (e : Extensible) : List Char :=
  (e.matchType.map Escaped.writeText).getD [] ++
    (if e.dnAttributes then [':', 'd', 'n'] else []) ++
    (e.rule.map (':' :: Escaped.writeText ·)).getD [] ++
    [':', '='] ++ Escaped.write e.value

/-- The text of an item, the parentheses left out. -/
def Assertion.chars : Assertion → List Char
  | .empty => []
  | .comparison op name value => Escaped.writeText name ++ op.symbol ++ Escaped.write value
  | .presence name => Escaped.writeText name ++ ['=', '*']
  | .substring name fragments => Escaped.writeText name ++ ['='] ++ fragments.chars
  | .extensible e => e.chars

/-- The character that opens the clauses of a junction. -/
def Connective.symbol : Connective → Char
  | .and => '&'
  | .or => '|'

namespace Filter

mutual

/-- The characters of a filter's text. -/
def chars : Filter → List Char
  | leaf a => '(' :: a.chars ++ [')']
  | negation f => '(' :: '!' :: chars f ++ [')']
  | junction c fs => '(' :: c.symbol :: charsAll fs ++ [')']

/-- The characters of the clauses of a filter, one behind the other. -/
def charsAll : List Filter → List Char
  | [] => []
  | f :: fs => chars f ++ charsAll fs

end

/-- The text of a filter. Every name and value is written so that nothing in it is read as part of
the structure. -/
def render (f : Filter) : String :=
  String.ofList f.chars

end Filter

end SearchFilter
