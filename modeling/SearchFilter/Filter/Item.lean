import SearchFilter.Filter.Basic
import SearchFilter.Text.Escaped

namespace SearchFilter.Item

/-- A character of an attribute name. -/
def isNameChar (c : Char) : Bool :=
  c.isAlphanum || c == '_' || c == '-'

/-- Reads a value. An opening parenthesis in it can only be a misplaced filter, so it is refused
before the escapes are looked at. -/
def readValue (text : List Char) : Except FilterError Octets :=
  if '(' ∈ text then .error (.parse .parenInValue) else Escaped.read text

/-- Cuts a text at each separator: the first piece and the pieces behind it. -/
def cut (separator : Char) : List Char → List Char × List (List Char)
  | [] => ([], [])
  | c :: rest =>
    let (first, others) := cut separator rest
    if c = separator then ([], first :: others) else (c :: first, others)

/-- An octet string, or nothing where it is empty. -/
def nonempty? (bs : Octets) : Option Octets :=
  if bs.isEmpty then none else some bs

/-- Reads fragments that wildcards separate. Each fragment is read on its own, so an escaped star
stays inside its fragment; an empty first or last fragment is absent. -/
def readSubstrings (text : List Char) : Except FilterError Substrings := do
  let (first, others) := cut '*' text
  match others.getLast? with
  | none => .error (.parse .noWildcard)
  | some last =>
    let initial ← readValue first
    let final ← readValue last
    let any ← others.dropLast.mapM readValue
    return { initial := nonempty? initial, any, final := nonempty? final }

/-- Whether a field of an extensible item is the flag for distinguished names, in either case. -/
def isDnFlag (field : List Char) : Bool :=
  field.map Char.toLower == ['d', 'n']

/-- Takes the flag for distinguished names off the fields of an extensible item. -/
def takeDnFlag : List (List Char) → Bool × List (List Char)
  | [] => (false, [])
  | field :: fields => if isDnFlag field then (true, fields) else (false, field :: fields)

/-- Takes the matching rule off the fields of an extensible item: the next field, unless the
assertion starts there. -/
def takeRule : List (List Char) → Except FilterError (Option (List Char) × List (List Char))
  | [] => .ok (none, [])
  | [] :: _ => .error (.parse .emptyRule)
  | ('=' :: field) :: fields => .ok (none, ('=' :: field) :: fields)
  | field :: fields => .ok (some field, fields)

/-- The value of an extensible item, which follows an equals sign. Colons in it have cut it into
fields and are put back. -/
def assertionText : List (List Char) → Except FilterError (List Char)
  | ('=' :: field) :: fields => .ok (List.intercalate [':'] (field :: fields))
  | _ => .error (.parse .missingAssertion)

/-- Reads what follows the first colon of an extensible item. -/
def readExtensible (name text : List Char) : Except FilterError Assertion := do
  let (first, others) := cut ':' text
  let (dnAttributes, fields) := takeDnFlag (first :: others)
  let (rule, fields) ← takeRule fields
  let raw ← assertionText fields
  let value ← readValue raw
  let substrings ← if '*' ∈ raw then some <$> readSubstrings raw else pure none
  let matchType := if name.isEmpty then none else some (String.ofList name)
  let e : Extensible :=
    { matchType, rule := rule.map String.ofList, value, dnAttributes, substrings }
  match e.validate with
  | .ok () => return .extensible e
  | .error fault => .error (.parse (.node fault))

/-- Reads the assertion that follows an attribute name: the operators are tried in a fixed order.
Behind an equals sign the value decides between a comparison, a presence test and a substring
assertion; a colon in place of the operator opens an extensible assertion. -/
def readOperator (item name : List Char) : List Char → Except FilterError Assertion
  | ['=', '*'] => .ok (.presence (String.ofList name))
  | '=' :: text =>
    if '*' ∈ text then do return .substring (String.ofList name) (← readSubstrings text)
    else do return .comparison .equal (String.ofList name) (← readValue text)
  | '>' :: '=' :: text => do
    return .comparison .atLeast (String.ofList name) (← readValue text)
  | '<' :: '=' :: text => do
    return .comparison .atMost (String.ofList name) (← readValue text)
  | '~' :: '=' :: text => do
    return .comparison .approximate (String.ofList name) (← readValue text)
  | ':' :: text => readExtensible name text
  | _ => .error (.parse (.badItem (String.ofList item)))

/-- Reads an item, which is what stands between two parentheses and holds no clause. Only an
extensible item may go without an attribute name. -/
def read (item : List Char) : Except FilterError Assertion :=
  let name := item.takeWhile isNameChar
  if name.isEmpty && item.head? != some ':' then
    .error (.parse (.badAttribute (String.ofList item)))
  else readOperator item name (item.dropWhile isNameChar)

end SearchFilter.Item
