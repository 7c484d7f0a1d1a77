import SearchFilter.Yaml.Basic
import SearchFilter.Yaml.Token

namespace SearchFilter.Yaml

/-- What the handles of tags stand for. -/
abbrev Handles := List (List Char × Octets)

namespace Handles

/-- What comes before the name of a tag of YAML's own. -/
def coreStart : Octets :=
  Utf8.encode "tag:yaml.org,2002:"

/-- The handles that need no directive. -/
def standard : Handles :=
  [(['!'], Utf8.encode "!"), (['!', '!'], coreStart)]

/-- The tag that a text names. -/
def tag? (handles : Handles) (t : TagText) : Option Octets :=
  if t.handle.isEmpty then some t.suffix
  else (handles.lookup t.handle).map (· ++ t.suffix)

end Handles

/-- The state of reading a document: the tokens that are left, and the names of labels with the
number of each, which later names take over. -/
structure Unread where
  tokens : List Token
  names : List (List Char × Nat)
  deriving Repr

/-- A step of reading a document. -/
abbrev Compose := StateT Unread Option

namespace Compose

/-- The next token, if there is one. -/
def peek : Compose (Option Token) := do
  return (← get).tokens.head?

/-- Goes on behind the next token. -/
def advance : Compose Unit :=
  modify fun u => { u with tokens := u.tokens.tail }

/-- The number of a label whose name comes up here. Labels are numbered in the order in which their
names come up, so that an alias stands for what its name was given to before. -/
def newLabel (name : List Char) : Compose Nat := do
  let u ← get
  let number := u.names.length
  set { u with names := (name, number) :: u.names.filter (·.1 != name) }
  return number

/-- The name of a label, if one comes next. -/
def anchor? : Compose (Option (List Char)) := do
  match ← peek with
  | some (.anchor name) => do advance; return some name
  | _ => return none

/-- The tag that comes next, if one does. -/
def tag? (handles : Handles) : Compose (Option Octets) := do
  match ← peek with
  | some (.tag t) => do
    advance
    return some (← handles.tag? t)
  | _ => return none

/-- The properties of a value: a label and a tag in either order. -/
def properties (handles : Handles) : Compose Properties := do
  let before ← anchor?
  let tag ← tag? handles
  let name ← if before.isSome then pure before else anchor?
  return { label := ← name.mapM newLabel, tag }

/-- The tag of a scalar. An exclamation mark alone says that it has none. -/
def scalarTag (tag : Option Octets) : Option Octets :=
  tag.filter (· != Utf8.encode "!")

/-- Whether the next token is one of these. -/
def comesNext (tokens : List Token) : Compose Bool := do
  return (← peek).any (tokens.contains ·)

/-- A comma, which has to come next. -/
def comma : Compose Unit := do
  if ← comesNext [.flowEntry] then advance else failure

mutual

/-- A value. Block collections are read only where `block` is set, and a sequence whose dashes stand
at the column of its key where `unindented` is. -/
def node (handles : Handles) : (budget : Nat) → (block unindented : Bool) → Compose Yaml
  | 0, _, _ => failure
  | budget + 1, block, unindented => do
    match ← peek with
    | some (.aliasOf name) =>
      advance
      return .aliasOf (← (← get).names.lookup name)
    | _ =>
      let p ← properties handles
      match ← peek with
      | some (.scalar style text) =>
        advance
        return .scalar { p with tag := scalarTag p.tag } style text
      | some .flowSequenceStart =>
        advance
        return .sequence p (← flowItems handles budget true)
      | some .flowMappingStart =>
        advance
        return .mapping p (← flowEntries handles budget true)
      | t =>
        if unindented && t == some .blockEntry then
          return .sequence p (← unindentedItems handles budget)
        else if block && t == some .blockSequenceStart then
          advance
          return .sequence p (← blockItems handles budget)
        else if block && t == some .blockMappingStart then
          advance
          return .mapping p (← blockEntries handles budget)
        else if p.label.isSome || p.tag.isSome then return .scalar p .plain []
        else failure

/-- The items of a block sequence. -/
def blockItems (handles : Handles) : (budget : Nat) → Compose (List Yaml)
  | 0 => failure
  | budget + 1 => do
    match ← peek with
    | some .blockEntry =>
      advance
      let item ←
        if ← comesNext [.blockEntry, .blockEnd] then pure absent
        else node handles budget true false
      return item :: (← blockItems handles budget)
    | some .blockEnd =>
      advance
      return []
    | _ => failure

/-- The items of a sequence whose dashes stand at the column of its key. -/
def unindentedItems (handles : Handles) : (budget : Nat) → Compose (List Yaml)
  | 0 => failure
  | budget + 1 => do
    if ← comesNext [.blockEntry] then
      advance
      let item ←
        if ← comesNext [.blockEntry, .key, .value, .blockEnd] then pure absent
        else node handles budget true false
      return item :: (← unindentedItems handles budget)
    else return []

/-- A key or a value of a block mapping, which may be left out. -/
def blockPart (handles : Handles) : (budget : Nat) → Compose Yaml
  | 0 => failure
  | budget + 1 => do
    if ← comesNext [.key, .value, .blockEnd] then return absent
    else node handles budget true true

/-- The entries of a block mapping. -/
def blockEntries (handles : Handles) : (budget : Nat) → Compose (List (Yaml × Yaml))
  | 0 => failure
  | budget + 1 => do
    match ← peek with
    | some .key =>
      advance
      let key ← blockPart handles budget
      if ← comesNext [.value] then
        advance
        let value ← blockPart handles budget
        return (key, value) :: (← blockEntries handles budget)
      else return (key, absent) :: (← blockEntries handles budget)
    | some .blockEnd =>
      advance
      return []
    | _ => failure

/-- The value of a pair inside brackets. It may be left out with its colon or behind it. -/
def flowValue (handles : Handles) (close : Token) : (budget : Nat) → Compose Yaml
  | 0 => failure
  | budget + 1 => do
    if ← comesNext [.value] then
      advance
      if ← comesNext [.flowEntry, close] then return absent
      else node handles budget false false
    else return absent

/-- The single pair that an item of a flow sequence may be. Where its key is left out, the token in
its stead counts for nothing. -/
def flowPair (handles : Handles) : (budget : Nat) → Compose Yaml
  | 0 => failure
  | budget + 1 => do
    if ← comesNext [.value, .flowEntry, .flowSequenceEnd] then
      advance
      return .mapping .none [(absent, ← flowValue handles .flowSequenceEnd budget)]
    else
      let key ← node handles budget false false
      return .mapping .none [(key, ← flowValue handles .flowSequenceEnd budget)]

/-- The items of a flow sequence, with commas between them and perhaps behind the last one. -/
def flowItems (handles : Handles) : (budget : Nat) → (isFirst : Bool) → Compose (List Yaml)
  | 0, _ => failure
  | budget + 1, isFirst => do
    if ← comesNext [.flowSequenceEnd] then
      advance
      return []
    else
      if !isFirst then comma
      if ← comesNext [.flowSequenceEnd] then
        advance
        return []
      else if ← comesNext [.key] then
        advance
        let item ← flowPair handles budget
        return item :: (← flowItems handles budget false)
      else
        let item ← node handles budget false false
        return item :: (← flowItems handles budget false)

/-- The entries of a flow mapping, with commas between them and perhaps behind the last one. -/
def flowEntries (handles : Handles) : (budget : Nat) → (isFirst : Bool) →
    Compose (List (Yaml × Yaml))
  | 0, _ => failure
  | budget + 1, isFirst => do
    if ← comesNext [.flowMappingEnd] then
      advance
      return []
    else
      if !isFirst then comma
      if ← comesNext [.flowMappingEnd] then
        advance
        return []
      else if ← comesNext [.key] then
        advance
        let key ←
          if ← comesNext [.value, .flowEntry, .flowMappingEnd] then pure absent
          else node handles budget false false
        let value ← flowValue handles .flowMappingEnd budget
        return (key, value) :: (← flowEntries handles budget false)
      else
        let key ← node handles budget false false
        return (key, absent) :: (← flowEntries handles budget false)

end

/-- The directives that come next, in order. -/
def directives : List Token → List Directive × List Token
  | .directive d :: rest => ((d :: (directives rest).1), (directives rest).2)
  | rest => ([], rest)

/-- The handles that directives define. A version is given at most once, and is one of those that are
known; no handle is given twice. -/
def handles? (ds : List Directive) : Option Handles := do
  let versions := ds.filterMap fun
    | .version major minor => some (major, minor)
    | .tag _ _ => none
  let given := ds.filterMap fun
    | .version _ _ => none
    | .tag handle start => some (handle, start)
  let isKnown (v : Nat × Nat) : Bool := v == (1, 1) || v == (1, 2)
  if versions.length ≤ 1 && versions.all isKnown && isDistinct (given.map (·.1)) then
    return given ++ Handles.standard
  else none
where
  /-- Whether no member is repeated. -/
  isDistinct : List (List Char) → Bool
    | [] => true
    | handle :: handles => !handles.contains handle && isDistinct handles

/-- The value of a document that starts with these tokens. It may be left out behind a marker. -/
def document (tokens : List Token) : Compose Yaml := do
  let budget := 3 * tokens.length + 3
  let (ds, rest) := directives tokens
  match ds, rest with
  | [], [] => return absent
  | ds, .documentStart :: rest => do
    set { tokens := rest, names := [] : Unread }
    let handles ← handles? ds
    match rest with
    | [] | .directive _ :: _ | .documentStart :: _ | .documentEnd :: _ => return absent
    | _ => node handles budget true false
  | [], _ => node Handles.standard budget true false
  | _ :: _, _ => failure

end Compose

/-- The document that tokens make. Another document may not follow. -/
def Document.ofTokens? (tokens : List Token) : Option Document := do
  let (root, left) ← (Compose.document tokens).run { tokens, names := [] }
  if left.tokens.all (· == .documentEnd) then return .ofRoot root else none

/-- The document of a text. Directives may stand before its first marker, and nothing but markers of
its end behind it. One without a value is a document of a scalar that is not written. -/
def Document.ofText? (text : List Char) : Option Document := do
  Document.ofTokens? (← Token.ofSpots? (← Spot.ofText? text))

end SearchFilter.Yaml
