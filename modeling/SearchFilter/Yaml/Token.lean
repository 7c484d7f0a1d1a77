import SearchFilter.Yaml.Scalar
import SearchFilter.Yaml.Tag

namespace SearchFilter.Yaml

/-- A token. -/
inductive Token where
  | directive (d : Directive)
  | documentStart
  | documentEnd
  | blockSequenceStart
  | blockMappingStart
  | blockEnd
  | flowSequenceStart
  | flowSequenceEnd
  | flowMappingStart
  | flowMappingEnd
  /-- The dash of an item. -/
  | blockEntry
  /-- The comma between values in brackets. -/
  | flowEntry
  /-- A key follows. -/
  | key
  /-- The value of a key follows. -/
  | value
  | aliasOf (name : List Char)
  | anchor (name : List Char)
  | tag (text : TagText)
  | scalar (style : Style) (text : List Char)
  deriving DecidableEq, Repr

namespace Token

/-- What may turn out to be a key: where it starts, how many tokens stand before it, and whether it
has to be one, as everything has to that starts at the column of a block mapping. A key is known
only when its colon comes, so its token and the start of its mapping are put in front of what was
read as the key. -/
structure Candidate where
  start : Spot
  position : Nat
  isRequired : Bool
  deriving Repr

/-- How far a key may reach, in octets. -/
def keyReach : Nat := 1024

/-- Whether a colon at this place may still belong to a key. -/
def Candidate.reaches (k : Candidate) (s : Spot) : Bool :=
  s.line ≤ k.start.line && s.offset ≤ k.start.offset + keyReach

/-- The state of reading tokens. -/
structure Reader where
  rest : List Spot
  /-- The tokens so far, the last one first. -/
  tokens : List Token
  count : Nat
  /-- What may be a key, inside the innermost brackets. -/
  key : Option Candidate
  /-- What may be a key outside these brackets, and outside those around them. -/
  outerKeys : List (Option Candidate)
  /-- The columns of the open block collections, the innermost one first. -/
  columns : List Nat
  /-- Whether a key may start here. -/
  allowsKey : Bool
  deriving Repr

/-- A step of reading tokens. -/
abbrev Read := StateT Reader Option

namespace Reader

/-- At the start of a text. -/
def ofSpots (spots : List Spot) : Reader :=
  { rest := spots, tokens := [], count := 0, key := none, outerKeys := [], columns := [],
    allowsKey := true }

/-- Whether the place is inside brackets. -/
def inFlow (r : Reader) : Bool :=
  !r.outerKeys.isEmpty

/-- The first column behind that of the innermost block collection. -/
def least (r : Reader) : Nat :=
  match r.columns with
  | [] => 0
  | column :: _ => column + 1

end Reader

namespace Read

open Spot

/-- Adds a token. -/
def emit (t : Token) : Read Unit :=
  modify fun r => { r with tokens := t :: r.tokens, count := r.count + 1 }

/-- Puts a token where `position` tokens stand before it. -/
def emitAt (position : Nat) (t : Token) : Read Unit :=
  modify fun r =>
    let behind := r.count - position
    { r with tokens := r.tokens.take behind ++ t :: r.tokens.drop behind, count := r.count + 1 }

/-- Goes on behind some characters. -/
def skip (count : Nat) : Read Unit :=
  modify fun r => { r with rest := r.rest.drop count }

/-- Says whether a key may start at the next token. -/
def allowKey (allows : Bool) : Read Unit :=
  modify fun r => { r with allowsKey := allows }

/-- What may be a key is none after all. -/
def dropKey : Read Unit := do
  let r ← get
  if r.key.any (·.isRequired) then failure else set { r with key := none }

/-- What starts here may be a key. -/
def markKey (s : Spot) : Read Unit := do
  let r ← get
  if r.allowsKey then
    dropKey
    let isRequired := !r.inFlow && r.columns.head? == some s.column
    modify fun r => { r with key := some { start := s, position := r.count, isRequired } }

/-- What may be a key is none if the place is out of its reach. -/
def dropFarKeys (s : Spot) : Read Unit := do
  let r ← get
  if (r.key :: r.outerKeys).any (·.any fun k => k.isRequired && !k.reaches s) then failure
  else
    set { r with
      key := r.key.filter (·.reaches s)
      outerKeys := r.outerKeys.map (Option.filter (·.reaches s)) }

/-- Opens a block collection at a column, unless one is open there. -/
def openBlock (column : Nat) (put : Read Unit) : Read Unit := do
  let r ← get
  if !r.inFlow && r.least ≤ column then
    set { r with columns := column :: r.columns }
    put

/-- Closes the block collections at the column `least` and behind it. -/
def closeBlocks (least : Nat) : Read Unit := do
  let r : Reader ← get
  if !r.inFlow then
    let closed := (r.columns.takeWhile (least ≤ ·)).length
    set { r with
      tokens := List.replicate closed Token.blockEnd ++ r.tokens
      count := r.count + closed
      columns := r.columns.drop closed }

/-- Ends everything that is open, as the end of a document does. -/
def closeAll : Read Unit := do
  closeBlocks 0
  dropKey
  allowKey false

/-- Inside a block, goes on only where a key may start. -/
def needKeyPlace : Read Unit := do
  let r ← get
  if r.inFlow || r.allowsKey then return else failure

/-- A directive or a document marker, which ends everything that is open. -/
def documentToken (t : Token) (rest : List Spot) : Read Unit := do
  closeAll
  modify fun r => { r with rest }
  emit t

/-- An opening bracket. -/
def openBracket (s : Spot) (t : Token) : Read Unit := do
  markKey s
  modify fun r => { r with outerKeys := r.key :: r.outerKeys, key := none, allowsKey := true }
  skip 1
  emit t

/-- A closing bracket. -/
def closeBracket (t : Token) : Read Unit := do
  dropKey
  modify fun r =>
    { r with key := r.outerKeys.head?.join, outerKeys := r.outerKeys.tail, allowsKey := false }
  skip 1
  emit t

/-- The comma between values in brackets. -/
def flowEntry : Read Unit := do
  dropKey
  allowKey true
  skip 1
  emit .flowEntry

/-- The dash of an item, which may open a block sequence. -/
def blockEntry (s : Spot) : Read Unit := do
  needKeyPlace
  openBlock s.column (emit .blockSequenceStart)
  dropKey
  allowKey true
  skip 1
  emit .blockEntry

/-- The question mark of a key, which may open a block mapping. -/
def explicitKey (s : Spot) : Read Unit := do
  needKeyPlace
  openBlock s.column (emit .blockMappingStart)
  dropKey
  allowKey (!(← get).inFlow)
  skip 1
  emit .key

/-- The colon before a value. What may be a key becomes one, and may open a block mapping. -/
def value (s : Spot) : Read Unit := do
  match (← get).key with
  | some k =>
    emitAt k.position .key
    openBlock k.start.column (emitAt k.position .blockMappingStart)
    modify fun r => { r with key := none, allowsKey := false }
  | none =>
    needKeyPlace
    openBlock s.column (emit .blockMappingStart)
    allowKey (!(← get).inFlow)
  skip 1
  emit .value

/-- A token that may be a key or stand before one: what is read is made a token. -/
def content {α : Type} (s : Spot) (read : Option (α × List Spot)) (t : α → Token) : Read Unit := do
  markKey s
  allowKey false
  let (a, rest) ← read
  modify fun r => { r with rest }
  emit (t a)

/-- A plain scalar. A key may start behind it if it ends the line. -/
def plain (s : Spot) (spots : List Spot) : Read Unit := do
  markKey s
  let r ← get
  let (text, rest, endsLine) ← Scalar.plain r.inFlow r.least spots
  set { r with rest, allowsKey := endsLine }
  emit (.scalar .plain text)

/-- A block scalar. A key may start behind it. -/
def block (style : Style) (spots : List Spot) : Read Unit := do
  dropKey
  let r ← get
  let (text, rest) ← Scalar.block style r.least spots
  set { r with rest, allowsKey := true }
  emit (.scalar style text)

/-- Whether a plain scalar starts with the character `c` before `rest`. Most signs start none, but a
dash may before anything but a blank, and a question mark and a colon in a block before a word. -/
def startsPlain (flow : Bool) (c : Char) (rest : List Spot) : Bool :=
  if c == '-' then !rest.head?.any (isBlank ·.char)
  else if c == '?' || c == ':' then !flow && !endsWord rest
  else !isSpace c && !Scalar.isFlowMark c &&
    !(['#', '&', '*', '!', '|', '>', '\'', '"', '%', '@', '\x60'].contains c)

/-- The token that starts with the character at `s` before `rest`. -/
def token (s : Spot) (rest : List Spot) : Read Unit := do
  dropFarKeys s
  closeBlocks (s.column + 1)
  let flow := (← get).inFlow
  if s.column == 0 && s.char == '%' then
    let (d, rest) ← Directive.ofSpots? rest
    documentToken (.directive d) rest
  else if startsMarker '-' (s :: rest) then documentToken .documentStart (rest.drop 2)
  else if startsMarker '.' (s :: rest) then documentToken .documentEnd (rest.drop 2)
  else
    match s.char with
    | '[' => openBracket s .flowSequenceStart
    | '\x7b' => openBracket s .flowMappingStart
    | ']' => closeBracket .flowSequenceEnd
    | '\x7d' => closeBracket .flowMappingEnd
    | ',' => flowEntry
    | '*' => content s (anchorName? rest) .aliasOf
    | '&' => content s (anchorName? rest) .anchor
    | '!' => content s (Tag.ofSpots? flow (s :: rest)) .tag
    | '\'' => content s (Scalar.quoted '\'' rest) (.scalar .quoted)
    | '"' => content s (Scalar.quoted '"' rest) (.scalar .quoted)
    | c =>
      if c == '-' && endsWord rest then blockEntry s
      else if c == '?' && (flow || endsWord rest) then explicitKey s
      else if c == ':' && (flow || endsWord rest) then value s
      else if c == '|' && !flow then block .literal rest
      else if c == '>' && !flow then block .folded rest
      else if startsPlain flow c rest then plain s (s :: rest)
      else failure

/-- What follows white space and comments, and whether a key may start there. Tabs do not count where
a key may start in a block, and a byte order mark does at the start of a line. -/
def afterGap (flow allowsKey : Bool) (spots : List Spot) : List Spot × Bool :=
  match spots with
  | [] => ([], allowsKey)
  | s :: rest =>
    if s.column == 0 && s.char == '\uFEFF' then afterGap flow allowsKey rest
    else if s.char == ' ' || (s.char == '\t' && (flow || !allowsKey)) then afterGap flow allowsKey rest
    else if s.char == '#' then afterGap flow allowsKey (rest.dropWhile (!isBreak ·.char))
    else if isBreak s.char then afterGap flow (allowsKey || !flow) rest
    else (s :: rest, allowsKey)
termination_by spots.length
decreasing_by
  all_goals
    have := length_dropWhile_le (!isBreak ·.char) rest
    simp only [List.length_cons]
    omega

/-- The tokens up to the end of the text. Each takes a character, which bounds their number. -/
def toEnd : (budget : Nat) → Read Unit
  | 0 => failure
  | budget + 1 => do
    let r ← get
    let (rest, allowsKey) := afterGap r.inFlow r.allowsKey r.rest
    set { r with rest, allowsKey }
    match rest with
    | [] => closeAll
    | s :: rest => do
      token s rest
      toEnd budget

end Read

/-- The tokens of a text. -/
def ofSpots? (spots : List Spot) : Option (List Token) :=
  ((Read.toEnd (spots.length + 1)).run (Reader.ofSpots spots)).map (·.2.tokens.reverse)

end Token

end SearchFilter.Yaml
