import SearchFilter.Kind
import SearchFilter.Octets
import SearchFilter.Text.Quoted

namespace SearchFilter

/-- Why a node cannot be built, changed or evaluated. -/
inductive NodeFault where
  /-- A presence filter names no attribute. -/
  | unnamedPresence
  /-- An extensible filter has neither an attribute nor a matching rule. -/
  | noTarget
  /-- A matching rule is no object identifier or descriptor. -/
  | badRule (rule : String)
  /-- A clause was added to a filter that has none. -/
  | takesNoClauses (kind : Kind)
  /-- The negated filter was replaced in a filter that is no negation. -/
  | negatesNothing (kind : Kind)
  /-- The fragments of a substring assertion make a pattern of more octets than this when compiled. -/
  | patternTooLarge (limit : Nat)
  deriving DecidableEq, Repr

/-- Why a text is not a filter. -/
inductive TextFault where
  /-- The text is empty. -/
  | noText
  /-- No parenthesis opens where a filter should start, at this offset in octets. -/
  | missingParen (offset : Nat)
  /-- A parenthesis is not closed, or text follows the outermost one. -/
  | unbalancedParens
  /-- Parentheses nest deeper than the reader may go. -/
  | nestedTooDeep
  /-- An item starts with no attribute name. -/
  | badAttribute (item : String)
  /-- No operator follows the attribute name of an item. -/
  | badItem (item : String)
  /-- An opening parenthesis stands inside a value. -/
  | parenInValue
  /-- A backslash is not followed by two digits. -/
  | badEscape (shown : String)
  /-- A substring assertion has no wildcard. -/
  | noWildcard
  /-- The matching rule of an extensible item is empty. -/
  | emptyRule
  /-- The assertion of an extensible item does not start where it must. -/
  | missingAssertion
  /-- The item reads well but its node is refused. -/
  | node (fault : NodeFault)
  deriving DecidableEq, Repr

/-- Why octets are not an encoded filter. -/
inductive BerFault where
  | missingTag
  | missingLength
  | indefiniteLength
  /-- A length takes more octets than any length needs here. -/
  | lengthTooLarge (octets : Nat)
  | truncatedLength (needed remaining : Nat)
  | truncatedElement (tag : UInt8) (needed remaining : Nat)
  | truncatedContent (needed remaining : Nat)
  /-- The content of a text field is malformed. -/
  | badText (field : String)
  | booleanSize (octets : Nat)
  | nullSize (octets : Nat)
  /-- No filter kind has this tag. -/
  | unknownKind (tag : UInt8)
  /-- Filters nest deeper than allowed, at this offset. -/
  | nestedTooDeep (offset : Nat)
  /-- A negation holds no filter. -/
  | nothingNegated
  /-- The content of a filter does not end where its envelope does. -/
  | envelopeMismatch (kind : Kind) (envelopeEnd contentEnd : Nat)
  /-- A fragment follows the final one. -/
  | finalNotLast
  /-- An initial fragment follows another one. -/
  | initialNotFirst
  | unknownFragment (tag : UInt8)
  /-- The last fragment ends behind the sequence that holds it. -/
  | fragmentsOverrun
  /-- A field repeats or precedes the one before it. -/
  | fieldOrder (tag : UInt8)
  | unknownField (tag : UInt8)
  | missingValue
  /-- This many octets follow the filter. -/
  | trailing (octets : Nat)
  /-- The fields read well but their node is refused. -/
  | node (fault : NodeFault)
  deriving DecidableEq, Repr

/-- The kinds of match whose meaning depends on the directory's schema. -/
inductive SchemaMatch where
  | approximate
  | extensible
  deriving DecidableEq, Repr

/-- Why an operation on filters fails. Each cause carries what its message shows. Faults of the
input, text or binary, are kept apart from faults of a node built in memory and from matches that
nobody can evaluate. -/
inductive FilterError where
  /-- A text is malformed. -/
  | parse (fault : TextFault)
  /-- An encoding is malformed. -/
  | ber (fault : BerFault)
  /-- An encoded element has a tag other than the one its place asks for. -/
  | tagMismatch (context : String) (expected found : UInt8)
  /-- A node cannot be built from the given fields, or not be evaluated. -/
  | invalid (fault : NodeFault)
  /-- A match depends on the schema and nobody evaluates it. -/
  | notImplemented (kind : SchemaMatch)
  deriving DecidableEq, Repr

/-- The number of a tag as messages write it. -/
def hexTag (t : UInt8) : String :=
  "0x" ++ String.ofList (Hex.pair t)

/-- What a message says of a node. -/
def NodeFault.message : NodeFault → String
  | .unnamedPresence => "presence filter requires an attribute"
  | .noTarget => "extensible filter requires an attribute or a matching rule"
  | .badRule rule => "invalid matching rule: " ++ Quoted.text rule
  | .takesNoClauses kind => kind.name ++ " does not take clauses"
  | .negatesNothing kind => kind.name ++ " has no negated filter"
  | .patternTooLarge limit =>
    s!"substring pattern: Compiled regex exceeds size limit of {limit} bytes."

/-- What a message says of a filter text. -/
def TextFault.message : TextFault → String
  | .noText => "input string cannot be empty"
  | .missingParen offset => "missing paren at offset " ++ toString offset
  | .unbalancedParens => "unbalanced parens"
  | .nestedTooDeep => "filter nesting exceeds max depth"
  | .badAttribute item => "invalid attribute name: " ++ Quoted.text item
  | .badItem item => "invalid expression: " ++ Quoted.text item
  | .parenInValue => "illegal unescaped char: ("
  | .badEscape shown => "invalid escaped char: " ++ shown
  | .noWildcard => "wildcard missing"
  | .emptyRule => "invalid matching rule in ext filter"
  | .missingAssertion => "missing := in ext filter"
  | .node fault => fault.message

/-- What a message says of an encoding. -/
def BerFault.message : BerFault → String
  | .missingTag => "BER truncated: missing tag"
  | .missingLength => "BER truncated: missing length"
  | .indefiniteLength => "Indefinite length not supported"
  | .lengthTooLarge n => s!"Length too large: {n} bytes"
  | .truncatedLength n r => s!"BER truncated: length encoding needs {n} bytes, {r} remaining"
  | .truncatedElement t n r => s!"BER truncated: element {hexTag t} needs {n} bytes, {r} remaining"
  | .truncatedContent n r => s!"BER truncated: need {n} bytes, {r} remaining"
  | .badText field => field ++ " is not valid UTF-8"
  | .booleanSize n => s!"Boolean value must be 1 byte, got: {n}"
  | .nullSize n => s!"Null value must be empty, got: {n} bytes"
  | .unknownKind t => "invalid search filter type: " ++ hexTag t
  | .nestedTooDeep offset => s!"filter nesting exceeds max depth at offset {offset}"
  | .nothingNegated => "NotFilter requires exactly one filter"
  | .envelopeMismatch kind e c =>
    s!"{kind.name} content length mismatch: envelope ends at {e}, content ends at {c}"
  | .finalNotLast => "substring final must be the last fragment"
  | .initialNotFirst => "substring initial must be the first fragment"
  | .unknownFragment t => "invalid substring fragment tag: " ++ hexTag t
  | .fragmentsOverrun => "substring fragments overrun their sequence"
  | .fieldOrder t => s!"extensible field {hexTag t} out of order"
  | .unknownField t => "invalid extensible field tag: " ++ hexTag t
  | .missingValue => "extensible filter is missing matchValue"
  | .trailing n => s!"{n} trailing bytes after filter"
  | .node fault => fault.message

/-- The name of a schema-dependent match. -/
def SchemaMatch.name : SchemaMatch → String
  | .approximate => "approximate"
  | .extensible => "extensible"

namespace FilterError

/-- The message of an error. -/
def message : FilterError → String
  | .parse fault => "invalid filter string: " ++ fault.message
  | .ber fault => "invalid BER filter: " ++ fault.message
  | .tagMismatch context expected found =>
    s!"expected {context} tag {hexTag expected}, got {hexTag found}"
  | .invalid fault => "invalid filter: " ++ fault.message
  | .notImplemented kind => kind.name ++ " match is not implemented"

/-- Whether the input is at fault, text or binary, and not a node or the evaluation of one. -/
def isMalformedInput : FilterError → Bool
  | .parse _ | .ber _ | .tagMismatch .. => true
  | .invalid _ | .notImplemented _ => false

end FilterError

end SearchFilter
