import SearchFilter.Yaml.Document
import SearchFilter.Yaml.Plain

namespace SearchFilter.Yaml

/-- The tag of YAML's own with this name. -/
def coreTag (name : String) : Octets :=
  Handles.coreStart ++ Utf8.encode name

/-- The name in a local tag. A tag whose octets are malformed is none. -/
def localName? : Option Octets → Option String
  | some (bang :: name) => if bang == 0x21 then Utf8.decode? name else none
  | _ => none

/-- What a scalar stands for, if its tag is none but YAML's own and fits the text. Such a tag
decides how the text is read, whatever the style; without a tag a plain scalar is read by its
spelling, and any other one is a text. A local tag, which starts with an exclamation mark, names a
type that nobody knows here. -/
def meaning? (tag : Option Octets) (style : Style) (text : List Char) : Option Plain.Meaning :=
  let bySpelling := if style = .plain then Plain.meaning text else .text
  match tag with
  | none => some bySpelling
  | some t =>
    if (localName? tag).isSome then none
    else if t = coreTag "null" then if Plain.isNullWord text then some .null else none
    else if t = coreTag "bool" then (Plain.bool? text).map .bool
    else if t = coreTag "int" then (Plain.integer? text).map .integer
    else if t = coreTag "float" then some .real
    else if t.head? = some 0x21 then some bySpelling
    else some .text

end SearchFilter.Yaml
