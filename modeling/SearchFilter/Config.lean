import SearchFilter.Text.Blank
import SearchFilter.Yaml.Meaning

namespace SearchFilter

/-- How a filter is printed. -/
inductive OutputFormat where
  /-- As a filter text. -/
  | text
  /-- As the hexadecimal digits of its encoding. -/
  | ber
  /-- As its projection. -/
  | json
  deriving DecidableEq, Repr, Inhabited

namespace OutputFormat

/-- The name of a format. -/
def name : OutputFormat → String
  | text => "text"
  | ber => "ber"
  | json => "json"

/-- The format of this name. -/
def ofName? (s : String) : Option OutputFormat :=
  [text, ber, json].find? (·.name == s)

end OutputFormat

/-- The settings. -/
structure Config where
  output : OutputFormat
  /-- Whether attribute names have to agree in case. -/
  strictCase : Bool
  /-- How deep a filter may nest. -/
  maxDepth : Option Nat
  deriving DecidableEq, Repr, Inhabited

namespace Config

/-- The settings that hold where nothing is said. -/
def default : Config :=
  { output := .text, strictCase := true, maxDepth := none }

open Yaml (Document coreTag localName?)

/-- The format that a value names: by its text, or by a local tag in front of nothing. -/
def output? (d : Document) (v : Yaml) : Option OutputFormat :=
  match d.resolve v with
  | .scalar p style text =>
    match localName? p.tag with
    | some name =>
      if style = .plain ∧ Yaml.Plain.isNull text then OutputFormat.ofName? name else none
    | none => OutputFormat.ofName? (String.ofList text)
  | .sequence _ _ | .mapping _ _ | .aliasOf _ => none

/-- Whether a scalar is read by its spelling where a value of this type is asked for: a plain one is,
whatever its tag, and a literal block with the tag of the type. -/
def isSpelt (type : String) (p : Yaml.Properties) (style : Yaml.Style) : Bool :=
  style == .plain || (style == .literal && p.tag == some (coreTag type))

/-- The truth value that a scalar spells. -/
def flag? (d : Document) (v : Yaml) : Option Bool :=
  match d.resolve v with
  | .scalar p style text => if isSpelt "bool" p style then Yaml.Plain.bool? text else none
  | .sequence _ _ | .mapping _ _ | .aliasOf _ => none

/-- The limit that a scalar spells, or none where a plain scalar spells nothing. A tag other than
that of nothing asks for a number. -/
def limit? (d : Document) (v : Yaml) : Option (Option Nat) :=
  match d.resolve v with
  | .scalar p style text =>
    if style = .plain ∧ p.tag = some (coreTag "null") then
      if Yaml.Plain.isNullWord text then some none else none
    else if style = .plain ∧ p.tag = none ∧ Yaml.Plain.isNull text then some none
    else if isSpelt "int" p style then (Yaml.Plain.word64? text).map some
    else none
  | .sequence _ _ | .mapping _ _ | .aliasOf _ => none

/-- The text of a key. -/
def keyText? (d : Document) (key : Yaml) : Option (List Char) :=
  (d.resolve key).scalarText?

/-- The values given for a key. -/
def valuesOf (d : Document) (key : String) (entries : List (Yaml × Yaml)) : List Yaml :=
  (entries.filter (fun e => keyText? d e.1 == some key.toList)).map (·.2)

/-- The setting of a key: its default where it is left out, and nothing where it is repeated or its
value cannot be read. -/
def setting? {α : Type} (read : Yaml → Option α) (byDefault : α) : List Yaml → Option α
  | [] => some byDefault
  | [v] => read v
  | _ => none

/-- The settings of a mapping, all of whose keys have to be scalars. -/
def ofEntries? (d : Document) (entries : List (Yaml × Yaml)) : Option Config := do
  if entries.all (fun e => (keyText? d e.1).isSome) then
    let output ← setting? (output? d) default.output (valuesOf d "output" entries)
    let strictCase ← setting? (flag? d) default.strictCase (valuesOf d "strict_case" entries)
    let maxDepth ← setting? (limit? d) default.maxDepth (valuesOf d "max_depth" entries)
    return { output, strictCase, maxDepth }
  else none

/-- The settings of a document. -/
def ofDocument? (d : Document) : Option Config :=
  match d.root with
  | .mapping _ entries => ofEntries? d entries
  | .sequence _ [output, strictCase, maxDepth] => do
    return {
      output := ← output? d output
      strictCase := ← flag? d strictCase
      maxDepth := ← limit? d maxDepth }
  | v => if v.isEmpty then some default else none

/-- The settings that a text stands for: a YAML mapping in which a setting that is left out has its
default, keys that are no settings are ignored and no setting is repeated, or a sequence of all the
settings in order. A blank text has nothing but defaults. -/
def ofText? (text : String) : Option Config :=
  if (Blank.trim text.toList).isEmpty then some default
  else do ofDocument? (← Document.ofText? text.toList)

end Config

end SearchFilter
