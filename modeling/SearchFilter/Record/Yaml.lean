import SearchFilter.Record.Basic
import SearchFilter.Yaml.Meaning

namespace SearchFilter

namespace Record.Yaml

open SearchFilter.Yaml (Document)

/-- What a scalar stands for as a single value. A number that is no integer, or does not fit a signed
word, is refused. -/
def ofMeaning? (text : List Char) : Yaml.Plain.Meaning → Option Scalar
  | .bool b => some (.bool b)
  | .integer n => (Decimal.word? n).map .integer
  | .text => some (.text (String.ofList text))
  | .null | .real => none

/-- A single value. -/
def scalar? (d : Document) (v : SearchFilter.Yaml) : Option Scalar :=
  match d.resolve v with
  | .scalar p style text => (Yaml.meaning? p.tag style text).bind (ofMeaning? text)
  | .sequence _ _ | .mapping _ _ | .aliasOf _ => none

/-- What an attribute stands for. -/
def value? (d : Document) (v : SearchFilter.Yaml) : Option AttributeValue :=
  match d.resolve v with
  | .scalar p style text => do
    match ← Yaml.meaning? p.tag style text with
    | .null => return .null
    | meaning => return .one (← ofMeaning? text meaning)
  | .sequence p items =>
    if (Yaml.localName? p.tag).isSome then none else (items.mapM (scalar? d)).map .many
  | .mapping _ _ | .aliasOf _ => none

/-- The entry of a key and its value. -/
def entry? (d : Document) (e : SearchFilter.Yaml × SearchFilter.Yaml) : Option Entry := do
  let name ← (d.resolve e.1).scalarText?
  return (String.ofList name, ← value? d e.2)

/-- How many aliases are followed to read a value. -/
def followed (d : Document) (v : SearchFilter.Yaml) : Nat :=
  let isAlias : SearchFilter.Yaml → Bool
    | .aliasOf _ => true
    | _ => false
  (if isAlias v then 1 else 0) +
    match d.resolve v with
    | .sequence _ items => items.countP isAlias
    | _ => 0

/-- Whether no more aliases are followed than a hundred for each part of the document. -/
def isModest (d : Document) (entries : List (SearchFilter.Yaml × SearchFilter.Yaml)) : Bool :=
  entries.foldl (fun n e => n + followed d e.1 + followed d e.2) 0 ≤ 100 * d.root.size

/-- The entries of a document. An empty one has none. -/
def entries? (d : Document) : Option (List Entry) :=
  match d.root with
  | .mapping _ entries => if isModest d entries then entries.mapM (fun e => entry? d e) else none
  | v => if v.isEmpty then some [] else none

end Record.Yaml

/-- The record that a YAML text stands for: a mapping whose values are scalars, sequences of scalars
or nothing. Any scalar is a name; a plain scalar is a truth value or an integer if it is spelt as
one. Of a repeated name the last value counts. -/
def Record.ofYamlText? (text : String) : Option Record := do
  return Record.ofList (← Record.Yaml.entries? (← SearchFilter.Yaml.Document.ofText? text.toList))

end SearchFilter
