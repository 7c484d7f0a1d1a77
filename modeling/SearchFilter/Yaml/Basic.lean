import SearchFilter.Octets
import SearchFilter.Yaml.Scalar

namespace SearchFilter

namespace Yaml

/-- What stands in front of a value: its label and its tag. -/
structure Properties where
  label : Option Nat
  tag : Option Octets
  deriving DecidableEq, Repr, Inhabited

/-- The properties of a value that has none. -/
def Properties.none : Properties :=
  { label := .none, tag := .none }

end Yaml

/-- A YAML value as it is written. It may carry a label, by which an alias further on stands for it,
and a tag, which names its type. Whether a scalar is a text, a number or a truth value is left to
its reader. -/
inductive Yaml where
  | scalar (properties : Yaml.Properties) (style : Yaml.Style) (text : List Char)
  | sequence (properties : Yaml.Properties) (items : List Yaml)
  | mapping (properties : Yaml.Properties) (entries : List (Yaml × Yaml))
  /-- Stands for the value with this label. -/
  | aliasOf (label : Nat)
  deriving Repr

namespace Yaml

/-- The scalar that is not written at all. -/
def absent : Yaml :=
  scalar .none .plain []

/-- Whether a value is a plain scalar without a text. -/
def isEmpty : Yaml → Bool
  | scalar _ style text => style == .plain && text.isEmpty
  | sequence _ _ | mapping _ _ | aliasOf _ => false

/-- The text of a scalar. -/
def scalarText? : Yaml → Option (List Char)
  | scalar _ _ text => some text
  | sequence _ _ | mapping _ _ | aliasOf _ => none

mutual

/-- The values with a label, in the order in which they start. -/
def labelled : Yaml → List (Nat × Yaml)
  | scalar p style text => (p.label.map (·, scalar p style text)).toList
  | sequence p items => (p.label.map (·, sequence p items)).toList ++ labelledItems items
  | mapping p entries => (p.label.map (·, mapping p entries)).toList ++ labelledEntries entries
  | aliasOf _ => []

/-- The values with a label in a sequence. -/
def labelledItems : List Yaml → List (Nat × Yaml)
  | [] => []
  | item :: items => labelled item ++ labelledItems items

/-- The values with a label in a mapping. -/
def labelledEntries : List (Yaml × Yaml) → List (Nat × Yaml)
  | [] => []
  | (key, value) :: entries => labelled key ++ labelled value ++ labelledEntries entries

end

mutual

/-- The size of a value: one for a scalar or an alias, and two for a collection besides what it
holds. -/
def size : Yaml → Nat
  | scalar _ _ _ | aliasOf _ => 1
  | sequence _ items => 2 + sizeItems items
  | mapping _ entries => 2 + sizeEntries entries

/-- The size of the items of a sequence. -/
def sizeItems : List Yaml → Nat
  | [] => 0
  | item :: items => size item + sizeItems items

/-- The size of the entries of a mapping. -/
def sizeEntries : List (Yaml × Yaml) → Nat
  | [] => 0
  | (key, value) :: entries => size key + size value + sizeEntries entries

end

/-- A document: its value, and what its labels stand for. -/
structure Document where
  root : Yaml
  targets : List (Nat × Yaml)
  deriving Repr

namespace Document

/-- The document with this value. A label that is given twice stands for the value that starts last. -/
def ofRoot (root : Yaml) : Document :=
  { root, targets := root.labelled.reverse }

/-- What an alias stands for; any other value stands for itself. -/
def resolve (d : Document) : Yaml → Yaml
  | .aliasOf label => (d.targets.lookup label).getD (.aliasOf label)
  | v => v

end Document

end Yaml

end SearchFilter
