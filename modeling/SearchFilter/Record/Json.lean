import SearchFilter.Json.Reader
import SearchFilter.Record.Basic

namespace SearchFilter

namespace Record.Json

/-- The integer that a number is written as. A zero with a sign is no integer. -/
def integer? : List Char → Option Int64
  | ['-', '0'] => none
  | cs => Decimal.int64? cs

/-- A single value. -/
def scalar? : SearchFilter.Json → Option Scalar
  | .bool b => some (.bool b)
  | .number text => (integer? text).map .integer
  | .string s => some (.text s)
  | _ => none

/-- What an attribute stands for. -/
def value? : SearchFilter.Json → Option AttributeValue
  | .null => some .null
  | .array items => (items.mapM scalar?).map .many
  | v => (scalar? v).map .one

/-- The entries of an object. -/
def entries? : SearchFilter.Json → Option (List Entry)
  | .object fields => fields.mapM (fun field => (value? field.2).map (fun v => (field.1, v)))
  | _ => none

end Record.Json

/-- The record that a JSON text stands for: an object whose values are scalars, lists of scalars or
null. Of a repeated name the last value counts. -/
def Record.ofJsonText? (text : String) : Option Record := do
  let v ← SearchFilter.Json.ofText? text.toList
  return Record.ofList (← Record.Json.entries? v)

end SearchFilter
