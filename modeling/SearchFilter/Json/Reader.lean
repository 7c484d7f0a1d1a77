import SearchFilter.Json.Basic
import SearchFilter.Text.Decimal

namespace SearchFilter

namespace Json.Reader

/-- White space between tokens. -/
def isBlank (c : Char) : Bool :=
  c == ' ' || c == '\t' || c == '\n' || c == '\r'

/-- A text without the white space it starts with. -/
def skip (cs : List Char) : List Char :=
  cs.dropWhile isBlank

/-- The number that four hexadecimal digits stand for. -/
def fourDigits? (a b c d : Char) : Option Nat := do
  let a ← Hex.value? a
  let b ← Hex.value? b
  let c ← Hex.value? c
  let d ← Hex.value? d
  return ((a * 16 + b) * 16 + c) * 16 + d

/-- The character that a backslash and one character stand for. -/
def shortEscape? : Char → Option Char
  | '"' => some '"'
  | '\\' => some '\\'
  | '/' => some '/'
  | 'b' => some '\x08'
  | 'f' => some '\x0c'
  | 'n' => some '\n'
  | 'r' => some '\r'
  | 't' => some '\t'
  | _ => none

/-- The character that two surrogates stand for, the high one first. -/
def pairedSurrogates? (high low : Nat) : Option Char :=
  if 0xDC00 ≤ low ∧ low ≤ 0xDFFF then
    some (Char.ofNat (0x10000 + (high - 0xD800) * 0x400 + (low - 0xDC00)))
  else none

/-- Reads a string up to its closing quote. -/
def string : List Char → Option (List Char × List Char)
  | [] => none
  | '"' :: rest => some ([], rest)
  | '\\' :: 'u' :: a :: b :: c :: d :: rest =>
    match fourDigits? a b c d with
    | none => none
    | some n =>
      if 0xD800 ≤ n ∧ n ≤ 0xDBFF then
        match rest with
        | '\\' :: 'u' :: e :: f :: g :: h :: rest => do
          let character ← pairedSurrogates? n (← fourDigits? e f g h)
          let (cs, rest) ← string rest
          return (character :: cs, rest)
        | _ => none
      else if 0xDC00 ≤ n ∧ n ≤ 0xDFFF then none
      else do
        let (cs, rest) ← string rest
        return (Char.ofNat n :: cs, rest)
  | '\\' :: c :: rest => do
    let character ← shortEscape? c
    let (cs, rest) ← string rest
    return (character :: cs, rest)
  | c :: rest =>
    if c == '\\' || c.toNat < 0x20 then none
    else do
      let (cs, rest) ← string rest
      return (c :: cs, rest)
termination_by cs => cs.length

/-- The digits that a text starts with and what follows them; there has to be one at least. -/
def digits? (cs : List Char) : Option (List Char × List Char) :=
  match cs.takeWhile Decimal.isDigit with
  | [] => none
  | digits => some (digits, cs.dropWhile Decimal.isDigit)

/-- The whole part of a number. It has no superfluous zero. -/
def whole? : List Char → Option (List Char × List Char)
  | '0' :: rest => some (['0'], rest)
  | cs => digits? cs

/-- The fraction of a number, if there is one. -/
def fraction? : List Char → Option (List Char × List Char)
  | '.' :: rest => do
    let (digits, rest) ← digits? rest
    return ('.' :: digits, rest)
  | cs => some ([], cs)

/-- The exponent of a number, if there is one. -/
def exponent? : List Char → Option (List Char × List Char)
  | [] => some ([], [])
  | c :: rest =>
    if c == 'e' || c == 'E' then
      match rest with
      | '-' :: rest => do
        let (digits, rest) ← digits? rest
        return (c :: '-' :: digits, rest)
      | '+' :: rest => do
        let (digits, rest) ← digits? rest
        return (c :: '+' :: digits, rest)
      | rest => do
        let (digits, rest) ← digits? rest
        return (c :: digits, rest)
    else some ([], c :: rest)

/-- The number that a text starts with, and what follows it. -/
def number? (cs : List Char) : Option (List Char × List Char) := do
  let (sign, cs) := match cs with
    | '-' :: rest => (['-'], rest)
    | cs => ([], cs)
  let (whole, cs) ← whole? cs
  let (fraction, cs) ← fraction? cs
  let (exponent, cs) ← exponent? cs
  return (sign ++ whole ++ fraction ++ exponent, cs)

mutual

/-- Reads a value. The budget bounds the tokens that are read. -/
def value : (budget : Nat) → List Char → Option (Json × List Char)
  | 0, _ => none
  | budget + 1, cs =>
    match skip cs with
    | 'n' :: 'u' :: 'l' :: 'l' :: rest => some (.null, rest)
    | 't' :: 'r' :: 'u' :: 'e' :: rest => some (.bool true, rest)
    | 'f' :: 'a' :: 'l' :: 's' :: 'e' :: rest => some (.bool false, rest)
    | '"' :: rest => do
      let (s, rest) ← string rest
      return (.string (String.ofList s), rest)
    | '[' :: rest =>
      match skip rest with
      | ']' :: rest => some (.array [], rest)
      | rest => do
        let (items, rest) ← items budget rest
        return (.array items, rest)
    | '\x7b' :: rest =>
      match skip rest with
      | '\x7d' :: rest => some (.object [], rest)
      | rest => do
        let (fields, rest) ← fields budget rest
        return (.object fields, rest)
    | rest => do
      let (text, rest) ← number? rest
      return (.number text, rest)

/-- Reads the items of a list and the bracket that closes it. -/
def items : (budget : Nat) → List Char → Option (List Json × List Char)
  | 0, _ => none
  | budget + 1, cs => do
    let (item, rest) ← value budget cs
    match skip rest with
    | ']' :: rest => return ([item], rest)
    | ',' :: rest =>
      let (others, rest) ← items budget rest
      return (item :: others, rest)
    | _ => none

/-- Reads the fields of an object and the brace that closes it. -/
def fields : (budget : Nat) → List Char → Option (List (String × Json) × List Char)
  | 0, _ => none
  | budget + 1, cs =>
    match skip cs with
    | '"' :: rest => do
      let (key, rest) ← string rest
      match skip rest with
      | ':' :: rest =>
        let (item, rest) ← value budget rest
        match skip rest with
        | '\x7d' :: rest => return ([(String.ofList key, item)], rest)
        | ',' :: rest =>
          let (others, rest) ← fields budget rest
          return ((String.ofList key, item) :: others, rest)
        | _ => none
      | _ => none
    | _ => none

end

end Json.Reader

/-- The value that a text stands for. There are no trailing commas, no comments and no raw control
characters in strings, and surrogates come only in pairs. Every token takes a character, which
bounds the reading. -/
def Json.ofText? (text : List Char) : Option Json := do
  let (v, rest) ← Json.Reader.value (text.length + 1) text
  if (Json.Reader.skip rest).isEmpty then return v else none

end SearchFilter
