import SearchFilter.Octets

namespace SearchFilter.Utf8

/-- The octets of a sequence of characters. -/
def encodeChars (cs : List Char) : Octets :=
  cs.flatMap String.utf8EncodeChar

/-- The octets of a text. -/
def encode (s : String) : Octets :=
  encodeChars s.toList

/-- A continuation octet. -/
def isTail (b : UInt8) : Bool :=
  0x80 ≤ b && b ≤ 0xBF

/-- The least and the greatest octet that may follow a lead octet. They leave out overlong forms,
surrogates and numbers past the last code point. -/
def secondBounds (lead : UInt8) : UInt8 × UInt8 :=
  if lead = 0xE0 then (0xA0, 0xBF)
  else if lead = 0xED then (0x80, 0x9F)
  else if lead = 0xF0 then (0x90, 0xBF)
  else if lead = 0xF4 then (0x80, 0x8F)
  else (0x80, 0xBF)

/-- Whether `b` may stand right behind `lead`. -/
def isSecond (lead b : UInt8) : Bool :=
  (secondBounds lead).1 ≤ b && b ≤ (secondBounds lead).2

/-- The six bits that a continuation octet carries. -/
def tailBits (b : UInt8) : Nat :=
  b.toNat % 64

/-- What the octet `lead` starts, given the octets behind it: a character, or nothing well-formed;
and how many of the octets behind it belong to that character or malformed run. -/
def start (lead : UInt8) (rest : Octets) : Option Char × Nat :=
  if lead < 0x80 then (some (Char.ofNat lead.toNat), 0)
  else if lead < 0xC2 then (none, 0)
  else if lead < 0xE0 then
    match rest with
    | b :: _ =>
      if isTail b then (some (Char.ofNat (lead.toNat % 32 * 64 + tailBits b)), 1) else (none, 0)
    | [] => (none, 0)
  else if lead < 0xF0 then
    match rest with
    | b :: rest =>
      if isSecond lead b then
        match rest with
        | c :: _ =>
          if isTail c then
            (some (Char.ofNat (lead.toNat % 16 * 4096 + tailBits b * 64 + tailBits c)), 2)
          else (none, 1)
        | [] => (none, 1)
      else (none, 0)
    | [] => (none, 0)
  else if lead < 0xF5 then
    match rest with
    | b :: rest =>
      if isSecond lead b then
        match rest with
        | c :: rest =>
          if isTail c then
            match rest with
            | d :: _ =>
              if isTail d then
                (some (Char.ofNat
                  (lead.toNat % 8 * 262144 + tailBits b * 4096 + tailBits c * 64 + tailBits d)), 3)
              else (none, 2)
            | [] => (none, 2)
          else (none, 1)
        | [] => (none, 1)
      else (none, 0)
    | [] => (none, 0)
  else (none, 0)

/-- Cuts octets into characters and malformed runs, after skipping `skip` octets that belong to the
piece before. -/
def piecesAfter : (skip : Nat) → Octets → List (Option Char)
  | _, [] => []
  | skip + 1, _ :: rest => piecesAfter skip rest
  | 0, lead :: rest => (start lead rest).1 :: piecesAfter (start lead rest).2 rest

/-- The characters and malformed runs of an octet string, in order. A malformed run is the longest
start of a well-formed sequence, or a single octet that starts none. -/
def pieces (bs : Octets) : List (Option Char) :=
  piecesAfter 0 bs

/-- The characters of a well-formed octet string. -/
def decodeChars? (bs : Octets) : Option (List Char) :=
  (pieces bs).mapM id

/-- The text of a well-formed octet string. -/
def decode? (bs : Octets) : Option String :=
  (decodeChars? bs).map String.ofList

/-- The character that stands for a malformed run. -/
def replacement : Char := '\uFFFD'

/-- The characters of any octet string, each malformed run shown as one replacement character. -/
def decodeCharsLossy (bs : Octets) : List Char :=
  (pieces bs).map (·.getD replacement)

/-- The text of any octet string, each malformed run shown as one replacement character. -/
def decodeLossy (bs : Octets) : String :=
  String.ofList (decodeCharsLossy bs)

end SearchFilter.Utf8
