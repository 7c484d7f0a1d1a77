import SearchFilter.Ber.Length
import SearchFilter.Ber.Reader
import SearchFilter.Octets.Utf8

namespace SearchFilter.Ber

/-- The tag of a plain octet string. -/
def octetStringTag : UInt8 := 0x04

/-- The tag of a plain sequence. -/
def sequenceTag : UInt8 := 0x30

/-- A buffer and the places of the length octets still owed, the innermost sequence first. The length
of a sequence is not known when it is opened, so a zero octet holds its place until the sequence is
closed, when the length octets of what was written in between replace it. -/
structure Writer where
  buffer : Octets
  pending : List Nat
  deriving DecidableEq, Repr, Inhabited

namespace Writer

/-- Nothing written yet. -/
def new : Writer :=
  { buffer := [], pending := [] }

/-- Writes octets as they are. -/
def append (w : Writer) (bs : Octets) : Writer :=
  { w with buffer := w.buffer ++ bs }

/-- Writes a tag. -/
def tag (w : Writer) (t : UInt8) : Writer :=
  w.append [t]

/-- Writes an element. -/
def octetString (w : Writer) (t : UInt8) (content : Octets) : Writer :=
  w.append (element t content)

/-- Writes a text as a plain octet string. -/
def string (w : Writer) (s : String) : Writer :=
  w.octetString octetStringTag (Utf8.encode s)

/-- The content octet of a truth value. -/
def booleanOctet (b : Bool) : UInt8 :=
  if b then 0xFF else 0x00

/-- Writes a truth value. -/
def boolean (w : Writer) (t : UInt8) (b : Bool) : Writer :=
  w.octetString t [booleanOctet b]

/-- Writes the element that stands for no value. -/
def null (w : Writer) : Writer :=
  w.octetString Read.nullTag []

/-- Opens a sequence. -/
def openSequence (w : Writer) (t : UInt8) : Writer :=
  { buffer := w.buffer ++ [t, 0], pending := (w.buffer.length + 1) :: w.pending }

/-- Closes the innermost open sequence, if there is one. -/
def closeSequence (w : Writer) : Writer :=
  match w.pending with
  | [] => w
  | place :: pending =>
    let content := w.buffer.drop (place + 1)
    { buffer := w.buffer.take place ++ encodeLength content.length ++ content, pending }

end Writer

end SearchFilter.Ber
