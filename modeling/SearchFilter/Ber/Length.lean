import SearchFilter.Octets

namespace SearchFilter.Ber

/-- The digits of a number in base 256, the highest first; none for zero. -/
def toBase256 (n : Nat) : Octets :=
  if n = 0 then [] else toBase256 (n / 256) ++ [UInt8.ofNat (n % 256)]
termination_by n
decreasing_by omega

/-- The number with these digits in base 256. -/
def ofBase256 (digits : Octets) : Nat :=
  digits.foldl (fun n b => n * 256 + b.toNat) 0

/-- The length octets of a content of `n` octets. A length below 128 is one octet; any other is its
digits in base 256 behind an octet that counts them, and no more digits than it takes. -/
def encodeLength (n : Nat) : Octets :=
  if n < 128 then [UInt8.ofNat n]
  else UInt8.ofNat (128 + (toBase256 n).length) :: toBase256 n

/-- The element with this tag and content. -/
def element (tag : UInt8) (content : Octets) : Octets :=
  tag :: encodeLength content.length ++ content

end SearchFilter.Ber
