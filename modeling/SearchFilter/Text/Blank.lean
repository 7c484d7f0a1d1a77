import SearchFilter.Text.Ranges

namespace SearchFilter.Blank

/-- The code points with the property White_Space. -/
def ranges : CodeRanges :=
  [(0x9, 0xd), (0x20, 0x20), (0x85, 0x85), (0xa0, 0xa0), (0x1680, 0x1680), (0x2000, 0x200a),
   (0x2028, 0x2029), (0x202f, 0x202f), (0x205f, 0x205f), (0x3000, 0x3000)]

/-- Whether a character is white space. -/
def contains (c : Char) : Bool :=
  ranges.contains c.toNat

/-- A text without the white space at its two ends. -/
def trim (cs : List Char) : List Char :=
  (((cs.dropWhile contains).reverse).dropWhile contains).reverse

end SearchFilter.Blank
