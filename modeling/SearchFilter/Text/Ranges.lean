namespace SearchFilter

/-- Ascending ranges of code points, each with its first and its last member. -/
abbrev CodeRanges := List (Nat × Nat)

/-- Whether the code point `n` lies in one of the ranges. The search stops at the first range that
does not end before `n`. -/
def CodeRanges.contains : CodeRanges → Nat → Bool
  | [], _ => false
  | (first, last) :: rest, n => if last < n then CodeRanges.contains rest n else first ≤ n

end SearchFilter
