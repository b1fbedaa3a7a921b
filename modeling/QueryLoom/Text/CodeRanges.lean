/-!
Sets of characters given by closed ranges of code points. The Unicode tables of this library are
values of this type; everything below U+0080 is decided without them.
-/

namespace QueryLoom.Text

/-- A set of code points as a list of closed ranges. -/
abbrev CodeRanges := List (Nat × Nat)

def CodeRanges.holds (ranges : CodeRanges) (code : Nat) : Bool :=
  ranges.any fun (lo, hi) => lo ≤ code && code ≤ hi

/-- Whether a character outside ASCII lies in one of the ranges. -/
def CodeRanges.holdsBeyondAscii (ranges : CodeRanges) (c : Char) : Bool :=
  128 ≤ c.toNat && ranges.holds c.toNat

end QueryLoom.Text
