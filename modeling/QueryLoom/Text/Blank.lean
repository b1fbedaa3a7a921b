/-!
White space and trimming. A character is blank when it is an ASCII blank, one of the four ASCII
separators, or a Unicode space: the same set decides what is trimmed from a key, what may stand
between a name and its suffix, and what may stand between a word and a placeholder.
-/

namespace QueryLoom.Text

def isBlank (c : Char) : Bool :=
  let n := c.toNat
  (9 ≤ n && n ≤ 13) || (28 ≤ n && n ≤ 32) || n == 0x85 || n == 0xA0 || n == 0x1680 ||
    (0x2000 ≤ n && n ≤ 0x200A) || n == 0x2028 || n == 0x2029 || n == 0x202F || n == 0x205F ||
    n == 0x3000

/-- The blanks that may surround the text of a number: tab to carriage return, and space. -/
def isAsciiBlank (c : Char) : Bool :=
  c == ' ' || (9 ≤ c.toNat && c.toNat ≤ 13)

/-- Removes the longest run of characters with a property from both ends. -/
def trimWhile (p : Char → Bool) (cs : List Char) : List Char :=
  ((cs.dropWhile p).reverse.dropWhile p).reverse

def trim (cs : List Char) : List Char := trimWhile isBlank cs

def trimmed (s : String) : String := String.ofList (trim s.toList)

end QueryLoom.Text
