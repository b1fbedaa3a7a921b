import QueryLoom.Number.Binary64
import QueryLoom.Text.Blank
import QueryLoom.Text.Digit

/-!
Numbers read from text. Blanks around a number are ignored, one underscore may stand between two
digits, and digits of any script count. A whole number has at most 4300 digits.
-/

namespace QueryLoom.Reading

open Text

/-- The greatest number of digits a whole number is read with. -/
def digitLimit : Nat := 4300

/-- A text with its digits and spaces replaced by their ASCII forms, if it has nothing else beyond
ASCII. A text that is ASCII already stays as it is. -/
def asciiForm? (cs : List Char) : Option (List Char) :=
  cs.mapM fun c =>
    if c.toNat < 128 then some c
    else if isBlank c then some ' '
    else (decimalDigit? c).map fun d => Char.ofNat (48 + d)

/-- Removes the underscores of a text in which each one stands between two digits. `before` is the
character before the text. -/
def joinGroups? (before : Option Char) : List Char → Option (List Char)
  | [] => if before == some '_' then none else some []
  | c :: rest =>
      if c == '_' then
        if before.any Char.isDigit then joinGroups? (some '_') rest else none
      else if before == some '_' && !c.isDigit then none
      else (joinGroups? (some c) rest).map (c :: ·)

/-- Splits a leading sign off; `true` stands for minus. -/
def takeSign : List Char → Bool × List Char
  | '-' :: rest => (true, rest)
  | '+' :: rest => (false, rest)
  | rest => (false, rest)

def digitsValue (digits : List Char) : Nat :=
  digits.foldl (fun n c => 10 * n + (c.toNat - 48)) 0

def wholeOfAscii? (cs : List Char) : Option Int := do
  let cs ← joinGroups? none (trimWhile isAsciiBlank cs)
  let (negative, digits) := takeSign cs
  if digits.isEmpty || !digits.all Char.isDigit || digitLimit < digits.length then none
  else
    let n : Int := digitsValue digits
    some (if negative then -n else n)

/-- The power after the `e` of a number; nothing at all is the power zero. -/
def power? : List Char → Option Int
  | [] => some 0
  | e :: rest =>
      let (negative, digits) := takeSign rest
      if (e == 'e' || e == 'E') && !digits.isEmpty && digits.all Char.isDigit then
        let n : Int := digitsValue digits
        some (if negative then -n else n)
      else none

/-- An unsigned number in decimal notation: coefficient and power of ten. -/
def decimalNotation? (cs : List Char) : Option (Nat × Int) := do
  let whole := cs.takeWhile Char.isDigit
  let rest := cs.dropWhile Char.isDigit
  let (places, rest) :=
    match rest with
    | '.' :: more => (more.takeWhile Char.isDigit, more.dropWhile Char.isDigit)
    | _ => ([], rest)
  let power ← power? rest
  if whole.isEmpty && places.isEmpty then none
  else some (digitsValue (whole ++ places), power - places.length)

/-- A floating point number: a sign, then decimal notation or one of the words for infinity and for
not a number, in any letter case. -/
def binary64OfAscii? (cs : List Char) : Option Binary64 := do
  let cs ← joinGroups? none (trimWhile isAsciiBlank cs)
  let (negative, body) := takeSign cs
  let word := String.ofList (body.map Char.toLower)
  if word == "inf" || word == "infinity" then some (.infinite negative)
  else if word == "nan" then some .nan
  else (decimalNotation? body).map fun (coefficient, power) =>
    .ofDecimal negative coefficient power

/-- A whole number in a text of any script. -/
def whole? (s : String) : Option Int := do wholeOfAscii? (← asciiForm? s.toList)

/-- A floating point number in a text of any script. -/
def binary64? (s : String) : Option Binary64 := do binary64OfAscii? (← asciiForm? s.toList)

end QueryLoom.Reading
