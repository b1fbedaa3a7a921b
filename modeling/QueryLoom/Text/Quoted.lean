import QueryLoom.Text.Printable

/-!
Quoted texts as messages show them. A text stands between single quotes, or between double quotes if
it holds a single quote and no double quote; the backslash, the chosen quote and every character that
is not printable are escaped.
-/

namespace QueryLoom.Text

/-- Lower-case hexadecimal digits, with leading zeros up to a width. -/
def hexadecimal (width n : Nat) : String :=
  let digits := Nat.toDigits 16 n
  String.ofList (List.replicate (width - digits.length) '0' ++ digits)

/-- The quote that a text is written between. -/
def quoteFor (cs : List Char) : Char :=
  if cs.contains '\'' && !cs.contains '"' then '"' else '\''

def quotedChar (quote c : Char) : String :=
  let n := c.toNat
  if c == quote || c == '\\' then String.ofList ['\\', c]
  else if c == '\n' then "\\n"
  else if c == '\r' then "\\r"
  else if c == '\t' then "\\t"
  else if isPrintable c then String.singleton c
  else if n < 0x100 then "\\x" ++ hexadecimal 2 n
  else if n < 0x10000 then "\\u" ++ hexadecimal 4 n
  else "\\U" ++ hexadecimal 8 n

def quoted (s : String) : String :=
  let quote := quoteFor s.toList
  String.singleton quote ++ String.join (s.toList.map (quotedChar quote)) ++ String.singleton quote

/-- Octets between quotes: those that are ASCII characters are shown as such. -/
def quotedOctets (octets : List UInt8) : String :=
  let cs := octets.map fun o => Char.ofNat o.toNat
  let quote := quoteFor cs
  let one (c : Char) : String :=
    if c.toNat < 128 then quotedChar quote c else "\\x" ++ hexadecimal 2 c.toNat
  "b" ++ String.singleton quote ++ String.join (cs.map one) ++ String.singleton quote

end QueryLoom.Text
