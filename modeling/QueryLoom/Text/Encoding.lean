/-!
Decoding of octets as UTF-8, UTF-16 and UTF-32. A JSON text may come in any of them; which one is
told by a byte order mark or, without a mark, by where the first four octets are zero. A surrogate
that stands alone is no character and becomes the replacement character.
-/

namespace QueryLoom.Text

/-- The character with a code, the replacement character for a surrogate, and nothing beyond the
last code point. -/
def charOfCode? (n : Nat) : Option Char :=
  if 0x110000 ≤ n then none
  else if 0xD800 ≤ n && n < 0xE000 then some (Char.ofNat 0xFFFD)
  else some (Char.ofNat n)

def continuation? (o : Nat) : Option Nat :=
  if 0x80 ≤ o && o < 0xC0 then some (o - 0x80) else none

/-- Decodes UTF-8: every code in its shortest form, surrogates included. -/
def decodeUtf8 : List Nat → Option (List Char)
  | [] => some []
  | a :: rest =>
      if a < 0x80 then do return Char.ofNat a :: (← decodeUtf8 rest)
      else
        match rest with
        | b :: rest₁ =>
            if 0xC2 ≤ a && a < 0xE0 then do
              let c ← charOfCode? ((a - 0xC0) * 64 + (← continuation? b))
              return c :: (← decodeUtf8 rest₁)
            else
              match rest₁ with
              | c :: rest₂ =>
                  if 0xE0 ≤ a && a < 0xF0 then do
                    let code :=
                      ((a - 0xE0) * 64 + (← continuation? b)) * 64 + (← continuation? c)
                    if code < 0x800 then none
                    else return (← charOfCode? code) :: (← decodeUtf8 rest₂)
                  else
                    match rest₂ with
                    | d :: rest₃ =>
                        if 0xF0 ≤ a && a < 0xF5 then do
                          let code :=
                            (((a - 0xF0) * 64 + (← continuation? b)) * 64 +
                              (← continuation? c)) * 64 + (← continuation? d)
                          if code < 0x10000 then none
                          else return (← charOfCode? code) :: (← decodeUtf8 rest₃)
                        else none
                    | [] => none
              | [] => none
        | [] => none

/-- The 16-bit units of octets; `big` puts the high octet first. -/
def units16 (big : Bool) : List Nat → Option (List Nat)
  | [] => some []
  | a :: b :: rest => do
      return (if big then a * 256 + b else b * 256 + a) :: (← units16 big rest)
  | [_] => none

def charsOfUnits : List Nat → Option (List Char)
  | [] => some []
  | [u] => (charOfCode? u).map fun c => [c]
  | u :: v :: rest =>
      if 0xD800 ≤ u && u < 0xDC00 && 0xDC00 ≤ v && v < 0xE000 then do
        let c ← charOfCode? (0x10000 + (u - 0xD800) * 0x400 + (v - 0xDC00))
        return c :: (← charsOfUnits rest)
      else do return (← charOfCode? u) :: (← charsOfUnits (v :: rest))

def decodeUtf16 (big : Bool) (octets : List Nat) : Option (List Char) := do
  charsOfUnits (← units16 big octets)

def decodeUtf32 (big : Bool) : List Nat → Option (List Char)
  | [] => some []
  | a :: b :: c :: d :: rest => do
      let code :=
        if big then ((a * 256 + b) * 256 + c) * 256 + d else ((d * 256 + c) * 256 + b) * 256 + a
      return (← charOfCode? code) :: (← decodeUtf32 big rest)
  | _ => none

/-- Decodes octets in the encoding that their first few tell. -/
def decodeDetected (octets : List Nat) : Option (List Char) :=
  match octets with
  | 0 :: 0 :: 0xFE :: 0xFF :: rest => decodeUtf32 true rest
  | 0xFF :: 0xFE :: 0 :: 0 :: rest => decodeUtf32 false rest
  | 0xFE :: 0xFF :: rest => decodeUtf16 true rest
  | 0xFF :: 0xFE :: rest => decodeUtf16 false rest
  | 0xEF :: 0xBB :: 0xBF :: rest => decodeUtf8 rest
  | a :: b :: c :: d :: _ =>
      if a == 0 then if b == 0 then decodeUtf32 true octets else decodeUtf16 true octets
      else if b == 0 then
        if c == 0 && d == 0 then decodeUtf32 false octets else decodeUtf16 false octets
      else decodeUtf8 octets
  | [a, b] =>
      if a == 0 then decodeUtf16 true octets
      else if b == 0 then decodeUtf16 false octets
      else decodeUtf8 octets
  | _ => decodeUtf8 octets

end QueryLoom.Text
