import QueryLoom.Fault
import QueryLoom.Number.Reading
import QueryLoom.Text.Encoding
import QueryLoom.Value.Equality

/-!
Reading JSON texts. Besides JSON proper the words `NaN`, `Infinity` and `-Infinity` are numbers. Of
entries with the same key the last wins. A text that is no JSON is refused at the place where reading
stopped, and the message names that place by line, column and position. The stack bounds how many
containers may stand inside one another; a text is given up at the first one too many.
-/

namespace QueryLoom.Json

/-- Why reading stopped. -/
inductive Issue
  | expectingValue
  | expectingName
  | expectingColon
  | expectingComma
  | unterminatedString
  | controlCharacter
  | badEscape
  | badUnicodeEscape
  | extraData
  | byteOrderMark
deriving DecidableEq, Repr

def Issue.text : Issue → String
  | .expectingValue => "Expecting value"
  | .expectingName => "Expecting property name enclosed in double quotes"
  | .expectingColon => "Expecting ':' delimiter"
  | .expectingComma => "Expecting ',' delimiter"
  | .unterminatedString => "Unterminated string starting at"
  | .controlCharacter => "Invalid control character at"
  | .badEscape => "Invalid \\escape"
  | .badUnicodeEscape => "Invalid \\uXXXX escape"
  | .extraData => "Extra data"
  | .byteOrderMark => "Unexpected UTF-8 BOM (decode using utf-8-sig)"

/-- A failed reading: an issue with the number of characters that were left, or a fault of a value
that was read. -/
inductive Stop
  | issue (issue : Issue) (left : Nat)
  | fault (fault : Fault)

def stopAt {α : Type} (issue : Issue) (rest : List Char) : Except Stop α :=
  .error (.issue issue rest.length)

def isJsonBlank (c : Char) : Bool := c == ' ' || c == '\t' || c == '\n' || c == '\r'

def skipBlanks (cs : List Char) : List Char := cs.dropWhile isJsonBlank

def hexDigit? (c : Char) : Option Nat :=
  if c.isDigit then some (c.toNat - 48)
  else if 'a' ≤ c && c ≤ 'f' then some (c.toNat - 87)
  else if 'A' ≤ c && c ≤ 'F' then some (c.toNat - 55)
  else none

/-- The code in four hexadecimal digits that do not end the text, and the rest. -/
def hexCode? : List Char → Option (Nat × List Char)
  | a :: b :: c :: d :: e :: rest => do
      let code := (((← hexDigit? a) * 16 + (← hexDigit? b)) * 16 + (← hexDigit? c)) * 16 +
        (← hexDigit? d)
      return (code, e :: rest)
  | _ => none

def simpleEscape? : Char → Option Char
  | '"' => some '"'
  | '\\' => some '\\'
  | '/' => some '/'
  | 'b' => some (Char.ofNat 8)
  | 'f' => some (Char.ofNat 12)
  | 'n' => some '\n'
  | 'r' => some '\r'
  | 't' => some '\t'
  | _ => none

def isHighSurrogate (n : Nat) : Bool := 0xD800 ≤ n && n < 0xDC00

def isLowSurrogate (n : Nat) : Bool := 0xDC00 ≤ n && n < 0xE000

/-- The code of a `\u` escape whose digits come next; two escapes may form one code. -/
def unicodeEscape (digits : List Char) : Except Stop (Nat × List Char) :=
  match hexCode? digits with
  | none => .error (.issue .badUnicodeEscape (digits.length + 1))
  | some (code, rest) =>
      match rest with
      | '\\' :: 'u' :: more =>
          if isHighSurrogate code && 4 < more.length then
            match hexCode? more with
            | none => .error (.issue .badUnicodeEscape (more.length + 1))
            | some (low, after) =>
                if isLowSurrogate low then
                  .ok (0x10000 + (code - 0xD800) * 0x400 + (low - 0xDC00), after)
                else .ok (code, rest)
          else .ok (code, rest)
      | _ => .ok (code, rest)

/-- The rest of a string. `opening` is the text from its opening quote on, and `fuel` bounds the
number of steps. -/
def stringRest (opening : List Char) : Nat → List Char → Except Stop (List Char × List Char)
  | 0, _ => stopAt .unterminatedString opening
  | _ + 1, [] => stopAt .unterminatedString opening
  | fuel + 1, c :: rest =>
      if c == '"' then .ok ([], rest)
      else if c == '\\' then
        match rest with
        | [] => stopAt .unterminatedString opening
        | 'u' :: digits => do
            let (code, after) ← unicodeEscape digits
            let (more, after) ← stringRest opening fuel after
            return ((Text.charOfCode? code).toList ++ more, after)
        | e :: after =>
            match simpleEscape? e with
            | none => stopAt .badEscape (c :: rest)
            | some x => do
                let (more, after) ← stringRest opening fuel after
                return (x :: more, after)
      else if c.toNat < 32 then stopAt .controlCharacter (c :: rest)
      else do
        let (more, after) ← stringRest opening fuel rest
        return (c :: more, after)

def string? (opening rest : List Char) : Except Stop (String × List Char) := do
  let (cs, after) ← stringRest opening (rest.length + 1) rest
  return (String.ofList cs, after)

/-- The digits of a whole number: a single zero, or digits that do not begin with one. -/
def wholeDigits : List Char → List Char
  | '0' :: _ => ['0']
  | cs => cs.takeWhile Char.isDigit

def placesDigits : List Char → List Char
  | '.' :: rest =>
      if (rest.takeWhile Char.isDigit).isEmpty then [] else '.' :: rest.takeWhile Char.isDigit
  | _ => []

def powerDigits : List Char → List Char
  | e :: rest =>
      if e == 'e' || e == 'E' then
        let sign := rest.takeWhile (fun c => c == '+' || c == '-') |>.take 1
        let digits := (rest.drop sign.length).takeWhile Char.isDigit
        if digits.isEmpty then [] else e :: sign ++ digits
      else []
  | [] => []

/-- A number; `start` is the text it begins with. -/
def number? (start : List Char) : Except Stop (Value × List Char) :=
  let (negative, unsigned) :=
    match start with
    | '-' :: rest => (true, rest)
    | _ => (false, start)
  let whole := wholeDigits unsigned
  let afterWhole := unsigned.drop whole.length
  let places := placesDigits afterWhole
  let afterPlaces := afterWhole.drop places.length
  let power := powerDigits afterPlaces
  let after := afterPlaces.drop power.length
  if whole.isEmpty then stopAt .expectingValue start
  else if places.isEmpty && power.isEmpty then
    if Reading.digitLimit < whole.length then .error (.fault .badValue)
    else
      let n : Int := Reading.digitsValue whole
      .ok (.int (if negative then -n else n), after)
  else
    match Reading.decimalNotation? (whole ++ places ++ power) with
    | some (coefficient, exponent) =>
        .ok (.float (.ofDecimal negative coefficient exponent), after)
    | none => stopAt .expectingValue start

def words : List (String × Value) :=
  [("null", .null), ("true", .bool true), ("false", .bool false), ("NaN", .float .nan),
    ("Infinity", .float (.infinite false)), ("-Infinity", .float (.infinite true))]

def word? (cs : List Char) : Option (Value × List Char) :=
  words.findSome? fun (w, v) =>
    if cs.take w.length == w.toList then some (v, cs.drop w.length) else none

/-- What becomes of a dictionary once it is complete. -/
abbrev Hook := Dict → Except Fault Value

/-- How many containers an interpreter's stack of the usual size leaves room for. -/
def usualNesting : Nat := 990

/-- Enters a container: how many more may be entered inside it. -/
def enter : Nat → Except Stop Nat
  | 0 => .error (.fault .tooDeep)
  | nesting + 1 => .ok nesting

mutual

/-- A value in which no more than `nesting` containers stand inside one another. -/
def value (hook : Hook) : Nat → Nat → List Char → Except Stop (Value × List Char)
  | 0, _, cs => stopAt .expectingValue cs
  | fuel + 1, nesting, cs =>
      match cs with
      | '"' :: rest => do
          let (s, after) ← string? cs rest
          return (.str s, after)
      | '{' :: rest => do
          let nesting ← enter nesting
          let rest := skipBlanks rest
          let (entries, after) ←
            match rest with
            | '}' :: after => pure ([], after)
            | _ => entries hook fuel nesting [] rest
          match hook entries with
          | .ok v => return (v, after)
          | .error f => .error (.fault f)
      | '[' :: rest => do
          let nesting ← enter nesting
          let rest := skipBlanks rest
          match rest with
          | ']' :: after => return (.list [], after)
          | _ =>
              let (items, after) ← items hook fuel nesting rest
              return (.list items, after)
      | _ =>
          match word? cs with
          | some found => .ok found
          | none => number? cs

def items (hook : Hook) : Nat → Nat → List Char → Except Stop (List Value × List Char)
  | 0, _, cs => stopAt .expectingValue cs
  | fuel + 1, nesting, cs => do
      let (v, rest) ← value hook fuel nesting cs
      match skipBlanks rest with
      | ']' :: after => return ([v], after)
      | ',' :: more =>
          let (vs, after) ← items hook fuel nesting (skipBlanks more)
          return (v :: vs, after)
      | other => stopAt .expectingComma other

/-- The entries of a dictionary after those read before, and its closing brace. -/
def entries (hook : Hook) : Nat → Nat → Dict → List Char → Except Stop (Dict × List Char)
  | 0, _, _, cs => stopAt .expectingName cs
  | fuel + 1, nesting, before, cs =>
      match cs with
      | '"' :: rest => do
          let (name, rest) ← string? cs rest
          match skipBlanks rest with
          | ':' :: rest =>
              let (v, rest) ← value hook fuel nesting (skipBlanks rest)
              let before := Assoc.insert (.str name) v before
              match skipBlanks rest with
              | '}' :: after => return (before, after)
              | ',' :: more => entries hook fuel nesting before (skipBlanks more)
              | other => stopAt .expectingComma other
          | other => stopAt .expectingColon other
      | _ => stopAt .expectingName cs

end

def document (hook : Hook) (nesting : Nat) (cs : List Char) : Except Stop Value := do
  let (v, rest) ← value hook (2 * cs.length + 2) nesting (skipBlanks cs)
  match skipBlanks rest with
  | [] => return v
  | other => stopAt .extraData other

def placeText (cs : List Char) (position : Nat) : String :=
  let before := cs.take position
  let line := before.count '\n' + 1
  let column := (before.reverse.takeWhile (· != '\n')).length + 1
  "line " ++ toString line ++ " column " ++ toString column ++ " (char " ++ toString position ++ ")"

def byteOrderMark : Char := Char.ofNat 0xFEFF

/-- Reads a JSON text; every complete dictionary is handed to the hook. -/
def readWith (hook : Hook) (nesting : Nat) (text : String) : Except Fault Value :=
  let cs := text.toList
  let read :=
    if cs.head? == some byteOrderMark then stopAt .byteOrderMark cs else document hook nesting cs
  match read with
  | .ok v => .ok v
  | .error (.fault f) => .error f
  | .error (.issue issue left) =>
      .error (.badJson (issue.text ++ ": " ++ placeText cs (cs.length - left)))

def read (nesting : Nat) (text : String) : Except Fault Value :=
  readWith (fun entries => .ok (.dict entries)) nesting text

/-- Reads the JSON text that octets encode. -/
def readOctets (nesting : Nat) (octets : List UInt8) : Except Fault Value :=
  match Text.decodeDetected (octets.map UInt8.toNat) with
  | some cs =>
      match document (fun entries => .ok (.dict entries)) nesting cs with
      | .ok v => .ok v
      | .error (.fault f) => .error f
      | .error (.issue _ _) => .error .badValue
  | none => .error .badValue

end QueryLoom.Json
