import QueryLoom.Value.Convert

/-!
JSON texts of values. Everything beyond ASCII is escaped, numbers that JSON has no form for are
written as `NaN` and `Infinity`, and keys that are not texts are turned into texts. Two layouts are
in use: one line, and one entry a line with indentation.
-/

namespace QueryLoom.Json

/-- The escape of a UTF-16 unit. -/
def unitEscape (n : Nat) : String := "\\u" ++ Text.hexadecimal 4 n

def escapedChar (c : Char) : String :=
  let n := c.toNat
  if c == '"' then "\\\""
  else if c == '\\' then "\\\\"
  else if c == '\n' then "\\n"
  else if c == '\r' then "\\r"
  else if c == '\t' then "\\t"
  else if n == 8 then "\\b"
  else if n == 12 then "\\f"
  else if 32 ≤ n && n < 127 then String.singleton c
  else if n < 0x10000 then unitEscape n
  else
    let rest := n - 0x10000
    unitEscape (0xD800 + rest / 0x400) ++ unitEscape (0xDC00 + rest % 0x400)

def string (s : String) : String := "\"" ++ String.join (s.toList.map escapedChar) ++ "\""

/-- A JSON number, or the word for a number that JSON has no form for. -/
def number : Binary64 → String
  | .nan => "NaN"
  | .infinite negative => if negative then "-Infinity" else "Infinity"
  | x => x.text

/-- An integer, unless it is too long to be written. -/
def integer (i : Int) : Except Fault String :=
  if Value.isWritten i then .ok (toString i) else .error .badValue

def key : Value → Except Fault String
  | .str s => .ok (string s)
  | .float x => .ok ("\"" ++ number x ++ "\"")
  | .bool b => .ok (if b then "\"true\"" else "\"false\"")
  | .null => .ok "\"null\""
  | .int i => do return "\"" ++ (← integer i) ++ "\""
  | _ => .error .wrongKind

/-- How containers are laid out, and how a value that JSON has no form for is written, if at all. -/
structure Layout where
  indented : Bool
  fallback : Value → Except Fault String

namespace Layout

/-- Everything in one line; values that JSON has no form for are refused. -/
def line : Layout := ⟨false, fun _ => .error .wrongKind⟩

/-- One entry a line, two blanks a level; values that JSON has no form for are refused. -/
def block : Layout := ⟨true, fun _ => .error .wrongKind⟩

/-- One entry a line; values that JSON has no form for are written as their plain texts. -/
def report : Layout := ⟨true, fun v => v.toText.map string⟩

/-- What stands before an entry at a depth, and before the bracket that closes it. -/
def newline (l : Layout) (depth : Nat) : String :=
  if l.indented then "\n" ++ String.ofList (List.replicate (2 * depth) ' ') else ""

def container (l : Layout) (depth : Nat) (left right : String) (entries : List String) : String :=
  if entries.isEmpty then left ++ right
  else
    let between := if l.indented then "," ++ l.newline (depth + 1) else ", "
    left ++ l.newline (depth + 1) ++ between.intercalate entries ++ l.newline depth ++ right

end Layout

mutual

def valueAt (l : Layout) (depth : Nat) : Value → Except Fault String
  | .null => .ok "null"
  | .bool b => .ok (if b then "true" else "false")
  | .int i => integer i
  | .float x => .ok (number x)
  | .str s => .ok (string s)
  | .list items => do return l.container depth "[" "]" (← itemsAt l (depth + 1) items)
  | .dict entries => do
      return l.container depth "\x7b" "\x7d" (← entriesAt l (depth + 1) entries)
  | v => l.fallback v
termination_by structural v => v

def itemsAt (l : Layout) (depth : Nat) : List Value → Except Fault (List String)
  | [] => .ok []
  | v :: rest => do
      let text ← valueAt l depth v
      return text :: (← itemsAt l depth rest)
termination_by structural vs => vs

def entriesAt (l : Layout) (depth : Nat) : List (Value × Value) → Except Fault (List String)
  | [] => .ok []
  | (k, v) :: rest => do
      let name ← key k
      let text ← valueAt l depth v
      return (name ++ ": " ++ text) :: (← entriesAt l depth rest)
termination_by structural es => es

end

def write (l : Layout) (v : Value) : Except Fault String := valueAt l 0 v

end QueryLoom.Json
