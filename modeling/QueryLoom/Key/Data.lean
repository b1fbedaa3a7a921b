import QueryLoom.Key.Scan

/-!
The keys of written data: `column`, `column[JSON]` for a value that is stored as JSON text, and
`column[+]` for an arithmetic update.

    data key := path blanks [[JSON | + | - | * | /]]
-/

namespace QueryLoom

inductive UpdateOperator
  | add | subtract | multiply | divide
deriving DecidableEq, Repr

namespace UpdateOperator

def all : List UpdateOperator := [.add, .subtract, .multiply, .divide]

def text : UpdateOperator → String
  | .add => "+"
  | .subtract => "-"
  | .multiply => "*"
  | .divide => "/"

def ofText? (s : String) : Option UpdateOperator := all.find? fun op => op.text == s

end UpdateOperator

/-- How the value under a data key is written. -/
inductive DataMode
  | plain
  | json
  | arithmetic (operator : UpdateOperator)
deriving DecidableEq, Repr

/-- A data key: a column, and how it is written. -/
structure DataKey where
  column : String
  mode : DataMode
deriving DecidableEq, Repr

namespace DataKey

def isJson (k : DataKey) : Bool := k.mode == .json

def operator? (k : DataKey) : Option UpdateOperator :=
  match k.mode with
  | .arithmetic operator => some operator
  | _ => none

end DataKey

namespace Key

open Text

def dataMode : Option String → Except Reason DataMode
  | none => .ok .plain
  | some suffix =>
      if keywordForm suffix == "JSON" then .ok .json
      else
        match UpdateOperator.ofText? suffix with
        | some operator => .ok (.arithmetic operator)
        | none => .error (.unknownSuffix suffix)

def readDataKey (cs : List Char) : Except Reason DataKey := do
  match takePath? cs with
  | none => .error .expectedColumn
  | some (path, rest) =>
      let (suffix, rest) ← takeBracketed (skipBlanks rest)
      expectEnd rest
      .ok ⟨path.text, ← dataMode suffix⟩

/-- Parses a data key given as a value, which has to be a text. -/
def dataKey : Value → Except Fault DataKey
  | .str key => orFault (.malformedColumn key · .set) (readDataKey (trim key.toList))
  | v => .error (.showing v (.malformedColumn v .nameNotText .set))

end Key

end QueryLoom
