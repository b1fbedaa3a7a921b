import QueryLoom.Key.Scan

/-!
Column references, `table.column(alias)[Type]`, and the alias keys of raw columns, `alias[Type]`.

    reference := (name | name.name | name.* | *) blanks [(name)] blanks [[Type]]
    alias key := (name | name.name) blanks [[Type]]
-/

namespace QueryLoom.Key

open Text

def valueType? (name : String) : Option ValueType :=
  ValueType.all.find? fun t => smallLetters t.name == smallLetters name

/-- The type in a bracket; blanks around its name do not count. -/
def typeOfBracket : Option String → Except Reason (Option ValueType)
  | none => .ok none
  | some name =>
      match valueType? (trimmed name) with
      | some t => .ok (some t)
      | none => .error (.unknownType name)

/-- The qualified column at the front of a reference, `*` for all columns. -/
def takeColumnPath : List Char → Except Reason (Path × List Char)
  | '*' :: rest => .ok (⟨none, "*"⟩, rest)
  | cs =>
      let (first, rest) := takeName cs
      if first.isEmpty then .error .expectedColumn
      else
        match rest with
        | '.' :: '*' :: more => .ok (⟨some first, "*"⟩, more)
        | '.' :: more =>
            let (second, after) := takeName more
            if second.isEmpty then .error .expectedColumnAfterDot
            else .ok (⟨some first, second⟩, after)
        | _ => .ok (⟨none, first⟩, rest)

def readColumnRef (cs : List Char) : Except Reason ColumnRef := do
  let (path, rest) ← takeColumnPath cs
  let (label, rest) ← takeAlias (skipBlanks rest)
  let (bracket, rest) ← takeBracketed (skipBlanks rest)
  let type ← typeOfBracket bracket
  expectEnd (skipBlanks rest)
  let ref : ColumnRef := ⟨path.table, path.column, label, type⟩
  if ref.isWildcard && (label.isSome || type.isSome) then .error .decoratedWildcard else .ok ref

def columnRef (text : String) : Except Fault ColumnRef :=
  orFault (.malformedColumn text · .select) (readColumnRef (trim text.toList))

/-- Parses a column reference given as a value, which has to be a text. -/
def columnRefOfValue : Value → Except Fault ColumnRef
  | .str text => columnRef text
  | v => .error (.showing v (.malformedColumn v .referenceNotText .select))

/-- Reads the alias key of a raw column without blanks at its ends. A qualifier is dropped. -/
def readRawColumnKey (cs : List Char) : Except Reason ColumnRef := do
  match takePath? cs with
  | none => .error .rawNeedsAlias
  | some (path, rest) =>
      let (bracket, rest) ← takeBracketed (skipBlanks rest)
      let type ← typeOfBracket bracket
      expectEnd (skipBlanks rest)
      .ok ⟨none, path.column, some path.column, type⟩

def rawColumnKey (key : String) : Except Fault ColumnRef :=
  orFault (.malformedColumn key · .select) (readRawColumnKey (trim key.toList))

end QueryLoom.Key
