import QueryLoom.Key.Scan

/-!
Table references, `table(alias)`, and join keys, `[direction]table(alias)`.

    table := name blanks [(name)]
    join  := [direction] name blanks [(name)]
-/

namespace QueryLoom

inductive JoinDirection
  | left | right | full | inner
deriving DecidableEq, Repr

namespace JoinDirection

def all : List JoinDirection := [.left, .right, .full, .inner]

def tag : JoinDirection → String
  | .left => ">"
  | .right => "<"
  | .full => "<>"
  | .inner => "><"

/-- The keyword before `JOIN`. -/
def keyword : JoinDirection → String
  | .left => "LEFT"
  | .right => "RIGHT"
  | .full => "FULL"
  | .inner => "INNER"

def ofTag? (s : String) : Option JoinDirection := all.find? fun d => d.tag == s

end JoinDirection

/-- A table and the alias it is given. -/
structure TableRef where
  table : String
  label : Option String
deriving DecidableEq, Repr

/-- The name that qualifies the columns of a table. -/
def TableRef.qualifier (r : TableRef) : String := r.label.getD r.table

/-- A join key: how a table is joined, and which one. -/
structure JoinKey where
  direction : JoinDirection
  target : TableRef
deriving DecidableEq, Repr

namespace Key

open Text

def readTableRef? (cs : List Char) : Option TableRef :=
  let (table, rest) := takeName cs
  match takeAlias (skipBlanks rest) with
  | .error _ => none
  | .ok (label, rest) =>
      if table.isEmpty || !(skipBlanks rest).isEmpty then none else some ⟨table, label⟩

def tableRef (text : String) : Except Fault TableRef :=
  match readTableRef? (trim text.toList) with
  | some ref => .ok ref
  | none => .error (.invalidIdentifier text .table)

/-- Parses a table reference given as a value, which has to be a text. -/
def tableRefOfValue : Value → Except Fault TableRef
  | .str text => tableRef text
  | v => .error (.showing v (.invalidIdentifier v.plain .table))

def readJoinKey (cs : List Char) : Except Reason JoinKey := do
  match takeBracketed cs with
  | .error _ => .error .unterminatedDirection
  | .ok (none, _) => .error .missingDirection
  | .ok (some tag, rest) =>
      match JoinDirection.ofTag? tag with
      | none => .error (.unknownDirection tag)
      | some direction =>
          let (table, rest) := takeName rest
          if table.isEmpty then .error .expectedTableAfterDirection
          else
            let (label, rest) ← takeAlias (skipBlanks rest)
            expectEnd rest
            .ok ⟨direction, ⟨table, label⟩⟩

def joinKey (key : String) : Except Fault JoinKey :=
  orFault (.malformedJoin key) (readJoinKey (trim key.toList))

end Key

end QueryLoom
