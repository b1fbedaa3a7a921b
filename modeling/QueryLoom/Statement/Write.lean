import QueryLoom.Json.Writer
import QueryLoom.Key.Data
import QueryLoom.Statement.Compiled

/-!
Statements that write: inserting rows, updating and deleting the rows that match, and replacing text
inside columns.
-/

namespace QueryLoom.Statement

/-- The value that is stored: containers, and values under a JSON key, as JSON texts. -/
def storedValue (json : Bool) (v : Value) : Except Fault Value :=
  let encoded := (Json.write .line v).map Value.str
  match v with
  | .dict _ | .list _ => encoded
  | v => if json then encoded else .ok (Conditions.bindScalar v)

def malformed {α : Type} (subject : Value) (reason : Reason) (clause : Clause) :
    Compile α :=
  throw (.showing subject (.malformedColumn subject reason clause))

/-- The rows of an insertion: one dictionary, or a sequence. -/
def insertRows : Value → Compile (List Value)
  | .dict entries => pure [.dict entries]
  | v =>
      if !v.truthy then throw (.refused .noRows)
      else
        match v with
        | .str s => pure (s.toList.map fun c => .str (String.singleton c))
        | v =>
            match v.sequence? with
            | some rows => pure rows
            | none => throw .wrongKind

/-- The keys of written rows with their meanings, in the order in which they first appear. -/
abbrev InsertKeys := List (Value × DataKey)

/-- Adds the keys of a row that are new. -/
def addKeys (keys : InsertKeys) : Dict → Compile InsertKeys
  | [] => pure keys
  | (key, _) :: rest =>
      if Assoc.has key keys then addKeys keys rest
      else do
        let parsed ← Compile.lift (Key.dataKey key)
        if parsed.operator?.isSome then malformed key .arithmeticOutsideUpdate .insert
        addKeys (keys ++ [(key, parsed)]) rest

def collectKeys (keys : InsertKeys) : List Value → Compile InsertKeys
  | [] => pure keys
  | .dict entries :: rest => do
      let keys ← addKeys keys entries
      collectKeys keys rest
  | v :: _ => malformed v .rowNotDict .insert

def keyColumns (t : Target) : InsertKeys → Compile (List Sql)
  | [] => pure []
  | (_, key) :: rest => do
      let first ← t.column key.column
      return first :: (← keyColumns t rest)

/-- The values of a row under the keys; a key that the row lacks is bound to null. -/
def rowValues (t : Target) (row : Dict) : InsertKeys → Compile (List Sql)
  | [] => pure []
  | (key, parsed) :: rest => do
      let first ←
        match Assoc.get? key row with
        | none => Compile.bindValue .null
        | some (.raw sql parameters) => t.splice sql parameters
        | some v => do
            let stored ← Compile.lift (storedValue parsed.isJson v)
            Compile.bindValue stored
      return first :: (← rowValues t row rest)

def rowTuples (t : Target) (keys : InsertKeys) : List Value → Compile (List Sql)
  | [] => pure []
  | .dict row :: rest => do
      let values ← rowValues t row keys
      return Conditions.parenthesized (Sql.join ", " values) :: (← rowTuples t keys rest)
  | _ :: rest => rowTuples t keys rest

def insert (t : Target) (table rows : Value) : Compile Compiled := do
  let rows ← insertRows rows
  let keys ← collectKeys [] rows
  if keys.isEmpty then throw (.refused .noColumns)
  let columns ← keyColumns t keys
  let tuples ← rowTuples t keys rows
  let tableSql ← t.table table
  finish t
    (.text "INSERT INTO " :: tableSql ++ .text " (" :: Sql.join ", " columns ++
      .text ") VALUES " :: Sql.join ", " tuples)
    none

/-- Whether a value is a number, truth values apart. -/
def isNumber : Value → Bool
  | .int _ | .float _ | .decimal _ => true
  | _ => false

def assignment (t : Target) (key v : Value) : Compile Sql := do
  let parsed ← Compile.lift (Key.dataKey key)
  let column ← t.column parsed.column
  match v, parsed.operator? with
  | .raw sql parameters, _ => return column ++ .text " = " :: (← t.splice sql parameters)
  | v, some operator =>
      if !isNumber v then malformed key .arithmeticNeedsNumber .set
      let operand ← Compile.bindValue v
      return column ++ .text " = " :: column ++ .text (" " ++ operator.text ++ " ") :: operand
  | v, none =>
      let stored ← Compile.lift (storedValue parsed.isJson v)
      return column ++ .text " = " :: (← Compile.bindValue stored)

def assignments (t : Target) : Dict → Compile (List Sql)
  | [] => pure []
  | (key, v) :: rest => do
      let first ← assignment t key v
      return first :: (← assignments t rest)

/-- An update of the rows that match. -/
def updateOf (t : Target) (table : Value) (sets : List Sql) (wheres : Value) :
    Compile Compiled := do
  let tableSql ← t.table table
  let head := .text "UPDATE " :: tableSql ++ .text " SET " :: Sql.join ", " sets
  finish t (append head (← Tail.compile t wheres)) none

def update (t : Target) (table data wheres : Value) : Compile Compiled := do
  match data with
  | .dict (entry :: rest) =>
      let sets ← assignments t (entry :: rest)
      updateOf t table sets wheres
  | _ => throw (.refused .noData)

def delete (t : Target) (table wheres : Value) : Compile Compiled := do
  let tableSql ← t.table table
  let head := .text "DELETE FROM " :: tableSql
  finish t (append head (← Tail.compile t wheres)) none

/-- The replacements in an expression, one around the other. -/
def nestedReplace (expression : Sql) : Dict → Compile Sql
  | [] => pure expression
  | (old, new) :: rest => do
      let oldSql ← Compile.bindValue old
      let newSql ← Compile.bindValue new
      nestedReplace
        (.text "REPLACE(" :: expression ++ .text ", " :: oldSql ++ .text ", " :: newSql ++
          [.text ")"])
        rest

/-- The assignments of replacements; a column without any has none. -/
def replacements (t : Target) : Dict → Compile (List Sql)
  | [] => pure []
  | (column, .dict pairs) :: rest => do
      let columnSql ← t.column column
      let expression ← nestedReplace columnSql pairs
      let more ← replacements t rest
      return if pairs.isEmpty then more else (columnSql ++ .text " = " :: expression) :: more
  | (column, _) :: _ => malformed column .replacementsNotDict .set

/-- Replaces text inside columns of the rows that match. -/
def replace (t : Target) (table columns wheres : Value) : Compile Compiled := do
  match columns with
  | .dict entries =>
      let sets ← replacements t entries
      if sets.isEmpty then throw (.refused .nothingToReplace)
      updateOf t table sets wheres
  | _ => throw (.refused .replaceNeedsDict)

end QueryLoom.Statement
