import QueryLoom.Key.Table
import QueryLoom.Sql.Piece

/-!
Identifiers. A name is checked against letters, digits and the underscore before it is quoted, so a
quoted identifier never carries SQL. Names of tables, and the table part of a qualified column,
receive the table prefix; names of columns do not.
-/

namespace QueryLoom.Identifier

/-- The name that a value gives, if it is one. -/
def check (kind : NameKind) : Value → Except Fault String
  | .str s => if Key.isName s then .ok s else .error (.invalidIdentifier s kind)
  | v => .error (.showing v (.invalidIdentifier v.plain kind))

def bare (name : Value) : Except Fault Sql := do
  return [.name (← check .column name)]

def table (tablePrefix : String) (name : Value) : Except Fault Sql := do
  return [.name (tablePrefix ++ (← check .table name))]

/-- The name of a column, which may be qualified by a table. -/
def column (tablePrefix : String) (name : Value) : Except Fault Sql :=
  match name with
  | .str s =>
      match s.toList.dropWhile (· != '.') with
      | _ :: rest =>
          if rest.contains '.' then .error (.invalidIdentifier s .column)
          else do
            let qualifier := String.ofList (s.toList.takeWhile (· != '.'))
            let tableSql ← table tablePrefix qualifier
            let columnSql ← bare (String.ofList rest)
            return tableSql ++ .text "." :: columnSql
      | [] => bare name
  | _ => bare name

/-- A table with its alias. Both receive the prefix. -/
def tableRef (tablePrefix : String) (ref : TableRef) : Except Fault Sql := do
  let sql ← table tablePrefix ref.table
  match ref.label with
  | none => return sql
  | some label => return sql ++ .text " AS " :: (← table tablePrefix label)

end QueryLoom.Identifier
