import QueryLoom.Key.Table
import QueryLoom.Statement.Parameters

/-!
Joins. A dictionary maps join keys to relations: a column name or a list of names that both tables
share, or a dictionary from columns of the base table to columns of the joined one. A column on the
left that holds a dot names its own table.
-/

namespace QueryLoom.Joins

def malformed {α : Type} (key : String) (reason : Reason) : Compile α :=
  throw (.malformedJoin key reason)

def bareNames : List Value → Compile (List Sql)
  | [] => pure []
  | v :: rest => do
      let first ← Compile.bareName v
      return first :: (← bareNames rest)

/-- The equations of a dictionary of columns. -/
def equations (t : Target) (base joined : TableRef) : List (Value × Value) → Compile (List Sql)
  | [] => pure []
  | (left, right) :: rest => do
      Compile.requireText left
      let leftSql ←
        if left.plain.toList.contains '.' then t.column left
        else do
          let table ← t.table base.qualifier
          pure (table ++ .text "." :: (← Compile.bareName left))
      let table ← t.table joined.qualifier
      let rightSql := table ++ .text "." :: (← Compile.bareName right)
      return (leftSql ++ .text " = " :: rightSql) :: (← equations t base joined rest)

/-- What follows the joined table. -/
def relation (t : Target) (base joined : TableRef) (key : String) : Value → Compile Sql
  | .str name => do return .text "USING (" :: (← Compile.bareName name) ++ [.text ")"]
  | .dict [] => malformed key .emptyOn
  | .dict entries => do
      return .text "ON " :: Sql.join " AND " (← equations t base joined entries)
  | .list [] => malformed key .emptyUsing
  | .list names => do
      return .text "USING (" :: Sql.join ", " (← bareNames names) ++ [.text ")"]
  | _ => malformed key .badRelation

def clauses (t : Target) (base : TableRef) : List (Value × Value) → Compile (List Sql)
  | [] => pure []
  | (.str key, v) :: rest => do
      let parsed ← Compile.lift (Key.joinKey key)
      let table ← t.tableRef parsed.target
      let condition ← relation t base parsed.target key v
      let first :=
        .text (parsed.direction.keyword ++ " JOIN ") :: table ++ .text " " :: condition
      return first :: (← clauses t base rest)
  | (key, _) :: _ => throw (.showing key (.malformedJoin key.plain .joinKeyNotText))

def compile (t : Target) (base : TableRef) : Value → Compile Sql
  | .dict (entry :: rest) => do return Sql.join " " (← clauses t base (entry :: rest))
  | v => throw (.showing v (.malformedJoin v.plain .joinsNotDict))

end QueryLoom.Joins
