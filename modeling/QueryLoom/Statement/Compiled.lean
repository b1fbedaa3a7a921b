import QueryLoom.Columns.Spec
import QueryLoom.Statement.Tail

/-!
Compiled statements: SQL with named placeholders, the values of the placeholders, and for queries the
column tree that shapes their rows.
-/

namespace QueryLoom

structure Compiled where
  /-- The statement as it was compiled. -/
  body : Sql
  /-- Whether a limit of one row follows the statement. -/
  limitedToOne : Bool
  params : List (String × Value)
  dialect : Dialect
  columns : Option ColumnTree

namespace Compiled

def sql (c : Compiled) : Sql := if c.limitedToOne then c.body ++ [.text " LIMIT 1"] else c.body

def text (c : Compiled) : String := c.sql.text

def paramsDict (c : Compiled) : Dict := c.params.map fun (name, value) => (.str name, value)

end Compiled

namespace Statement

/-- Adds a tail after a blank; a tail without text adds nothing. -/
def append (sql tail : Sql) : Sql := if tail.text.isEmpty then sql else sql ++ .text " " :: tail

/-- Finishes a statement with the parameters bound so far. -/
def finish (t : Target) (sql : Sql) (columns : Option ColumnTree) : Compile Compiled := do
  return ⟨sql, false, (← get).bound, t.dialect, columns⟩

/-- Compiles with an empty set of parameters. The counter starts where it stands, and is returned
as it stands afterwards, also after a fault. -/
def run {α : Type} (step : Compile α) (next : Nat) : Except Fault α × Nat :=
  let (result, state) := (ExceptT.run step).run (Parameters.start next)
  (result, state.next)

end Statement

end QueryLoom
