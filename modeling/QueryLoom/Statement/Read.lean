import QueryLoom.Statement.Compiled
import QueryLoom.Statement.Joins
import QueryLoom.Statement.Projection

/-!
Statements that read: selections in their variants, the test whether any row matches, aggregates, and
whole statements that the caller has written.
-/

namespace QueryLoom

/-- The functions that make one value of all rows. -/
inductive AggregateFunction
  | count | avg | max | min | sum
deriving DecidableEq, Repr

namespace AggregateFunction

def all : List AggregateFunction := [.count, .avg, .max, .min, .sum]

def name : AggregateFunction → String
  | .count => "COUNT"
  | .avg => "AVG"
  | .max => "MAX"
  | .min => "MIN"
  | .sum => "SUM"

def ofName? (s : String) : Option AggregateFunction :=
  all.find? fun f => f.name == Text.keywordForm s

end AggregateFunction

namespace Statement

/-- What follows the head of a selection: table, joins and tail. -/
def selectFrom (t : Target) (head : Sql) (table wheres join : Value) : Compile Sql := do
  let ref ← Compile.lift (Key.tableRefOfValue table)
  let tableSql ← t.tableRef ref
  let sql := head ++ .text " FROM " :: tableSql
  let sql ←
    if join.truthy then do pure (sql ++ .text " " :: (← Joins.compile t ref join)) else pure sql
  return append sql (← Tail.compile t wheres)

def select (t : Target) (table columns wheres join : Value) : Compile Compiled := do
  let tree ← Compile.lift (ColumnSpec.parse columns)
  let projection ← Projection.compile t join.truthy tree
  let sql ← selectFrom t (.text "SELECT " :: projection) table wheres join
  finish t sql tree

/-- A where-specification without its limit. -/
def withoutLimit : Value → Value
  | .dict entries => .dict (Assoc.erase (Value.str Tail.limitKey) entries)
  | v => v

/-- Selects one row: a limit of the caller's is replaced. -/
def get (t : Target) (table columns wheres join : Value) : Compile Compiled := do
  let compiled ← select t table columns (withoutLimit wheres) join
  return { compiled with limitedToOne := true }

def has (t : Target) (table wheres join : Value) : Compile Compiled := do
  let inner ← selectFrom t [.text "SELECT 1"] table wheres join
  finish t (.text "SELECT EXISTS(" :: inner ++ [.text ")"]) none

/-- The argument of an aggregate. Only a count can do without a column. -/
def aggregateArgument (t : Target) (function : AggregateFunction) (column : Value) :
    Compile Sql := do
  let everything : Compile Sql :=
    if function == .count then pure [.text "*"]
    else throw (.refused (.aggregateNeedsColumn function.name))
  match column with
  | .raw sql parameters => t.splice sql parameters
  | .null => everything
  | .str name => if name == "*" then everything else t.column name
  | v => t.column v

def aggregate (t : Target) (function table column wheres join : Value) : Compile Compiled := do
  match AggregateFunction.ofName? function.plain with
  | none => throw (.showing function (.refused (.unknownAggregate function.plain)))
  | some f =>
      let argument ← aggregateArgument t f column
      let head := .text ("SELECT " ++ f.name ++ "(") :: argument ++ [.text ")"]
      let sql ← selectFrom t head table wheres join
      finish t sql none

/-- A where-specification whose order is at random. -/
def randomOrder (t : Target) : Value → Except Fault Value
  | .raw _ _ => .error (.refused .randomNeedsDict)
  | v =>
      let order : Value := .raw t.dialect.randomFunction []
      match v with
      | .dict entries => .ok (.dict (Assoc.insert (Value.str Tail.orderKey) order entries))
      | v => if v.truthy then .error .wrongKind else .ok (.dict [(Tail.orderKey, order)])

/-- Selects rows in random order: an order of the caller's is replaced. -/
def rand (t : Target) (table columns wheres join : Value) : Compile Compiled := do
  let wheres ← Compile.lift (randomOrder t wheres)
  select t table columns wheres join

/-- A whole statement written as a raw value. -/
def raw (t : Target) : Value → Compile Compiled
  | .raw sql parameters => do finish t (← t.splice sql parameters) none
  | _ => throw .missingMember

end Statement

end QueryLoom
