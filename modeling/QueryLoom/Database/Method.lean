import QueryLoom.Database.Chunks

/-!
The methods of a database, each with its parameters and what a call on it does.
-/

namespace QueryLoom

inductive Method
  | select | get | rand | has
  | aggregate | count | avg | max | min | sum
  | insert | update | delete | replace
  | query | execute | generate
  | debug | error | id | last | log
  | begin | commit | rollback | inTransaction
  | parallelSelect
deriving DecidableEq, Repr

namespace Method

def all : List Method :=
  [.select, .get, .rand, .has, .aggregate, .count, .avg, .max, .min, .sum, .insert, .update,
    .delete, .replace, .query, .execute, .generate, .debug, .error, .id, .last, .log, .begin,
    .commit, .rollback, .inTransaction, .parallelSelect]

def name : Method → String
  | .select => "select"
  | .get => "get"
  | .rand => "rand"
  | .has => "has"
  | .aggregate => "aggregate"
  | .count => "count"
  | .avg => "avg"
  | .max => "max"
  | .min => "min"
  | .sum => "sum"
  | .insert => "insert"
  | .update => "update"
  | .delete => "delete"
  | .replace => "replace"
  | .query => "query"
  | .execute => "execute"
  | .generate => "generate"
  | .debug => "debug"
  | .error => "error"
  | .id => "id"
  | .last => "last"
  | .log => "log"
  | .begin => "begin"
  | .commit => "commit"
  | .rollback => "rollback"
  | .inTransaction => "in_transaction"
  | .parallelSelect => "parallel_select"

def ofName? (s : String) : Option Method := all.find? fun m => m.name == s

open Signature in
def signature : Method → Signature
  | .select | .get | .rand =>
      ⟨[required "table", ⟨"columns", some "*"⟩, optional "where"], [optional "join"]⟩
  | .has => ⟨[required "table", optional "where"], [optional "join"]⟩
  | .aggregate =>
      ⟨[required "function", required "table", optional "column", optional "where"],
        [optional "join"]⟩
  | .count => ⟨[required "table", optional "column", optional "where"], [optional "join"]⟩
  | .avg | .max | .min | .sum =>
      ⟨[required "table", required "column", optional "where"], [optional "join"]⟩
  | .insert => ⟨[required "table", required "rows"], []⟩
  | .update => ⟨[required "table", required "data", optional "where"], []⟩
  | .delete => ⟨[required "table", required "where"], []⟩
  | .replace => ⟨[required "table", required "columns", optional "where"], []⟩
  | .query => ⟨[required "raw"], []⟩
  | .execute => ⟨[required "sql", optional "params"], []⟩
  | .generate => ⟨[required "sql", required "params"], []⟩
  | .debug | .error | .id | .last | .log | .begin | .commit | .rollback | .inTransaction => ⟨[], []⟩
  | .parallelSelect =>
      ⟨[required "table", ⟨"columns", some "*"⟩, optional "where"],
        [optional "join", ⟨"chunk_size", some (.int 1000)⟩, ⟨"max_parallel", some (.int 5)⟩]⟩

def aggregate? : Method → Option AggregateFunction
  | .count => some .count
  | .avg => some .avg
  | .max => some .max
  | .min => some .min
  | .sum => some .sum
  | _ => none

end Method

namespace Database

variable {σ τ : Type}

/-- The reply of an action that has nothing to give. -/
def quietly (action : Action σ τ Unit) : Action σ τ Reply := do
  action
  return .value .null

def inspect (f : DatabaseState σ τ → Reply) : Action σ τ Reply := do return f (← get)

/-- A statement with its values written in; both are given by the caller. -/
def generateReply (db : Database σ τ) (sql params : Value) : Except Fault Reply := do
  match sql with
  | .str sql =>
      let params ← Binding.suppliedParams db.dialect.backslashEscapes sql params
      return .value (.str (← db.generate sql params))
  | _ => throw .wrongKind

def perform (db : Database σ τ) (m : Method) (values : List Value) : Action σ τ Reply :=
  match m, values with
  | .select, [table, columns, wheres, join] => db.select table columns wheres join
  | .get, [table, columns, wheres, join] => db.getFirst table columns wheres join
  | .rand, [table, columns, wheres, join] => db.rand table columns wheres join
  | .has, [table, wheres, join] => db.has table wheres join
  | .aggregate, [function, table, column, wheres, join] =>
      db.aggregate function table column wheres join
  | .insert, [table, rows] => db.insert table rows
  | .update, [table, data, wheres] => db.update table data wheres
  | .delete, [table, wheres] => db.delete table wheres
  | .replace, [table, columns, wheres] => db.replace table columns wheres
  | .query, [statement] => db.query statement
  | .execute, [sql, params] => db.executeText sql params
  | .generate, [sql, params] => lift (db.generateReply sql params)
  | .debug, _ => do
      modifyThread fun t => { t with dryRun := true }
      return .database
  | .error, _ => inspect fun s => (s.lastError.map Reply.fault).getD (.value .null)
  | .id, _ => inspect fun s => .value s.lastInsertId
  | .last, _ => do return .value (((← lift (db.last? (← get))).map Value.str).getD .null)
  | .log, _ => do return .value (.list ((← lift (db.log (← get))).map .str))
  | .begin, _ => quietly db.begin
  | .commit, _ => quietly db.commit
  | .rollback, _ => quietly db.rollback
  | .inTransaction, _ => do return .value (.bool (← inTransaction))
  | .parallelSelect, [table, columns, wheres, join, size, atOnce] =>
      db.selectInChunks table columns wheres join size atOnce
  | m, [table, column, wheres, join] =>
      match m.aggregate? with
      | some f => db.aggregate f.name table column wheres join
      | none => throw .wrongKind
  | _, _ => throw .wrongKind

def call (db : Database σ τ) (m : Method) (args : List Value) (named : List (String × Value)) :
    Action σ τ Reply := do
  db.perform m (← lift (m.signature.bind args named))

end Database

end QueryLoom
