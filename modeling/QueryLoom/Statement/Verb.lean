import QueryLoom.Statement.Read
import QueryLoom.Statement.Signature
import QueryLoom.Statement.Write

/-!
The verbs of the statement compiler, with their parameters.
-/

namespace QueryLoom

inductive Verb
  | select | get | has | aggregate | rand | insert | update | delete | replace | raw
deriving DecidableEq, Repr

namespace Verb

def all : List Verb :=
  [.select, .get, .has, .aggregate, .rand, .insert, .update, .delete, .replace, .raw]

def name : Verb → String
  | .select => "select"
  | .get => "get"
  | .has => "has"
  | .aggregate => "aggregate"
  | .rand => "rand"
  | .insert => "insert"
  | .update => "update"
  | .delete => "delete"
  | .replace => "replace"
  | .raw => "raw"

def ofName? (s : String) : Option Verb := all.find? fun v => v.name == s

open Signature in
/-- The parameters of a verb, all of which may be given by position. -/
def parameters : Verb → List Parameter
  | .select | .get | .rand =>
      [required "table", ⟨"columns", some "*"⟩, optional "where", optional "join"]
  | .has => [required "table", optional "where", optional "join"]
  | .aggregate =>
      [required "function", required "table", optional "column", optional "where",
        optional "join"]
  | .insert => [required "table", required "rows"]
  | .update => [required "table", required "data", optional "where"]
  | .delete => [required "table", optional "where"]
  | .replace => [required "table", required "columns", optional "where"]
  | .raw => [required "statement"]

def compileWith (t : Target) : Verb → List Value → Compile Compiled
  | .select, [table, columns, wheres, join] => Statement.select t table columns wheres join
  | .get, [table, columns, wheres, join] => Statement.get t table columns wheres join
  | .rand, [table, columns, wheres, join] => Statement.rand t table columns wheres join
  | .has, [table, wheres, join] => Statement.has t table wheres join
  | .aggregate, [function, table, column, wheres, join] =>
      Statement.aggregate t function table column wheres join
  | .insert, [table, rows] => Statement.insert t table rows
  | .update, [table, data, wheres] => Statement.update t table data wheres
  | .delete, [table, wheres] => Statement.delete t table wheres
  | .replace, [table, columns, wheres] => Statement.replace t table columns wheres
  | .raw, [statement] => Statement.raw t statement
  | _, _ => throw .wrongKind

def compile (t : Target) (v : Verb) (args : List Value) : Compile Compiled := do
  let values ← Compile.lift (Signature.bind ⟨v.parameters, []⟩ args [])
  v.compileWith t values

end Verb

end QueryLoom
