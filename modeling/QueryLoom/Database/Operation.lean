import QueryLoom.Statement.Read
import QueryLoom.Statement.Signature

/-!
Read operations as data, so that several of them can be handed over together.
-/

namespace QueryLoom

/-- The reads that can be handed over as data. -/
inductive OperationKind
  | select | get | has | count | avg | max | min | sum
deriving DecidableEq, Repr

namespace OperationKind

def all : List OperationKind := [.select, .get, .has, .count, .avg, .max, .min, .sum]

def name : OperationKind → String
  | .select => "select"
  | .get => "get"
  | .has => "has"
  | .count => "count"
  | .avg => "avg"
  | .max => "max"
  | .min => "min"
  | .sum => "sum"

def ofName (s : String) : Except Fault OperationKind :=
  match all.find? fun k => k.name == s with
  | some k => .ok k
  | none => .error .badValue

def aggregate? : OperationKind → Option AggregateFunction
  | .count => some .count
  | .avg => some .avg
  | .max => some .max
  | .min => some .min
  | .sum => some .sum
  | .select | .get | .has => none

open Signature in
/-- The parameters of an operation, all of which may be given by position. -/
def parameters : OperationKind → List Parameter
  | .select | .get =>
      [required "table", ⟨"columns", some "*"⟩, optional "where", optional "join"]
  | .has => [required "table", optional "where", optional "join"]
  | .count => [required "table", optional "column", optional "where", optional "join"]
  | .avg | .max | .min | .sum =>
      [required "table", required "column", optional "where", optional "join"]

end OperationKind

structure Operation where
  kind : OperationKind
  table : Value
  columns : Value
  wheres : Value
  join : Value

namespace Operation

def ofArguments (kind : OperationKind) (args : List Value) : Except Fault Operation := do
  match ← Signature.bind ⟨kind.parameters, []⟩ args [] with
  | [table, columns, wheres, join] => return ⟨kind, table, columns, wheres, join⟩
  | [table, wheres, join] => return ⟨kind, table, .null, wheres, join⟩
  | _ => throw .wrongKind

end Operation

end QueryLoom
