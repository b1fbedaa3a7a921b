import QueryLoom.Execution.Executor
import QueryLoom.Sql.Binding

/-!
An executor on a pool of connections. Outside a transaction every statement runs on a connection of its
own, which is committed and closed after it, or rolled back and closed if it fails. A transaction keeps
a connection for the calling thread until it ends. Connections to MySQL are switched to identifiers
between double quotes when they are made.
-/

namespace QueryLoom

/-- A failure on a connection of a pool: one that the pool reports as a database error, or one that
comes from elsewhere and is passed on as it is. -/
inductive PoolFailure
  | database (message : String)
  | foreign (message : String)

/-- What a statement on a connection of a pool gives. -/
structure PoolReply where
  /-- The rows of a query; other statements have none. -/
  rows : Option (List Row)
  rowCount : Int
  lastRowId : Value

/-- A pool of connections; a connection is known by its number. -/
structure Pool (σ : Type) where
  connect : StateM σ Nat
  /-- Runs a statement that prepares a new connection. -/
  prepare : Nat → String → StateM σ Unit
  begin : Nat → StateM σ Unit
  /-- Executes a statement, without values if it has none. -/
  execute : Nat → String → Option Value → StateM σ (Except PoolFailure PoolReply)
  commit : Nat → StateM σ (Except PoolFailure Unit)
  rollback : Nat → StateM σ (Except PoolFailure Unit)
  close : Nat → StateM σ Unit
  dispose : StateM σ Unit

/-- How the driver behind a pool is to be spoken to. -/
structure PoolDialect where
  name : String
  paramStyle : String

namespace PoolDialect

/-- Whether the system needs to be told that identifiers stand between double quotes, and escapes by
backslashes. -/
def isMySql (d : PoolDialect) : Bool := d.name == "mysql" || d.name == "mariadb"

end PoolDialect

namespace PoolExecutor

variable {σ : Type}

/-- A step on a pool. The part of a thread is the connection of its transaction. -/
abbrev PoolStep (σ : Type) := Step σ (Option Nat)

/-- The statement that makes double quotes enclose identifiers. -/
def quotesStatement : String :=
  "SET SESSION sql_mode = CONCAT(@@sql_mode, ',ANSI_QUOTES')"

/-- Makes a connection that is ready for use. -/
def connect (p : Pool σ) (d : PoolDialect) : PoolStep σ Nat := do
  let connection ← Step.shared p.connect
  if d.isMySql then Step.shared (p.prepare connection quotesStatement)
  return connection

/-- Passes a failure on: one of the database becomes a fault of the statement. -/
def orFail {α : Type} (sql : String) : Except PoolFailure α → PoolStep σ α
  | .ok a => pure a
  | .error (.database message) => throw (.execution message sql)
  | .error (.foreign message) => throw (.driver message)

/-- Passes a failure on as it is. -/
def orRaise {α : Type} : Except PoolFailure α → PoolStep σ α
  | .ok a => pure a
  | .error (.database message) | .error (.foreign message) => throw (.driver message)

def resultOf (reply : PoolReply) : ExecutionResult :=
  match reply.rows with
  | some rows => ⟨rows, .int rows.length, .null⟩
  | none => ⟨[], .int (max reply.rowCount 0), reply.lastRowId⟩

def runOn (p : Pool σ) (connection : Nat) (sql statement : String) (values : Value) :
    PoolStep σ ExecutionResult := do
  let reply ←
    Step.shared (p.execute connection statement (if values.truthy then some values else none))
  return resultOf (← orFail sql reply)

/-- Runs a statement on a connection of its own. -/
def runAlone (p : Pool σ) (d : PoolDialect) (sql statement : String) (values : Value) :
    PoolStep σ ExecutionResult := do
  let connection ← connect p d
  let close : PoolStep σ Unit := Step.shared (p.close connection)
  match ← Step.attempt (runOn p connection sql statement values) with
  | .ok result =>
      Step.andFinally (do orFail sql (← Step.shared (p.commit connection))) close
      return result
  | .error f =>
      Step.andFinally (do orFail sql (← Step.shared (p.rollback connection))) close
      throw f

def current : PoolStep σ (Option Nat) := do return (← get).2

def setCurrent (connection : Option Nat) : PoolStep σ Unit := modify fun (s, _) => (s, connection)

/-- Executes a statement on the connection of the transaction, or on one of its own. -/
def execute (p : Pool σ) (d : PoolDialect) (sql : String) (params : Dict) :
    PoolStep σ ExecutionResult := do
  match ParamStyle.ofName? d.paramStyle with
  | none => throw .badValue
  | some style =>
      let (statement, values) := Binding.bind sql params style d.isMySql
      match ← current with
      | some connection => runOn p connection sql statement values
      | none => runAlone p d sql statement values

def begin (p : Pool σ) (d : PoolDialect) : PoolStep σ Unit := do
  if (← current).isSome then
    throw (.execution "A transaction is already open on this thread." none)
  let connection ← connect p d
  Step.shared (p.begin connection)
  setCurrent (some connection)

/-- Ends the transaction of the thread by an action on its connection, which is closed even if the
action fails. -/
def finish (p : Pool σ) (action : Nat → StateM σ (Except PoolFailure Unit)) : PoolStep σ Unit := do
  match ← current with
  | none => throw (.execution "No transaction is open on this thread." none)
  | some connection =>
      setCurrent none
      Step.andFinally (do orRaise (← Step.shared (action connection)))
        (Step.shared (p.close connection))

end PoolExecutor

/-- The executor on a pool. -/
def Pool.executor {σ : Type} (p : Pool σ) (d : PoolDialect) : Executor σ (Option Nat) where
  execute := PoolExecutor.execute p d
  begin := PoolExecutor.begin p d
  commit := PoolExecutor.finish p p.commit
  rollback := PoolExecutor.finish p p.rollback
  close := Step.shared p.dispose
  newThread := none

end QueryLoom
