import QueryLoom.Execution.Executor
import QueryLoom.Sql.Binding

/-!
An executor on a single connection. Outside a transaction every statement is committed on its own, and
rolled back if it fails; inside one nothing is committed or rolled back until the transaction ends.
All threads share the connection and its transaction.
-/

namespace QueryLoom

/-- What a cursor holds after a statement. -/
structure CursorReply where
  /-- The names of the columns of a query; other statements have none. -/
  columns : Option (List Value)
  /-- The rows, or the message of the driver when fetching them fails. -/
  rows : Except String (List (List Value))
  /-- The number of affected rows, if the driver knows it. -/
  rowCount : Option Int
  lastRowId : Value

/-- A connection of a database driver. A failure is given by the driver's message. -/
structure Connection (σ : Type) where
  execute : String → Value → StateM σ (Except String CursorReply)
  closeCursor : StateM σ Unit
  commit : StateM σ (Except String Unit)
  rollback : StateM σ (Except String Unit)
  close : StateM σ Unit

/-- A connection together with whether a transaction is open on it. -/
structure ConnectionState (σ : Type) where
  driver : σ
  inTransaction : Bool

namespace ConnectionExecutor

variable {σ : Type}

abbrev State (σ : Type) := ConnectionState σ

/-- An action of the driver. -/
def drive {α : Type} (action : StateM σ α) : Step (State σ) Unit α :=
  Step.shared do
    let s ← get
    let (a, d) := action.run s.driver
    set { s with driver := d }
    return a

def inTransaction : Step (State σ) Unit Bool := do return (← get).1.inTransaction

def setTransaction (isOpen : Bool) : Step (State σ) Unit Unit :=
  modify fun (s, t) => ({ s with inTransaction := isOpen }, t)

/-- An action of the driver whose failure is passed on as it is. -/
def driveOrFail (action : StateM σ (Except String Unit)) : Step (State σ) Unit Unit := do
  match ← drive action with
  | .ok () => return ()
  | .error message => throw (.driver message)

def fetchRows (reply : CursorReply) : Except String (List Row) :=
  match reply.columns with
  | none => .ok []
  | some names => reply.rows.map fun rows => rows.map (rowOfColumns names)

def resultOf (reply : CursorReply) (rows : List Row) : ExecutionResult :=
  let affected : Int :=
    match reply.rowCount with
    | some n => if 0 ≤ n then n else rows.length
    | none => rows.length
  ⟨rows, .int affected, reply.lastRowId⟩

/-- What a statement does up to its commit: a result, or the driver's message. -/
def attempt (c : Connection σ) (statement : String) (values : Value) :
    Step (State σ) Unit (Except String ExecutionResult) := do
  match ← drive (c.execute statement values) with
  | .error message => return .error message
  | .ok reply =>
      match fetchRows reply with
      | .error message => return .error message
      | .ok rows =>
          let result := resultOf reply rows
          if ← inTransaction then return .ok result
          else
            match ← drive c.commit with
            | .ok () => return .ok result
            | .error message => return .error message

/-- Executes a statement. The cursor is closed on every path. -/
def execute (c : Connection σ) (style : ParamStyle) (backslash : Bool) (sql : String)
    (params : Dict) : Step (State σ) Unit ExecutionResult :=
  let (statement, values) := Binding.bind sql params style backslash
  Step.andFinally
    (do
      match ← attempt c statement values with
      | .ok result => return result
      | .error message =>
          if !(← inTransaction) then driveOrFail c.rollback
          throw (.execution message sql))
    (drive c.closeCursor)

def begin : Step (State σ) Unit Unit := do
  if ← inTransaction then
    throw (.execution "A transaction is already open on this connection." none)
  setTransaction true

/-- Ends a transaction by an action of the driver; the transaction counts as ended even if the action
fails. -/
def finish (action : StateM σ (Except String Unit)) : Step (State σ) Unit Unit := do
  if !(← inTransaction) then throw (.execution "No transaction is open." none)
  Step.andFinally (driveOrFail action) (setTransaction false)

end ConnectionExecutor

/-- The executor on a connection whose driver writes placeholders in a style. `backslash` tells
whether a backslash escapes in its string literals. -/
def Connection.executor {σ : Type} (c : Connection σ) (style : ParamStyle) (backslash : Bool) :
    Executor (ConnectionState σ) Unit where
  execute := ConnectionExecutor.execute c style backslash
  begin := ConnectionExecutor.begin
  commit := ConnectionExecutor.finish c.commit
  rollback := ConnectionExecutor.finish c.rollback
  close := ConnectionExecutor.drive c.close
  newThread := ()

end QueryLoom
