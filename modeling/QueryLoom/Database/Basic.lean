import QueryLoom.Config
import QueryLoom.Execution.Executor
import QueryLoom.Fault.Report
import QueryLoom.Result.Shape
import QueryLoom.Sql.Binding
import QueryLoom.Statement.Compiled

/-!
A database: a dialect, an executor, and the history of the statements that were issued. Every verb goes
the same way: a specification is compiled, the statement is executed, and the rows are mapped. A dry
run takes the place of the next execution and gives the statement with its values written in.
-/

namespace QueryLoom

/-- What is fixed when a database is opened. -/
structure Database (σ τ : Type) where
  config : Config
  dialect : Dialect
  executor : Option (Executor σ τ)
  /-- How many containers may stand inside one another in a JSON text that is read. -/
  nesting : Nat

/-- What belongs to one thread. -/
structure ThreadState (τ : Type) where
  /-- Whether the next statement is a dry run. -/
  dryRun : Bool
  inTransaction : Bool
  /-- The thread's part of the executor. -/
  part : τ

/-- What changes while a database is in use. -/
structure DatabaseState (σ τ : Type) where
  /-- Where the counter of parameters stands. -/
  next : Nat
  /-- The kept statements, oldest first. -/
  history : List (String × Dict)
  /-- The fault of the last statement, if it failed. -/
  lastError : Option Fault
  lastInsertId : Value
  journal : Journal
  /-- The state of the executor that all threads share. -/
  shared : σ
  thread : ThreadState τ

/-- An action on a database. The state outlives a fault. -/
abbrev Action (σ τ : Type) := ExceptT Fault (StateM (DatabaseState σ τ))

namespace Database

variable {σ τ α : Type}

/-- The greatest size a history can have. -/
def greatestHistory : Int := 9223372036854775807

/-- Opens a database on an executor, or on none if statements are only to be compiled. -/
def create (registry : Registry) (config : Config) (executor : Option (Executor σ τ)) :
    Except Fault (Database σ τ) := do
  let dialect ← registry.create config.dialect
  if config.logging && greatestHistory < config.logSize then throw .overflow
  return ⟨config, dialect, executor, Json.usualNesting⟩

def start (shared : σ) (part : τ) : DatabaseState σ τ :=
  ⟨0, [], none, .null, [], shared, ⟨false, false, part⟩⟩

/-- How many statements the history keeps: only the last one unless logging is on. -/
def historySize (db : Database σ τ) : Nat :=
  if db.config.logging then db.config.logSize.toNat else 1

def target (db : Database σ τ) : Target := ⟨db.dialect, db.config.tablePrefix⟩

/-! Steps of an action. -/

def lift (result : Except Fault α) : Action σ τ α :=
  match result with
  | .ok a => pure a
  | .error f => throw f

/-- Runs an action and tells how it ended. -/
def attempt (action : Action σ τ α) : Action σ τ (Except Fault α) :=
  ExceptT.lift (ExceptT.run action)

/-- Runs an action, then another one whether the first failed or not. -/
def andFinally (action : Action σ τ α) (after : Action σ τ Unit) : Action σ τ α := do
  let result ← attempt action
  after
  lift result

def report (note : Note) : Action σ τ Unit :=
  modify fun s => { s with journal := s.journal ++ [note] }

def modifyThread (f : ThreadState τ → ThreadState τ) : Action σ τ Unit :=
  modify fun s => { s with thread := f s.thread }

def compile (step : Compile Compiled) : Action σ τ Compiled := do
  let s ← get
  let (result, next) := Statement.run step s.next
  set { s with next := next }
  let compiled ← lift result
  report ⟨.debug, .compiler, "Compiled " ++ compiled.body.text⟩
  return compiled

def mapping (m : Mapping α) : Action σ τ α := do
  let (result, notes) := Shape.run m
  modify fun s => { s with journal := s.journal ++ notes }
  lift result

/-- A step of the executor on behalf of the calling thread. -/
def executorStep (step : Step σ τ α) : Action σ τ α := do
  let s ← get
  let (result, shared, part) := (ExceptT.run step).run (s.shared, s.thread.part)
  set { s with shared := shared, thread := { s.thread with part := part } }
  lift result

def noExecutor (sql : Option String) : Fault := .execution "No executor is configured." sql

def requireExecutor (db : Database σ τ) : Action σ τ (Executor σ τ) :=
  match db.executor with
  | some executor => pure executor
  | none => throw (noExecutor none)

/-! Executing statements. -/

/-- A statement with its values written in. -/
def generate (db : Database σ τ) (sql : String) (params : Dict) : Except Fault String :=
  Binding.inline sql params db.dialect.literal db.dialect.backslashEscapes

/-- What executing a statement gives: a result, or the statement itself after a dry run. -/
inductive Outcome
  | result (r : ExecutionResult)
  | statement (text : String)

/-- Adds a statement to the history, from which the oldest ones fall out. -/
def remember (db : Database σ τ) (sql : String) (params : Dict) : Action σ τ Unit :=
  modify fun s =>
    let all := s.history ++ [(sql, params)]
    { s with history := all.drop (all.length - db.historySize), lastError := none }

def keepFault (f : Fault) (sql : String) : Action σ τ Unit := do
  modify fun s => { s with lastError := some f }
  report ⟨.warning, .database, "Statement failed: " ++ f.message ++ " (" ++ sql ++ ")"⟩

/-- Executes a statement, unless a dry run is pending. -/
def execute (db : Database σ τ) (sql : String) (params : Dict) : Action σ τ Outcome := do
  if (← get).thread.dryRun then
    modifyThread fun t => { t with dryRun := false }
    let statement ← lift (db.generate sql params)
    report ⟨.info, .database, "Dry run: " ++ statement⟩
    return .statement statement
  db.remember sql params
  match db.executor with
  | none =>
      keepFault (noExecutor sql) sql
      throw (noExecutor sql)
  | some executor =>
      report ⟨.debug, .database, "Executing " ++ sql⟩
      match ← attempt (executorStep (executor.execute sql params)) with
      | .ok result => return .result result
      | .error f =>
          match f with
          | .execution _ failed => keepFault f (failed.getD "None")
          | _ => pure ()
          throw f

def executeCompiled (db : Database σ τ) (c : Compiled) : Action σ τ Outcome :=
  db.execute c.text c.paramsDict

end Database

end QueryLoom
