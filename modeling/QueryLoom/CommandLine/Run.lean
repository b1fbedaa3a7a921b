import QueryLoom.CommandLine.Arguments
import QueryLoom.Database.Verbs
import QueryLoom.Execution.Connection
import QueryLoom.Json.Writer

/-!
Running the command line: a statement described by JSON arguments is compiled and shown, or run on a
database file. What is printed goes to the output, notes and faults go to the error output.
-/

namespace QueryLoom.CommandLine

/-- What a run of the command line ends with. -/
structure Outcome where
  exitCode : Nat
  output : String
  errors : String
  /-- The fault that the error output ends with, if there is one. -/
  fault : Option Fault

abbrev Session (σ : Type) := Action (ConnectionState σ) Unit

/-- The database of a command line: statements run on a connection to a file. -/
abbrev FileDatabase (σ : Type) := Database (ConnectionState σ) Unit

structure Specifications where
  columns : Value
  wheres : Value
  join : Value
  data : Value

/-- Objects of a raw text, perhaps with parameters, stand for raw values. -/
def rawHook : Json.Hook := fun entries =>
  match Dict.get? entries "$raw" with
  | some sql =>
      if entries.all fun (k, _) => k == .str "$raw" || k == .str "$map" then
        Value.makeRaw sql (Dict.getD entries "$map")
      else .ok (.dict entries)
  | none => .ok (.dict entries)

/-- The value of a specification, null if it is not given. -/
def decode (text : Option String) : Except Fault Value :=
  match text with
  | some text => Json.readWith rawHook Json.usualNesting text
  | none => .ok .null

def Specifications.decode (s : Settings) : Except Fault Specifications := do
  let columns ← CommandLine.decode s.columns
  let wheres ← CommandLine.decode s.wheres
  let join ← CommandLine.decode s.join
  let data ← CommandLine.decode s.data
  return ⟨columns, wheres, join, data⟩

def orElse (v fallback : Value) : Value := if v.truthy then v else fallback

def Specifications.selected (s : Specifications) : Value := orElse s.columns "*"

def Specifications.rows (s : Specifications) : Value := orElse s.data (.list [])

def Specifications.changes (s : Specifications) : Value := orElse s.data (.dict [])

def tableOf (a : Arguments) : Value := (a.table.map Value.str).getD (.list [])

def functionOf (a : Arguments) : Value :=
  (a.verb.map fun v => Value.str v.name).getD (.list [])

def statementOf (t : Target) (a : Arguments) (s : Specifications) : Compile Compiled :=
  let table := tableOf a
  match a.verb with
  | some (.read .select) => Statement.select t table s.selected s.wheres s.join
  | some (.read .get) => Statement.get t table s.selected s.wheres s.join
  | some .rand => Statement.rand t table s.selected s.wheres s.join
  | some (.read .has) => Statement.has t table s.wheres s.join
  | some .insert => Statement.insert t table s.rows
  | some .update => Statement.update t table s.changes s.wheres
  | some .delete => Statement.delete t table s.wheres
  | some .replace => Statement.replace t table s.changes s.wheres
  | some (.read _) | none =>
      Statement.aggregate t (functionOf a) table s.columns s.wheres s.join

def object (entries : List (String × Value)) : Value :=
  .dict (entries.map fun (k, v) => (.str k, v))

/-- What a write affected. -/
def affected : Reply → Value
  | .result r => r.affected
  | _ => .int 0

def readValue : Reply → Value
  | .value v => v
  | _ => .null

variable {σ : Type}

def execute (db : FileDatabase σ) (a : Arguments) (s : Specifications) : Session σ Value := do
  let table := tableOf a
  match a.verb with
  | some (.read .select) => return readValue (← db.select table s.selected s.wheres s.join)
  | some (.read .get) => return readValue (← db.getFirst table s.selected s.wheres s.join)
  | some .rand => return readValue (← db.rand table s.selected s.wheres s.join)
  | some (.read .has) => return readValue (← db.has table s.wheres s.join)
  | some .insert =>
      let reply ← db.insert table s.rows
      return object [("affected", affected reply), ("id", (← get).lastInsertId)]
  | some .update =>
      return object [("affected", affected (← db.update table s.changes s.wheres))]
  | some .delete => return object [("affected", affected (← db.delete table s.wheres))]
  | some .replace =>
      return object [("affected", affected (← db.replace table s.changes s.wheres))]
  | some (.read _) | none =>
      return readValue (← db.aggregate (functionOf a) table s.columns s.wheres s.join)

/-- A compiled statement as it is shown: with its values written in, or with its parameters. -/
def shown (db : FileDatabase σ) (isInline : Bool) (c : Compiled) : Except Fault String :=
  if isInline then db.generate c.text c.paramsDict
  else Json.write .report (object [("sql", c.text), ("params", .dict c.paramsDict)])

def session (db : FileDatabase σ) (a : Arguments) : Session σ String := do
  let s ← Database.lift (Specifications.decode a.settings)
  if db.executor.isSome then
    let v ← execute db a s
    Database.lift (Json.write .report v)
  else
    let compiled ← Database.compile (statementOf db.target a s)
    Database.lift (shown db a.settings.inline compiled)

/-- How a fault is told. Faults that the command line does not know about are passed on. -/
def tell (f : Fault) : Except Fault (Nat × String) :=
  match f with
  | .badJson message => .ok (2, "Invalid JSON argument: " ++ message)
  | f =>
      match f.report? with
      | some r => do
          let text ← Json.write .block
            (object [("error", r.code), ("message", r.message), ("details", r.details)])
          return (1, text)
      | none => .error f

def isPrinted (verbose : Bool) (n : Note) : Bool := verbose || n.level == .warning

def lines (texts : List String) : String := String.join (texts.map (· ++ "\n"))

/-- What comes of the end of a session and the notes it made. -/
def outcome (verbose : Bool) (result : Except Fault String) (journal : Journal) :
    Except Fault Outcome := do
  let notes := (journal.filter (isPrinted verbose)).map Note.text
  match result with
  | .ok text => return ⟨0, lines [text], lines notes, none⟩
  | .error f => do
      let (exitCode, text) ← tell f
      return ⟨exitCode, "", lines (notes ++ [text]), some f⟩

def runSession (a : Arguments) (executor : Option (Executor (ConnectionState σ) Unit))
    (shared : ConnectionState σ) : Except Fault Outcome × ConnectionState σ :=
  let options : Dict := [("type", a.settings.dialect), ("prefix", a.settings.tablePrefix)]
  let opened := do
    Database.create Registry.builtIn (← Config.ofOptions Registry.builtIn options) executor
  match opened with
  | .error f => (outcome a.settings.verbose (.error f) [], shared)
  | .ok db =>
      let (result, state) := (ExceptT.run (session db a)).run (Database.start shared ())
      (outcome a.settings.verbose result state.journal, state.shared)

/-- Runs a command line. A path that is not empty is connected to, and the connection is closed
whatever happens. -/
def run (connect : String → StateM σ Unit) (connection : Connection σ) (a : Arguments) :
    StateM σ (Except Fault Outcome) := do
  let path := a.settings.sqlite.getD ""
  if path.isEmpty then
    return (runSession a none ⟨← get, false⟩).1
  else
    connect path
    let (result, shared) :=
      runSession a (some (connection.executor .qmark false)) ⟨← get, false⟩
    set shared.driver
    connection.close
    return result

end QueryLoom.CommandLine
