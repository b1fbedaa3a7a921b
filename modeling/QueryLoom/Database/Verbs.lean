import QueryLoom.Database.Basic
import QueryLoom.Statement.Read
import QueryLoom.Statement.Write

/-!
The verbs of a database. Reads give mapped values, writes the result of their statement, and both give
the text of the statement after a dry run.
-/

namespace QueryLoom

/-- What a call on a database gives. -/
inductive Reply
  | value (v : Value)
  | result (r : ExecutionResult)
  /-- The database itself, for further calls. -/
  | database
  | fault (f : Fault)
  | list (replies : List Reply)

namespace Database

variable {σ τ : Type}

/-- What comes of an outcome: the text of a dry run, or something made of the result. -/
def replyWith (outcome : Outcome) (f : ExecutionResult → Action σ τ Reply) : Action σ τ Reply :=
  match outcome with
  | .statement text => pure (.value (.str text))
  | .result r => f r

def treeOf (c : Compiled) : ColumnTree := c.columns.getD .everything

/-- The rows of a query, in the shape of its column tree. -/
def rowsOf (db : Database σ τ) (step : Compile Compiled) : Action σ τ Reply := do
  let compiled ← compile step
  replyWith (← db.executeCompiled compiled) fun r => do
    return .value (← mapping (Shape.mapRows db.nesting (treeOf compiled) r.rows))

def select (db : Database σ τ) (table columns wheres join : Value) : Action σ τ Reply :=
  db.rowsOf (Statement.select db.target table columns wheres join)

def rand (db : Database σ τ) (table columns wheres join : Value) : Action σ τ Reply :=
  db.rowsOf (Statement.rand db.target table columns wheres join)

/-- The first row or value; null if there is none. -/
def getFirst (db : Database σ τ) (table columns wheres join : Value) : Action σ τ Reply := do
  let compiled ← compile (Statement.get db.target table columns wheres join)
  replyWith (← db.executeCompiled compiled) fun r =>
    match r.rows with
    | [] => pure (.value .null)
    | row :: _ =>
        let tree := treeOf compiled
        return .value
          (← mapping (if tree.isSingle then Shape.mapValue db.nesting tree row
            else Shape.mapRow db.nesting tree row))

def firstValue (r : ExecutionResult) : Value :=
  match r.rows with
  | ((_, v) :: _) :: _ => v
  | _ => .null

def isTrue (v : Value) : Except Fault Bool :=
  match v.equal? (.int 1) with
  | none => .error .invalidOperation
  | some true => .ok true
  | some false =>
      match v with
      | .str s => .ok (s == "1" || s == "t" || s == "T")
      | _ => .ok false

def has (db : Database σ τ) (table wheres join : Value) : Action σ τ Reply := do
  let compiled ← compile (Statement.has db.target table wheres join)
  replyWith (← db.executeCompiled compiled) fun r => do
    return .value (.bool (← lift (isTrue (firstValue r))))

/-- An aggregated value as a number, if it denotes one. Whole decimals become whole numbers, which an
infinite one cannot. -/
def aggregateNumber (v : Value) : Except Fault Value :=
  match v with
  | .null | .bool _ | .int _ | .float _ => .ok v
  | .decimal d =>
      match d with
      | .infinite _ => .error .overflow
      | .notANumber _ true _ => .error .invalidOperation
      | d =>
          if d.isWhole then v.toWhole.map Value.int else v.toBinary64.map Value.float
  | v =>
      match v.toWhole with
      | .ok i => .ok (.int i)
      | .error _ =>
          match v.toBinary64 with
          | .ok x => .ok (.float x)
          | .error _ => .ok v

def aggregate (db : Database σ τ) (function table column wheres join : Value) :
    Action σ τ Reply := do
  let compiled ← compile (Statement.aggregate db.target function table column wheres join)
  replyWith (← db.executeCompiled compiled) fun r => do
    return .value (← lift (aggregateNumber (firstValue r)))

/-- Runs a statement of the caller's and gives its rows. -/
def query (db : Database σ τ) (statement : Value) : Action σ τ Reply := do
  let compiled ← compile (Statement.raw db.target statement)
  replyWith (← db.executeCompiled compiled) fun r =>
    return .value (.list (r.rows.map .dict))

def write (db : Database σ τ) (step : Compile Compiled) : Action σ τ Reply := do
  let compiled ← compile step
  replyWith (← db.executeCompiled compiled) fun r => return .result r

/-- Inserts rows, and remembers the row identifier that the last insertion generated. -/
def insert (db : Database σ τ) (table rows : Value) : Action σ τ Reply := do
  let reply ← db.write (Statement.insert db.target table rows)
  match reply with
  | .result r => modify fun s => { s with lastInsertId := r.lastId }
  | _ => pure ()
  return reply

def update (db : Database σ τ) (table data wheres : Value) : Action σ τ Reply :=
  db.write (Statement.update db.target table data wheres)

def delete (db : Database σ τ) (table wheres : Value) : Action σ τ Reply :=
  db.write (Statement.delete db.target table wheres)

def holdsReplacements : Value → Bool
  | .dict entries => !entries.isEmpty
  | _ => false

/-- Replaces text inside columns; null if there is nothing to replace. -/
def replace (db : Database σ τ) (table columns wheres : Value) : Action σ τ Reply :=
  match columns with
  | .dict entries =>
      if entries.any fun (_, v) => holdsReplacements v then
        db.write (Statement.replace db.target table columns wheres)
      else pure (.value .null)
  | _ => throw .missingMember

/-- Runs a statement with named placeholders. A statement that is no text uses up a dry run, too. -/
def executeText (db : Database σ τ) (sql params : Value) : Action σ τ Reply := do
  let params ← lift params.toDictOrEmpty
  match sql with
  | .str sql => replyWith (← db.execute sql params) fun r => return .result r
  | _ =>
      modifyThread fun t => { t with dryRun := false }
      throw .wrongKind

/-- The last statement of the history with its values written in. -/
def last? (db : Database σ τ) (s : DatabaseState σ τ) : Except Fault (Option String) :=
  match s.history.getLast? with
  | none => .ok none
  | some (sql, params) => (db.generate sql params).map some

def log (db : Database σ τ) (s : DatabaseState σ τ) : Except Fault (List String) :=
  s.history.mapM fun (sql, params) => db.generate sql params

end Database

end QueryLoom
