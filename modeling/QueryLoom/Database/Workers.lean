import QueryLoom.Database.Operation
import QueryLoom.Database.Transactions

/-!
Several actions at once. Outside a transaction they run on a worker thread, which has a state of its
own: it sees neither a pending dry run nor a transaction of the calling thread. Inside a transaction
they run on the calling thread.

One worker takes the actions in order. It takes the first before the others are queued, so a failure of
the first withdraws them; a later failure shows only after the others have run.
-/

namespace QueryLoom.Database

variable {σ τ α : Type}

def newThread (db : Database σ τ) (current : ThreadState τ) : ThreadState τ :=
  ⟨false, false, (db.executor.map Executor.newThread).getD current.part⟩

def onNewThread (db : Database σ τ) (action : Action σ τ α) : Action σ τ α := do
  let caller := (← get).thread
  modifyThread db.newThread
  andFinally action (modifyThread fun _ => caller)

/-- Runs actions in order up to the first failure. -/
def inOrder : List (Action σ τ α) → Action σ τ (List α)
  | [] => pure []
  | action :: rest => do
      let a ← action
      return a :: (← inOrder rest)

/-- Runs all actions in order, whether they fail or not. -/
def runAll : List (Action σ τ α) → Action σ τ (List (Except Fault α))
  | [] => pure []
  | action :: rest => do
      let result ← attempt action
      return result :: (← runAll rest)

/-- Runs actions on one worker. -/
def onWorker (db : Database σ τ) (actions : List (Action σ τ α)) : Action σ τ (List α) :=
  db.onNewThread do
    match actions with
    | [] => return []
    | first :: rest =>
        let a ← first
        let more ← lift ((← runAll rest).mapM id)
        return a :: more

def run (db : Database σ τ) (o : Operation) : Action σ τ Reply :=
  match o.kind, o.kind.aggregate? with
  | .select, _ => db.select o.table o.columns o.wheres o.join
  | .get, _ => db.getFirst o.table o.columns o.wheres o.join
  | .has, _ => db.has o.table o.wheres o.join
  | _, some f => db.aggregate f.name o.table o.columns o.wheres o.join
  | _, none => throw .badValue

/-- Runs operations, at once if there are several and no transaction is open. -/
def parallel (db : Database σ τ) (operations : List Operation) (concurrent : Bool) :
    Action σ τ Reply := do
  let actions := operations.map db.run
  let replies ←
    if !concurrent || operations.length < 2 || (← inTransaction) then inOrder actions
    else db.onWorker actions
  return .list replies

/-- Runs any actions, at once unless a transaction is open. -/
def batch (db : Database σ τ) (actions : List (Action σ τ Reply)) : Action σ τ Reply := do
  if actions.isEmpty then return .list []
  let replies ← if ← inTransaction then inOrder actions else db.onWorker actions
  return .list replies

/-- Runs stages in order, each of which is given the reply of the one before it. -/
def pipeline (reply : Reply) : List (Reply → Action σ τ Reply) → Action σ τ Reply
  | [] => pure reply
  | stage :: rest => do
      let reply ← stage reply
      pipeline reply rest

end QueryLoom.Database
