import QueryLoom.Database.Method

/-!
Calls on a database as data. A call is a method with its arguments, or it puts calls together: into a
transaction, onto workers, or into a pipeline.
-/

namespace QueryLoom

inductive Call
  | method (m : Method) (args : List Value) (named : List (String × Value))
  | dialect
  | give (v : Value)
  | fail (f : Fault)
  /-- Makes calls in an action, which gives a value, or else the list of the replies. -/
  | action (body : List Call) (gives : Option Value)
  /-- Makes calls in a transaction, which gives a value, or else the list of the replies. -/
  | transaction (body : List Call) (gives : Option Value)
  | operation (o : Operation)
  | parallel (operations : List Operation) (concurrent : Bool)
  | batch (calls : List Call)
  /-- Makes calls one after another, each of which replies with the reply before it and its own. -/
  | pipeline (calls : List Call)
deriving Inhabited

namespace Call

variable {σ τ : Type}

def bodyReply (gives : Option Value) (replies : List Reply) : Reply :=
  match gives with
  | some v => .value v
  | none => .list replies

/-- A call as a stage of a pipeline. -/
def asStage (action : Action σ τ Reply) (before : Reply) :
    Action σ τ Reply := do
  return .list [before, ← action]

mutual

def run (db : Database σ τ) : Call → Action σ τ Reply
  | .method m args named => db.call m args named
  | .dialect => pure (.value (.str db.dialect.name))
  | .give v => pure (.value v)
  | .fail f => throw f
  | .action body gives => do
      let actions := actions db body
      db.action (do return bodyReply gives (← Database.inOrder actions))
  | .transaction body gives => do
      let actions := actions db body
      db.transaction (do return bodyReply gives (← Database.inOrder actions))
  | .operation o => db.run o
  | .parallel operations concurrent => db.parallel operations concurrent
  | .batch calls => db.batch (actions db calls)
  | .pipeline calls => Database.pipeline (.value .null) ((actions db calls).map asStage)
termination_by structural c => c

def actions (db : Database σ τ) : List Call → List (Action σ τ Reply)
  | [] => []
  | c :: rest => run db c :: actions db rest
termination_by structural cs => cs

end

end Call

end QueryLoom
