import QueryLoom.Database.Verbs

/-!
Transactions. A block is committed if it ends well and rolled back if it fails; an action is also rolled
back if it gives false.
-/

namespace QueryLoom.Database

variable {σ τ : Type}

def setInTransaction (isOpen : Bool) : Action σ τ Unit :=
  modifyThread fun t => { t with inTransaction := isOpen }

def begin (db : Database σ τ) : Action σ τ Unit := do
  let executor ← db.requireExecutor
  executorStep executor.begin
  setInTransaction true

/-- Commits the transaction; the thread is outside a transaction afterwards, even if this fails. -/
def commit (db : Database σ τ) : Action σ τ Unit :=
  andFinally (do executorStep (← db.requireExecutor).commit) (setInTransaction false)

/-- Rolls the transaction back; the thread is outside a transaction afterwards, even if this
fails. -/
def rollback (db : Database σ τ) : Action σ τ Unit :=
  andFinally (do executorStep (← db.requireExecutor).rollback) (setInTransaction false)

def inTransaction : Action σ τ Bool := do return (← get).thread.inTransaction

def transaction (db : Database σ τ) (body : Action σ τ Reply) : Action σ τ Reply := do
  db.begin
  match ← attempt body with
  | .error f =>
      db.rollback
      throw f
  | .ok reply =>
      db.commit
      return reply

def asksRollback : Reply → Bool
  | .value (.bool false) => true
  | _ => false

/-- Runs a body in a transaction that is rolled back if the body gives false. -/
def action (db : Database σ τ) (body : Action σ τ Reply) : Action σ τ Reply := do
  db.begin
  match ← attempt body with
  | .error f =>
      db.rollback
      throw f
  | .ok reply =>
      if asksRollback reply then db.rollback else db.commit
      return reply

end QueryLoom.Database
