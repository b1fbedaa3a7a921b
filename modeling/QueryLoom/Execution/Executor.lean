import QueryLoom.Fault
import QueryLoom.Value.Equality

/-!
Executors: what runs a statement with named placeholders and keeps transactions. An executor works on
a state that all threads share and on a part that belongs to the calling thread.
-/

namespace QueryLoom

structure ExecutionResult where
  /-- The rows of a query; none for a statement that writes. -/
  rows : List Row
  /-- How many rows were affected, or returned. -/
  affected : Value
  /-- The row identifier that an insertion generated, if the driver tells it. -/
  lastId : Value

/-- A step of an executor: `σ` is shared, `τ` belongs to the thread. -/
abbrev Step (σ τ : Type) := ExceptT Fault (StateM (σ × τ))

structure Executor (σ τ : Type) where
  execute : String → Dict → Step σ τ ExecutionResult
  begin : Step σ τ Unit
  commit : Step σ τ Unit
  rollback : Step σ τ Unit
  close : Step σ τ Unit
  /-- The part of a thread that has done nothing yet. -/
  newThread : τ

namespace Step

variable {σ τ α : Type}

def shared (action : StateM σ α) : Step σ τ α := do
  let (s, t) ← get
  let (a, s) := action.run s
  set (s, t)
  return a

def attempt (step : Step σ τ α) : Step σ τ (Except Fault α) := ExceptT.lift (ExceptT.run step)

/-- Runs a step, then another one whether the first failed or not. -/
def andFinally (step : Step σ τ α) (after : Step σ τ Unit) : Step σ τ α := do
  let result ← attempt step
  after
  match result with
  | .ok a => return a
  | .error f => throw f

end Step

/-- A row of values under column names; of equal names the last value counts. -/
def rowOfColumns (names values : List Value) : Row := Assoc.ofList (names.zip values)

end QueryLoom
