import QueryLoom.Proofs.Runs.DryRuns

/-!
Calls that are made together. Operations in parallel, a batch and the chunks of a selection are made one
after another, on the calling thread or on a worker, and what they end in together is the fault of the
first that fails.
-/

namespace QueryLoom

variable {σ τ α : Type}

namespace Database

variable {κ : Type} {db : Database σ τ} {act : κ → Action σ τ Reply}

/-- The state in which calls begin together: on the calling thread or on a worker. -/
def enter (db : Database σ τ) (here : Bool) (s : DatabaseState σ τ) : DatabaseState σ τ :=
  if here then s else { s with thread := db.newThread s.thread }

variable {table columns wheres join : Value} {s : DatabaseState σ τ}

end Database

end QueryLoom
