import QueryLoom.Proofs.Failures.Watching
import QueryLoom.Proofs.Runs.Together
import QueryLoom.Proofs.Runs.Transactions

/-!
How the failures of a driver reach the caller. A call ends in the fault that the executor ends in, a
block ends in the fault of its end, and several actions together end in the fault of the first of them
that fails. So a failure of the driver is never lost, but not every failure becomes a fault of
execution: the end of a transaction passes it on as the driver raised it.
-/

namespace QueryLoom

open DriverFailure

variable {σ τ α : Type}

/-! What single calls ask the executor for. -/

namespace Clerk

variable {db : Database σ τ} {k : Clerk σ τ} {i : Issue} {b : Boundary}

end Clerk

/-! Beginnings and ends. -/

namespace Database

variable {db : Database σ τ} {e : Executor σ τ} {failures : σ → List DriverFailure}
  {bare : DriverFailure → Bool}

end Database

/-! Single calls. -/

namespace Made

variable {db : Database σ τ} {e : Executor σ τ} {failures : σ → List DriverFailure}
  {bare : DriverFailure → Bool}

end Made

/-! Blocks. -/

/-- The end of a block, by how its body ends. -/
def Boundary.closing (rollsBack : Reply → Bool) : Except Fault Reply → Boundary
  | .error _ => .rollback
  | .ok reply => if rollsBack reply then .rollback else .commit

namespace Database

variable {db : Database σ τ} {e : Executor σ τ} {failures : σ → List DriverFailure}
  {bare : DriverFailure → Bool}

/-- A database on a connection that refuses statements and commits. -/
def refusing : Database (ConnectionState (Unit × List DriverFailure)) Unit :=
  ⟨⟨"sqlite", "", false, 100⟩, .sqlite, some (Connection.refusing.watched.executor .qmark false), Json.usualNesting⟩

end Database

end QueryLoom
