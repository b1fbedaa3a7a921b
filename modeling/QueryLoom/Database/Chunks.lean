import QueryLoom.Database.Workers
import QueryLoom.Value.Order

/-!
Large selections in chunks. The matching rows are counted, and if there are more of them than one
chunk holds, every chunk is selected by its limit and offset and the chunks are put together again.
-/

namespace QueryLoom.Database

variable {σ τ : Type}

def quotient (total size : Value) : Except Fault Binary64 :=
  match total.integer?, size.integer? with
  | some rows, some n =>
      match Binary64.ofFraction (rows < 0) rows.natAbs n.natAbs with
      | .infinite _ => .error .overflow
      | x => .ok x
  | _, _ => do return (← total.toBinary64).div (← size.toBinary64)

def chunkCount (total size : Value) : Except Fault Nat := do
  match ← quotient total size with
  | .nan => throw .badValue
  | .infinite _ => throw .overflow
  | x => return ((x.fraction?.map Fraction.ceiling).getD 0).toNat

/-- A limit: how many rows are passed over, and how many are taken. -/
def chunkLimit (size : Value) (passed : Int) : Value := .list [.int passed, size]

/-- The limits of the chunks. Only a whole number can be a limit, so that any other size is refused
with its first chunk. -/
def chunkLimits (total size : Value) : Except Fault (List Value) :=
  match total, size with
  | .float _, .decimal _ => .error .wrongKind
  | _, .decimal _ => .ok [chunkLimit size 0]
  | _, .int n => do
      let count ← chunkCount total size
      return (List.range count).map fun i : Nat => chunkLimit size (i * n)
  | _, _ => do
      return List.replicate (← chunkCount total size) (chunkLimit size 0)

def whereEntries (wheres : Value) : Except Fault Dict :=
  match wheres with
  | .dict entries => .ok entries
  | v => if v.truthy then .error .missingMember else .ok []

/-- Puts the parts of a selection together: indexed rows are merged, others follow each other. -/
def joinParts (parts : List Value) : Except Fault Value :=
  match parts with
  | .dict _ :: _ => do
      let dicts ← parts.mapM Value.toDict
      return .dict (dicts.foldl Assoc.merge [])
  | parts => do
      let items ← parts.mapM fun part => (part.iterate?).elim (.error .wrongKind) .ok
      return .list items.flatten

def valueOf : Reply → Except Fault Value
  | .value v => .ok v
  | _ => .error .wrongKind

/-- Selects rows in chunks of at most `size` rows, `atOnce` of them at a time. -/
def selectInChunks (db : Database σ τ) (table columns wheres join size atOnce : Value) :
    Action σ τ Reply := do
  if ← lift (size.less (.int 1)) then throw .badValue
  if ← lift (atOnce.less (.int 1)) then throw .badValue
  let entries ← lift (whereEntries wheres)
  let base := Assoc.erase (.str Tail.limitKey) (Assoc.erase (.str Tail.orderKey) entries)
  let counted ← db.aggregate AggregateFunction.count.name table .null (.dict base) join
  let counted ← lift (valueOf counted)
  let total := if counted.truthy then counted else .int 0
  if ← lift (total.atMost size) then
    db.select table columns wheres join
  else
    let limits ← lift (chunkLimits total size)
    let selections := limits.map fun limit =>
      db.select table columns (.dict (Assoc.insert (.str Tail.limitKey) limit entries)) join
    let replies ← if ← inTransaction then inOrder selections else db.onWorker selections
    let parts ← lift (replies.mapM valueOf)
    return .value (← lift (joinParts parts))

end QueryLoom.Database
