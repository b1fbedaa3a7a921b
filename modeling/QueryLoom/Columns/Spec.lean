import QueryLoom.Key.Column
import QueryLoom.Value.Equality

/-!
Column specifications. `*` or nothing selects every column, a text one column, a list several. A
dictionary holds raw columns and nested groups under their keys; one with a single group is an index,
whose rows are found under the value of the column that the key names.
-/

namespace QueryLoom.ColumnSpec

def malformed {α : Type} (subject : Value) (reason : Reason) : Except Fault α :=
  .error (.showing subject (.malformedColumn subject reason .select))

/-- The key of a group: a text that is not blank, without the blanks at its ends. -/
def groupKey : Value → Except Fault String
  | .str key =>
      let name := Text.trimmed key
      if name.isEmpty then malformed key .groupNeedsKey else .ok name
  | key => malformed key .groupNeedsKey

mutual

def mappedNode (key : Value) : Value → Except Fault ColumnNode
  | .raw sql parameters =>
      match key with
      | .str name => do return .raw (← Key.rawColumnKey name) sql parameters
      | _ => malformed key .rawKeyNotText
  | .list items => do
      let name ← groupKey key
      return .group name (← listNodes items)
  | .dict entries => do
      let name ← groupKey key
      return .group name (← mappedNodes entries)
  | v => malformed (.dict [(key, v)]) .unsupportedColumnValue
termination_by structural v => v

def mappedNodes : List (Value × Value) → Except Fault (List ColumnNode)
  | [] => .ok []
  | (key, v) :: rest => do
      let first ← mappedNode key v
      return first :: (← mappedNodes rest)
termination_by structural es => es

def listNodes : List Value → Except Fault (List ColumnNode)
  | [] => .ok []
  | v :: rest => do
      let first ←
        match v with
        | .str text => do pure [.field (← Key.columnRef text)]
        | .dict entries => mappedNodes entries
        | .raw sql parameters => malformed (.raw sql parameters) .rawWithoutAlias
        | other => malformed other (.unsupportedEntry other.kindName)
      return first ++ (← listNodes rest)
termination_by structural vs => vs

end

def parse : Value → Except Fault ColumnTree
  | .null => .ok .everything
  | .str text => do
      if text == "*" then return .everything
      return .single (← Key.columnRef text)
  | .dict [(key, .list items)] => do
      let name ← groupKey key
      return .indexed name (← listNodes items)
  | .dict [(key, .dict entries)] => do
      let name ← groupKey key
      return .indexed name (← mappedNodes entries)
  | .dict entries => do return .columns (← mappedNodes entries)
  | .list items => do return .columns (← listNodes items)
  | .bytes octets => do return .columns (← listNodes (octets.map fun o => .int o.toNat))
  | v => malformed v (.unsupportedSpecification v.kindName)

end QueryLoom.ColumnSpec
