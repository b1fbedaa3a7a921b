import QueryLoom.Statement.Parameters

/-!
The projection: what stands between SELECT and FROM. It lists the leaves of the column tree in order,
after the index column if there is one. Selecting all columns of a joined table is refused, since
columns of the same name would hide each other.
-/

namespace QueryLoom.Projection

def fieldItem (t : Target) (joins : Bool) (ref : ColumnRef) : Compile Sql := do
  if ref.isWildcard then
    if joins then throw (.ambiguousWildcard ref.text)
    match ref.table with
    | none => return [.text "*"]
    | some table => return (← t.table table) ++ [.text ".*"]
  else
    let sql ← t.column ref.path
    match ref.label with
    | none => return sql
    | some label => return sql ++ .text " AS " :: (← Compile.bareName label)

def rawItem (t : Target) (ref : ColumnRef) (sql : String) (parameters : Dict) : Compile Sql := do
  let body ← t.splice sql parameters
  return body ++ .text " AS " :: (← Compile.bareName ref.outputName)

mutual

def nodeItems (t : Target) (joins : Bool) : ColumnNode → Compile (List Sql)
  | .group _ children => listItems t joins children
  | .raw ref sql parameters => do return [← rawItem t ref sql parameters]
  | .field ref => do return [← fieldItem t joins ref]
termination_by structural n => n

def listItems (t : Target) (joins : Bool) : List ColumnNode → Compile (List Sql)
  | [] => pure []
  | n :: rest => do
      let first ← nodeItems t joins n
      return first ++ (← listItems t joins rest)
termination_by structural ns => ns

end

/-- Compiles the projection of a tree; `joins` tells whether the query joins tables. -/
def compile (t : Target) (joins : Bool) (tree : ColumnTree) : Compile Sql := do
  match tree with
  | .everything =>
      if joins then throw (.ambiguousWildcard "*")
      return [.text "*"]
  | tree =>
      let index ←
        match tree.indexKey? with
        | none => pure []
        | some key => do pure [← t.column key]
      let items := index ++ (← listItems t joins tree.nodes)
      if items.isEmpty then throw (.emptyProjection tree)
      return Sql.join ", " items

end QueryLoom.Projection
