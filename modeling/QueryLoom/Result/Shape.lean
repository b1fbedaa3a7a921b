import QueryLoom.Columns.Tree
import QueryLoom.Result.Coercion

/-!
The shape of results. The column tree that a query was compiled from turns the rows of its result into
values: every column is read under its label and coerced to its type, and groups become nested
objects. Throughout, `nesting` bounds the containers in the JSON texts of a row.
-/

namespace QueryLoom.Shape

def readLabel (nesting : Nat) (labels : ColumnLabels) (row : Row) (label : String) : Mapping Value :=
  Coercion.coerce nesting ((Assoc.get? label labels).getD .string) label (Dict.getD row label)

mutual

/-- Adds what a node reads from a row to an object. -/
def addNode (nesting : Nat) (labels : ColumnLabels) (row object : Dict) : ColumnNode → Mapping Dict
  | .group key children => do
      let inner ← addNodes nesting labels row [] children
      return Assoc.insert (.str key) (.dict inner) object
  | .raw ref _ _ => do
      let v ← readLabel nesting labels row ref.outputName
      return Assoc.insert (.str ref.outputName) v object
  | .field ref =>
      if ref.isWildcard then return Assoc.merge object row
      else do
        let v ← readLabel nesting labels row ref.outputName
        return Assoc.insert (.str ref.outputName) v object
termination_by structural n => n

def addNodes (nesting : Nat) (labels : ColumnLabels) (row object : Dict) :
    List ColumnNode → Mapping Dict
  | [] => pure object
  | n :: rest => do
      let object ← addNode nesting labels row object n
      addNodes nesting labels row object rest
termination_by structural ns => ns

end

/-- The object of a row. An index stands outside the objects that are found under it. -/
def mapRow (nesting : Nat) (t : ColumnTree) (row : Row) : Mapping Value :=
  match t with
  | .everything => pure (.dict row)
  | .indexed _ children => do return .dict (← addNodes nesting t.labels row [] children)
  | .single ref => do return .dict (← addNodes nesting t.labels row [] [.field ref])
  | .columns nodes => do return .dict (← addNodes nesting t.labels row [] nodes)

def mapValue (nesting : Nat) (t : ColumnTree) (row : Row) : Mapping Value :=
  match t.nodes with
  | [node] =>
      match node.ref? with
      | some ref => readLabel nesting t.labels row ref.outputName
      | none => throw .missingMember
  | _ => throw .badValue

def mapEach (f : Row → Mapping Value) : List Row → Mapping (List Value)
  | [] => pure []
  | row :: rest => do
      let first ← f row
      return first :: (← mapEach f rest)

/-- The objects of rows under the values of an index column. -/
def mapIndexed (nesting : Nat) (t : ColumnTree) (column : String) (found : Dict) :
    List Row → Mapping Dict
  | [] => pure found
  | row :: rest => do
      let object ← mapRow nesting t row
      let key := Dict.getD row column
      if key.isHashable then mapIndexed nesting t column (Assoc.insert key object found) rest
      else throw .wrongKind

def mapRows (nesting : Nat) (t : ColumnTree) (rows : List Row) : Mapping Value :=
  match t with
  | .everything => pure (.list (rows.map .dict))
  | .single _ => do return .list (← mapEach (mapValue nesting t) rows)
  | .indexed key _ => do
      return .dict (← mapIndexed nesting t (ColumnTree.lastSegment key) [] rows)
  | .columns _ => do return .list (← mapEach (mapRow nesting t) rows)

def run {α : Type} (m : Mapping α) : Except Fault α × Journal := (ExceptT.run m).run []

end QueryLoom.Shape
