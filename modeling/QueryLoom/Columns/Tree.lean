import QueryLoom.Text.Quoted
import QueryLoom.Value.Assoc
import QueryLoom.Value.Basic

/-!
Column references and the trees they form. A tree says both what a query selects and what shape a
result object has: fields and raw expressions are leaves, groups are nested objects.
-/

namespace QueryLoom

inductive ValueType
  | string | bool | int | number | object | json
deriving DecidableEq, Repr

namespace ValueType

def all : List ValueType := [.string, .bool, .int, .number, .object, .json]

def name : ValueType → String
  | .string => "String"
  | .bool => "Bool"
  | .int => "Int"
  | .number => "Number"
  | .object => "Object"
  | .json => "JSON"

end ValueType

/-- A column as a specification names it: `table.column(alias)[Type]`. -/
structure ColumnRef where
  table : Option String
  column : String
  label : Option String
  type : Option ValueType
deriving DecidableEq, Repr

namespace ColumnRef

def isWildcard (r : ColumnRef) : Bool := r.column == "*"

def path (r : ColumnRef) : String :=
  match r.table with
  | some t => t ++ "." ++ r.column
  | none => r.column

/-- The name under which the database reports the column. -/
def outputName (r : ColumnRef) : String := r.label.getD r.column

/-- The declared type; without one a column is text. -/
def resultType (r : ColumnRef) : ValueType := r.type.getD .string

def text (r : ColumnRef) : String :=
  r.path ++
    (match r.label with
      | some a => "(" ++ a ++ ")"
      | none => "") ++
    (match r.type with
      | some t => " [" ++ t.name ++ "]"
      | none => "")

end ColumnRef

inductive ColumnNode
  | field (ref : ColumnRef)
  | raw (ref : ColumnRef) (sql : String) (parameters : Dict)
  | group (key : String) (children : List ColumnNode)

/-- What a query selects and how its rows are shaped. -/
inductive ColumnTree
  /-- Every column; rows stay as they are. -/
  | everything
  /-- One column; a row becomes its value. -/
  | single (ref : ColumnRef)
  /-- Objects found under the value of a column. -/
  | indexed (key : String) (children : List ColumnNode)
  /-- One object for each row. -/
  | columns (nodes : List ColumnNode)

namespace ColumnTree

/-- The part of a dotted name after its last dot. -/
def lastSegment (name : String) : String :=
  String.ofList ((name.toList.reverse.takeWhile (· != '.')).reverse)

def nodes : ColumnTree → List ColumnNode
  | .everything => []
  | .single ref => [.field ref]
  | .indexed key children => [.group key children]
  | .columns nodes => nodes

/-- The column whose value the rows are found under, with its table if it was given. -/
def indexKey? : ColumnTree → Option String
  | .indexed key _ => some key
  | _ => none

def indexColumn? (t : ColumnTree) : Option String := t.indexKey?.map lastSegment

def isEverything : ColumnTree → Bool
  | .everything => true
  | _ => false

def isSingle : ColumnTree → Bool
  | .single _ => true
  | _ => false

end ColumnTree

mutual

def ColumnNode.leaves : ColumnNode → List ColumnNode
  | .field ref => [.field ref]
  | .raw ref sql parameters => [.raw ref sql parameters]
  | .group _ children => ColumnNode.leavesOf children
termination_by structural n => n

def ColumnNode.leavesOf : List ColumnNode → List ColumnNode
  | [] => []
  | n :: rest => n.leaves ++ ColumnNode.leavesOf rest
termination_by structural ns => ns

end

def ColumnTree.leaves (t : ColumnTree) : List ColumnNode := ColumnNode.leavesOf t.nodes

/-! The leaves without recursion into groups: a stack holds the nodes that are still to be visited, the
next one at its end. -/

mutual

/-- How many nodes there are in a node. -/
def ColumnNode.size : ColumnNode → Nat
  | .field _ => 1
  | .raw _ _ _ => 1
  | .group _ children => ColumnNode.sizeOfAll children + 1
termination_by structural n => n

def ColumnNode.sizeOfAll : List ColumnNode → Nat
  | [] => 0
  | n :: rest => n.size + ColumnNode.sizeOfAll rest
termination_by structural ns => ns

end

theorem ColumnNode.size_pos (n : ColumnNode) : 0 < n.size := by
  cases n <;> simp [ColumnNode.size]

theorem ColumnNode.sizeOfAll_append (first rest : List ColumnNode) :
    ColumnNode.sizeOfAll (first ++ rest) =
      ColumnNode.sizeOfAll first + ColumnNode.sizeOfAll rest := by
  induction first with
  | nil => simp [ColumnNode.sizeOfAll]
  | cons n more ih => simp only [List.cons_append, ColumnNode.sizeOfAll, ih]; omega

theorem ColumnNode.sizeOfAll_reverse (ns : List ColumnNode) :
    ColumnNode.sizeOfAll ns.reverse = ColumnNode.sizeOfAll ns := by
  induction ns with
  | nil => rfl
  | cons n rest ih =>
      simp only [List.reverse_cons, ColumnNode.sizeOfAll_append, ColumnNode.sizeOfAll, ih]
      omega

/-- A stack with a last node is the rest with this node on top. -/
theorem ColumnNode.toList_of_back? {stack : Array ColumnNode} {n : ColumnNode}
    (h : stack.back? = some n) : stack.toList = stack.pop.toList ++ [n] := by
  obtain ⟨rest, rfl⟩ := Array.back?_eq_some_iff.mp h
  simp

def ColumnNode.visit (stack found : Array ColumnNode) : Array ColumnNode :=
  match _ : stack.back? with
  | none => found
  | some (.group _ children) => ColumnNode.visit (stack.pop ++ children.reverse) found
  | some leaf => ColumnNode.visit stack.pop (found.push leaf)
termination_by ColumnNode.sizeOfAll stack.toList
decreasing_by
  all_goals rename_i h
  · rw [ColumnNode.toList_of_back? h, Array.toList_appendList, ColumnNode.sizeOfAll_append,
      ColumnNode.sizeOfAll_append, ColumnNode.sizeOfAll_reverse]
    exact Nat.add_lt_add_left (Nat.lt_succ_self _) _
  · rw [ColumnNode.toList_of_back? h, ColumnNode.sizeOfAll_append]
    exact Nat.lt_add_of_pos_right (ColumnNode.size_pos leaf)

/-- The leaves of a tree as they are visited, the first node on top of the stack. -/
def ColumnTree.walk (t : ColumnTree) : List ColumnNode :=
  (ColumnNode.visit t.nodes.reverse.toArray #[]).toList

/-- What a leaf refers to; a group refers to nothing. -/
def ColumnNode.ref? : ColumnNode → Option ColumnRef
  | .field ref => some ref
  | .raw ref _ _ => some ref
  | .group _ _ => none

/-! How a tree is shown in the message that it selects nothing; such a tree has groups only. -/

mutual

def ColumnNode.shown : ColumnNode → String
  | .group key children =>
      "GroupNode(key=" ++ Text.quoted key ++ ", children=" ++
        ColumnNode.shownTuple (ColumnNode.shownList children) ++ ")"
  | .field ref => ref.text
  | .raw ref _ _ => ref.text
termination_by structural n => n

def ColumnNode.shownList : List ColumnNode → List String
  | [] => []
  | n :: rest => n.shown :: ColumnNode.shownList rest
termination_by structural ns => ns

/-- Items between parentheses, with a comma after a single one. -/
def ColumnNode.shownTuple : List String → String
  | [single] => "(" ++ single ++ ",)"
  | items => "(" ++ ", ".intercalate items ++ ")"

end

def ColumnTree.shown (t : ColumnTree) : String :=
  let flag (b : Bool) : String := if b then "True" else "False"
  "ColumnTree(nodes=" ++ ColumnNode.shownTuple (ColumnNode.shownList t.nodes) ++
    ", wildcard=" ++ flag t.isEverything ++ ", single=" ++ flag t.isSingle ++
    ", index_key=" ++ (match t.indexKey? with
      | some k => Text.quoted k
      | none => "None") ++ ")"

/-! The labels of a column tree: under which name each selected column appears in a row, and what type it
is declared to have. Of columns with the same label the last one declares the type. Wildcards have no
label, and a tree that selects everything has none either. -/

/-- Names of row columns with their declared types, in order. -/
abbrev ColumnLabels := List (String × ValueType)

namespace ColumnTree

def labelledRefs (t : ColumnTree) : List ColumnRef :=
  t.leaves.filterMap fun
    | .field ref => if ref.isWildcard then none else some ref
    | .raw ref _ _ => some ref
    | .group _ _ => none

/-- The labels of a tree, the index column first. -/
def labels (t : ColumnTree) : ColumnLabels :=
  let index : ColumnLabels := (t.indexColumn?.map fun name => (name, .string)).toList
  Assoc.merge index (t.labelledRefs.map fun ref => (ref.outputName, ref.resultType))

end ColumnTree

end QueryLoom
