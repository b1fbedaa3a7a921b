import QueryLoom.Proofs.Bindings.Conditions
import QueryLoom.Proofs.Statement.Tails

/-!
What the clauses of a statement bind. Joins bind nothing; projections, groups and orders bind what
raw values bring, and nothing else; the end of a statement binds what its conditions, its group, its
HAVING and its order ask for, in this order whatever the order of its entries.
-/

namespace QueryLoom

open Compile

/-- A raw value brings the entries of its map; no other value brings any. -/
def Supply.ofRaw : Value → List Supply
  | .raw _ parameters => ofMap parameters
  | _ => []

variable {t : Target}

namespace Compile.Makes

theorem bareName (v : Value) : Makes (Compile.bareName v) [] :=
  .lift (Identifier.blameless_bare v)

theorem table (v : Value) : Makes (t.table v) [] := .lift (Identifier.blameless_table _ v)

theorem tableRef (ref : TableRef) : Makes (t.tableRef ref) [] :=
  .lift (Identifier.blameless_tableRef _ ref)

end Compile.Makes

open Conditions (makes_column makes_splice)

/-! Joins. -/

namespace Joins

theorem makes_bareNames (names : List Value) : Makes (bareNames names) [] := by
  induction names with
  | nil => exact .pure _
  | cons v rest ih => exact (Makes.bareName v).after fun name => ih.map _

theorem makes_qualified (ref : TableRef) (column : Value) : Makes (qualified t ref column) [] :=
  (Makes.table _).after fun _ => (Makes.bareName column).map _

theorem makes_leftSide (base : TableRef) (left : Value) : Makes (leftSide t base left) [] := by
  unfold leftSide
  refine (Makes.requireText left).after fun _ => ?_
  split_ifs
  · exact makes_column t left
  · exact makes_qualified base left

theorem makes_equations (base joined : TableRef) (entries : Dict) :
    Makes (equations t base joined entries) [] := by
  induction entries with
  | nil => exact .pure _
  | cons entry rest ih =>
      obtain ⟨left, right⟩ := entry
      rw [equations_cons]
      refine (makes_leftSide base left).after fun leftSql => ?_
      exact (makes_qualified joined right).after fun rightSql => ih.map _

theorem makes_relation (base joined : TableRef) (key : String) (v : Value) :
    Makes (relation t base joined key v) [] := by
  unfold relation
  split
  · exact (Makes.bareName _).map _
  · exact .refuse rfl _
  · exact (makes_equations base joined _).map _
  · exact .refuse rfl _
  · exact (makes_bareNames _).map _
  · exact .refuse rfl _

theorem makes_clauses (base : TableRef) (entries : Dict) : Makes (clauses t base entries) [] := by
  induction entries with
  | nil => exact .pure _
  | cons entry rest ih =>
      obtain ⟨key, v⟩ := entry
      cases key with
      | str key =>
          refine (Makes.lift (Key.blameless_joinKey key)).after fun parsed => ?_
          refine (Makes.tableRef _).after fun table => ?_
          exact (makes_relation base _ key v).after fun condition => ih.map _
      | _ => exact .refuse_showing rfl _

theorem makes_compile (base : TableRef) (v : Value) : Makes (compile t base v) [] := by
  unfold compile
  split
  · exact (makes_clauses base _).map _
  · exact .refuse_showing rfl _

end Joins

/-! Projections. -/

namespace Projection

def leafSupplies : ColumnNode → List Supply
  | .raw _ _ parameters => Supply.ofMap parameters
  | _ => []

/-- What the raw columns of a tree bring, in the order of its leaves. -/
def treeSupplies (tree : ColumnTree) : List Supply := tree.leaves.flatMap leafSupplies

/-- What the columns of a specification bring. -/
def supplies (columns : Value) : List Supply :=
  match ColumnSpec.parse columns with
  | .ok tree => treeSupplies tree
  | .error _ => []

theorem makes_wildcard (table? : Option String) :
    Makes (match table? with
      | none => pure [Piece.text "*"]
      | some table => do return (← t.table table) ++ [.text ".*"]) [] := by
  cases table? with
  | none => exact .pure _
  | some table => exact (Makes.table _).map _

theorem makes_fieldItem (joins : Bool) (ref : ColumnRef) : Makes (fieldItem t joins ref) [] := by
  have hwildcard := makes_wildcard (t := t) ref.table
  unfold fieldItem
  split_ifs with hall hjoins
  · exact (Makes.refuse rfl []).after fun _ => hwildcard
  · exact hwildcard
  · refine (makes_column _ _).after fun sql => ?_
    cases ref.label with
    | none => exact .pure _
    | some label => exact (Makes.bareName _).map _

theorem makes_listItems (joins : Bool) :
    (∀ n : ColumnNode, Makes (nodeItems t joins n) (n.leaves.flatMap leafSupplies)) ∧
    (∀ ns : List ColumnNode,
      Makes (listItems t joins ns) ((ColumnNode.leavesOf ns).flatMap leafSupplies)) := by
  apply nodeItems.mutual_induct
  · intro key children ih
    exact ih
  · intro ref raw parameters
    have hleaf : (ColumnNode.leaves (.raw ref raw parameters)).flatMap leafSupplies =
        Supply.ofMap parameters := by
      simp [ColumnNode.leaves, leafSupplies]
    rw [hleaf]
    exact ((makes_splice t raw parameters).before fun body => (Makes.bareName _).map _).map _
  · intro ref
    exact (makes_fieldItem joins ref).map _
  · exact .pure _
  · intro n rest ih ihrest
    rw [ColumnNode.leavesOf, List.flatMap_append]
    exact ih.bind fun first => ihrest.map _

theorem makes_compile (joins : Bool) (tree : ColumnTree) :
    Makes (compile t joins tree) (treeSupplies tree) := by
  have hitems : ∀ index : List Sql, Makes (do
      let items := index ++ (← listItems t joins tree.nodes)
      if items.isEmpty then throw (.emptyProjection tree)
      return Sql.join ", " items) (treeSupplies tree) := by
    intro index
    refine ((makes_listItems joins).2 _).before fun items => ?_
    dsimp only
    split_ifs
    · exact (Makes.refuse rfl []).after fun _ => .pure _
    · exact .pure _
  unfold compile
  split
  · split_ifs
    · exact (Makes.refuse rfl []).after fun _ => .pure _
    · exact .pure _
  · cases tree.indexKey? with
    | none => exact (Makes.pure []).after hitems
    | some key => exact (makes_column _ _).after fun column => (Makes.pure [column]).after hitems

end Projection

/-! Ends of statements. -/

namespace Tail

def havingSupplies : Value → List Supply
  | .raw _ parameters => Supply.ofMap parameters
  | v => Conditions.supplies v

/-- An order brings what its raw values bring. -/
def orderSupplies : Value → List Supply
  | .list items => items.flatMap Supply.ofRaw
  | v => Supply.ofRaw v

/-- The bindings that the end of a statement asks for. -/
def supplies : Value → List Supply
  | .raw _ parameters => Supply.ofMap parameters
  | .dict entries =>
      Conditions.supplies (.dict (conditionEntries entries)) ++
        Supply.ofRaw (Dict.getD entries groupKey) ++
        havingSupplies (Dict.getD entries havingKey) ++ orderSupplies (Dict.getD entries orderKey)
  | _ => []

theorem makes_columnList (columns : List Value) : Makes (columnList t columns) [] := by
  induction columns with
  | nil => exact .pure _
  | cons v rest ih => exact (makes_column t v).after fun first => ih.map _

theorem makes_group (v : Value) : Makes (group t v) (Supply.ofRaw v) := by
  cases v with
  | raw raw parameters => exact makes_splice _ _ _
  | str name => exact makes_column _ _
  | list columns => exact (makes_columnList _).map _
  | bytes octets => exact (makes_columnList _).map _
  | _ => exact .refuse rfl _

theorem makes_orderEntry (key v : Value) : Makes (orderEntry t key v) [] := by
  unfold orderEntry
  split
  · exact makes_column _ _
  · refine (makes_column _ _).after fun column => ?_
    dsimp only
    split
    · split
      · exact .pure _
      · exact .refuse rfl _
    · exact (Makes.lift (Dialect.blameless_literals _ _)).map _
    · exact .refuse rfl _

theorem makes_orderEntries (entries : Dict) : Makes (orderEntries t entries) [] := by
  induction entries with
  | nil => exact .pure _
  | cons entry rest ih => exact (makes_orderEntry entry.1 entry.2).after fun first => ih.map _

theorem makes_orderItem (v : Value) : Makes (orderItem t v) (Supply.ofRaw v) := by
  cases v with
  | str name => exact (makes_column _ _).map _
  | dict entries => exact makes_orderEntries entries
  | raw raw parameters => exact (makes_splice _ _ _).map _
  | _ => exact .refuse_showing rfl _

theorem makes_orderItems (items : List Value) :
    Makes (orderItems t items) (items.flatMap Supply.ofRaw) := by
  induction items with
  | nil => exact .pure _
  | cons v rest ih =>
      rw [orderItems_cons, List.flatMap_cons]
      exact (makes_orderItem v).bind fun first => ih.map _

theorem makes_order (v : Value) : Makes (order t v) (orderSupplies v) := by
  cases v with
  | raw raw parameters => exact makes_splice _ _ _
  | str name => exact makes_column _ _
  | dict entries => exact (makes_orderEntries _).map _
  | list items => exact (makes_orderItems items).map _
  | bytes octets =>
      have hnone : (octets.map fun o => Value.int o.toNat).flatMap Supply.ofRaw = [] := by
        simp [Supply.ofRaw]
      have hitems := makes_orderItems (t := t) (octets.map fun o => Value.int o.toNat)
      rw [hnone] at hitems
      exact hitems.map _
  | _ => exact .refuse rfl _

theorem makes_limit (v : Value) : Makes (limit v) [] := by
  unfold limit
  dsimp only
  split
  · split
    · exact (Makes.requireText _).map _
    · exact .refuse rfl _
  · split
    · exact (Makes.requireText _).map _
    · exact .refuse rfl _

theorem makes_having (v : Value) : Makes (having t v) (havingSupplies v) := by
  cases v with
  | raw raw parameters => exact makes_splice _ _ _
  | _ =>
      rw [having_eq (by simp)]
      exact Conditions.makes_compile _ _ _

/-- A clause that is left out must not bring anything. -/
theorem makes_whenTruthy {v : Value} (keyword : String) {body : Value → Compile Sql}
    {xs : List Supply} (h : Makes (body v) xs) (hfalsy : v.truthy = false → xs = []) :
    Makes (whenTruthy v keyword body) xs := by
  unfold whenTruthy
  split_ifs with htruthy
  · exact h.map _
  · rw [hfalsy (by simpa using htruthy)]
    exact .pure _

theorem ofRaw_of_falsy {v : Value} (h : v.truthy = false) : Supply.ofRaw v = [] := by
  cases v with
  | raw raw parameters => cases h
  | _ => rfl

theorem conditions_of_falsy {v : Value} (h : v.truthy = false) : Conditions.supplies v = [] := by
  cases v with
  | dict entries =>
      cases entries with
      | nil => rfl
      | cons entry rest => cases h
  | _ => rfl

theorem havingSupplies_of_falsy {v : Value} (h : v.truthy = false) : havingSupplies v = [] := by
  cases v with
  | raw raw parameters => cases h
  | _ => exact conditions_of_falsy h

theorem orderSupplies_of_falsy {v : Value} (h : v.truthy = false) : orderSupplies v = [] := by
  cases v with
  | list items =>
      cases items with
      | nil => rfl
      | cons item rest => cases h
  | _ => exact ofRaw_of_falsy h

theorem makes_compile (v : Value) : Makes (compile t v) (supplies v) := by
  cases v with
  | null => exact .pure _
  | raw raw parameters => exact makes_splice _ _ _
  | dict entries =>
      have hfilter := makes_whenTruthy "WHERE "
        (Conditions.makes_compile ⟨t, .filter⟩ .and (.dict (conditionEntries entries)))
        conditions_of_falsy
      have hgroup := makes_whenTruthy "GROUP BY "
        (makes_group (t := t) (Dict.getD entries groupKey)) ofRaw_of_falsy
      have hhaving := makes_whenTruthy "HAVING "
        (makes_having (t := t) (Dict.getD entries havingKey)) havingSupplies_of_falsy
      have horder := makes_whenTruthy "ORDER BY "
        (makes_order (t := t) (Dict.getD entries orderKey)) orderSupplies_of_falsy
      unfold compile
      simp only [supplies, List.append_assoc]
      refine hfilter.bind fun filter => hgroup.bind fun groupBy => hhaving.bind fun having => ?_
      refine horder.before fun orderBy => ?_
      split
      · exact (Makes.pure []).after fun limit => .pure _
      · refine (makes_limit _).after fun row => ?_
        exact (Makes.pure [row]).after fun limit => .pure _
  | _ => exact .refuse_showing rfl _

end Tail

end QueryLoom
