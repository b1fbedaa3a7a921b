import QueryLoom.Proofs.Independence.Agreement
import QueryLoom.Proofs.Statement.Heads
import QueryLoom.Proofs.Statement.Tails

/-!
The parts of statements that take no values: joins, projections, groups, orders and limits. The same
part compiled from alike states gives the same SQL, raw fragments included.
-/

namespace QueryLoom

open Compile

variable {t : Target}

/-! Joins. -/

namespace Joins

theorem steady_bareNames (names : List Value) : Steady (bareNames names) := by
  induction names with
  | nil => exact steady_pure []
  | cons v rest ih => exact agree_cons (steady_lift _) ih id

theorem steady_qualified (ref : TableRef) (column : Value) : Steady (qualified t ref column) :=
  steady_bind (steady_lift _) fun _ => agree_map (steady_lift _) _

theorem steady_leftSide (base : TableRef) (left : Value) : Steady (leftSide t base left) := by
  refine steady_bind (steady_lift _) fun _ => ?_
  split_ifs with hdot
  · exact steady_lift _
  · exact steady_qualified base left

theorem steady_equations (base joined : TableRef) (entries : Dict) :
    Steady (equations t base joined entries) := by
  induction entries with
  | nil => exact steady_pure []
  | cons entry rest ih =>
      obtain ⟨left, right⟩ := entry
      rw [equations_cons]
      refine steady_bind (steady_leftSide base left) fun leftSql => ?_
      exact agree_cons (steady_qualified joined right) ih _

theorem steady_relation (base joined : TableRef) (key : String) (v : Value) :
    Steady (relation t base joined key v) := by
  unfold relation
  split
  · exact agree_map (steady_lift _) _
  · exact steady_throw _
  · exact agree_map (steady_equations base joined _) _
  · exact steady_throw _
  · exact agree_map (steady_bareNames _) _
  · exact steady_throw _

theorem steady_clauses (base : TableRef) (entries : Dict) : Steady (clauses t base entries) := by
  induction entries with
  | nil => exact steady_pure []
  | cons entry rest ih =>
      obtain ⟨key, v⟩ := entry
      cases key with
      | str key =>
          refine steady_bind (steady_lift _) fun parsed => ?_
          refine steady_bind (steady_lift _) fun table => ?_
          exact agree_cons (steady_relation base _ key v) ih _
      | _ => exact steady_throw _

theorem steady_compile (base : TableRef) (v : Value) : Steady (compile t base v) := by
  unfold compile
  split
  · exact agree_map (steady_clauses base _) _
  · exact steady_throw _

end Joins

/-! Projections. -/

namespace Projection

theorem steady_wildcard (table? : Option String) :
    Steady (match table? with
      | none => pure [Piece.text "*"]
      | some table => do return (← t.table table) ++ [.text ".*"]) := by
  cases table? with
  | none => exact steady_pure _
  | some table => exact agree_map (steady_lift _) _

theorem steady_fieldItem (joins : Bool) (ref : ColumnRef) : Steady (fieldItem t joins ref) := by
  have hwildcard := steady_wildcard (t := t) ref.table
  unfold fieldItem
  split_ifs with hall hjoins
  · exact Agree.throw_bind
  · exact hwildcard
  · refine steady_bind (steady_lift _) fun sql => ?_
    cases ref.label with
    | none => exact steady_pure _
    | some label => exact agree_map (steady_lift _) _

theorem steady_rawItem (ref : ColumnRef) (sql : String) (parameters : Dict) :
    Steady (rawItem t ref sql parameters) :=
  steady_bind (steady_splice _ _ _) fun _ => agree_map (steady_lift _) _

theorem steady_listItems (joins : Bool) :
    (∀ n : ColumnNode, Steady (nodeItems t joins n)) ∧
      ∀ ns : List ColumnNode, Steady (listItems t joins ns) := by
  apply nodeItems.mutual_induct
  · intro key children ih
    exact ih
  · intro ref sql parameters
    exact agree_map (steady_rawItem ref sql parameters) _
  · intro ref
    exact agree_map (steady_fieldItem joins ref) _
  · exact steady_pure []
  · intro n rest ih ihrest
    exact steady_bind ih fun first => agree_map ihrest _

theorem steady_compile (joins : Bool) (tree : ColumnTree) : Steady (compile t joins tree) := by
  unfold compile
  split
  · split_ifs with hjoins
    · exact .throw_bind
    · exact steady_pure _
  · have hitems : ∀ index : List Sql, Steady (do
        let items := index ++ (← listItems t joins tree.nodes)
        if items.isEmpty then throw (.emptyProjection tree)
        return Sql.join ", " items) := by
      intro index
      refine steady_bind ((steady_listItems joins).2 _) fun items => ?_
      dsimp only
      split_ifs with hempty
      · exact .throw_bind
      · exact steady_pure _
    cases tree.indexKey? with
    | none => exact steady_bind (steady_pure _) hitems
    | some key =>
        refine steady_bind (steady_lift _) fun column => ?_
        exact steady_bind (steady_pure _) hitems

end Projection

/-! Groups, orders and limits. -/

namespace Tail

theorem steady_columnList (columns : List Value) : Steady (columnList t columns) := by
  induction columns with
  | nil => exact steady_pure []
  | cons v rest ih => exact agree_cons (steady_lift _) ih id

theorem steady_group (v : Value) : Steady (group t v) := by
  unfold group
  split
  · exact steady_splice _ _ _
  · exact steady_lift _
  · exact agree_map (steady_columnList _) _
  · exact agree_map (steady_columnList _) _
  · exact steady_throw _

theorem steady_orderEntry (key v : Value) : Steady (orderEntry t key v) := by
  unfold orderEntry
  split
  · exact steady_lift _
  · refine steady_bind (steady_lift _) fun column => ?_
    dsimp only
    split
    · split
      · exact steady_pure _
      · exact steady_throw _
    · exact agree_map (steady_lift _) _
    · exact steady_throw _

theorem steady_orderEntries (entries : Dict) : Steady (orderEntries t entries) := by
  induction entries with
  | nil => exact steady_pure []
  | cons entry rest ih => exact agree_cons (steady_orderEntry entry.1 entry.2) ih id

theorem steady_orderItem (v : Value) : Steady (orderItem t v) := by
  unfold orderItem
  split
  · exact agree_map (steady_lift _) _
  · exact steady_orderEntries _
  · exact agree_map (steady_splice _ _ _) _
  · exact steady_throw _

theorem steady_orderItems (items : List Value) : Steady (orderItems t items) := by
  induction items with
  | nil => exact steady_pure []
  | cons v rest ih =>
      rw [orderItems_cons]
      exact steady_bind (steady_orderItem v) fun first => agree_map ih _

theorem steady_order (v : Value) : Steady (order t v) := by
  unfold order
  split
  · exact steady_splice _ _ _
  · exact steady_lift _
  · exact agree_map (steady_orderEntries _) _
  · exact agree_map (steady_orderItems _) _
  · exact agree_map (steady_orderItems _) _
  · exact steady_throw _

theorem steady_limit (v : Value) : Steady (limit v) := by
  unfold limit
  dsimp only
  split
  · split
    · exact agree_map (steady_lift _) _
    · exact steady_throw _
  · split
    · exact agree_map (steady_lift _) _
    · exact steady_throw _

end Tail

end QueryLoom
