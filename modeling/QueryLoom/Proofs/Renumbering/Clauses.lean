import QueryLoom.Proofs.Renumbering.Refusals
import QueryLoom.Proofs.Statement.Tails

/-!
The parts of statements that bind nothing but what raw values bring: names, joins, projections,
groups, orders and limits. Compiled further on, they end in the same way.
-/

namespace QueryLoom

open Compile

variable {φ : Renumbering} {t : Target}

/-! Names. -/

namespace Renumbering

/-- SQL without placeholders is the same in both runs. -/
theorem follows_lift {x : Except Fault Sql} (hx : Blameless x)
    (hparams : ∀ sql, x = .ok sql → sql.params = []) : φ.Follows φ.sql (lift x) (lift x) := by
  refine .lift hx ?_
  cases x with
  | error fault => rfl
  | ok sql => exact congrArg Except.ok (Sql.mapParams_of_params_eq (hparams sql rfl))

/-- A step whose result holds no names. -/
theorem follows_lift_id {α : Type} {x : Except Fault α} (hx : Blameless x) :
    φ.Follows id (lift x) (lift x) := by
  refine .lift hx ?_
  cases x <;> rfl

theorem follows_bareName (v : Value) : φ.Follows φ.sql (bareName v) (bareName v) := by
  refine follows_lift (Identifier.blameless_bare v) fun sql h => ?_
  obtain ⟨name, _, rfl⟩ := Identifier.bare_eq h
  rfl

theorem follows_table (v : Value) : φ.Follows φ.sql (t.table v) (t.table v) := by
  refine follows_lift (Identifier.blameless_table _ v) fun sql h => ?_
  obtain ⟨name, _, rfl⟩ := Identifier.table_eq h
  rfl

theorem follows_column (v : Value) : φ.Follows φ.sql (t.column v) (t.column v) :=
  follows_lift (Identifier.blameless_column _ v) fun _ h => (ColumnRow.of_column h).params_eq

theorem follows_tableRef (ref : TableRef) : φ.Follows φ.sql (t.tableRef ref) (t.tableRef ref) := by
  refine follows_lift (Identifier.blameless_tableRef _ ref) fun sql h => ?_
  simp only [Identifier.tableRef, Except.bind_eq_ok] at h
  obtain ⟨tableSql, htable, h⟩ := h
  obtain ⟨name, _, rfl⟩ := Identifier.table_eq htable
  cases hlabel : ref.label with
  | none =>
      rw [hlabel] at h
      cases h
      rfl
  | some label =>
      simp only [hlabel, Except.bind_eq_ok, Except.pure_eq_ok] at h
      obtain ⟨labelSql, hlabelSql, rfl⟩ := h
      obtain ⟨labelName, _, rfl⟩ := Identifier.table_eq hlabelSql
      rfl

/-- A raw value that stands where it is expanded. -/
theorem follows_fragment {raw : String} {parameters : Dict}
    (h : (Value.raw raw parameters).BringsOnly φ.Brought) :
    φ.Follows φ.sql (t.splice raw parameters) (t.splice raw parameters) :=
  follows_splice h

end Renumbering

open Renumbering

/-! Joins. -/

namespace Joins

theorem follows_bareNames (names : List Value) :
    φ.Follows (List.map φ.sql) (bareNames names) (bareNames names) := by
  induction names with
  | nil => exact .pure rfl
  | cons v rest ih => exact (follows_bareName v).cons ih fun _ => rfl

theorem follows_qualified (ref : TableRef) (column : Value) :
    φ.Follows φ.sql (qualified t ref column) (qualified t ref column) :=
  (follows_table _).bind fun _ => (follows_bareName _).map fun _ => by simp

theorem follows_leftSide (base : TableRef) (left : Value) :
    φ.Follows φ.sql (leftSide t base left) (leftSide t base left) := by
  refine (follows_requireText left).bind_id fun _ => ?_
  split_ifs
  · exact follows_column left
  · exact follows_qualified base left

theorem follows_equations (base joined : TableRef) (entries : Dict) :
    φ.Follows (List.map φ.sql) (equations t base joined entries) (equations t base joined entries) := by
  induction entries with
  | nil => exact .pure rfl
  | cons entry rest ih =>
      obtain ⟨left, right⟩ := entry
      rw [equations_cons]
      refine (follows_leftSide base left).bind fun leftSql => ?_
      exact (follows_qualified joined right).cons ih fun _ => by simp

theorem follows_relation (base joined : TableRef) (key : String) (v : Value) :
    φ.Follows φ.sql (relation t base joined key v) (relation t base joined key v) := by
  unfold relation
  split
  · exact (follows_bareName _).map fun _ => by simp
  · exact .throw (.error rfl)
  · exact (follows_equations base joined _).map fun _ => by simp
  · exact .throw (.error rfl)
  · exact (follows_bareNames _).map fun _ => by simp
  · exact .throw (.error rfl)

theorem follows_clauses (base : TableRef) (entries : Dict) :
    φ.Follows (List.map φ.sql) (clauses t base entries) (clauses t base entries) := by
  induction entries with
  | nil => exact .pure rfl
  | cons entry rest ih =>
      obtain ⟨key, v⟩ := entry
      cases key with
      | str key =>
          refine (follows_lift_id (Key.blameless_joinKey key)).bind_id fun parsed => ?_
          refine (follows_tableRef _).bind fun table => ?_
          exact (follows_relation base _ key v).cons ih fun _ => by simp
      | _ => exact .throw (.showing rfl)

theorem follows_compile (base : TableRef) (v : Value) :
    φ.Follows φ.sql (compile t base v) (compile t base v) := by
  unfold compile
  split
  · exact (follows_clauses base _).map fun _ => by simp
  · exact .throw (.showing rfl)

end Joins

/-! Projections. -/

namespace Projection

theorem follows_wildcard (table? : Option String) :
    φ.Follows φ.sql (match table? with
      | none => pure [Piece.text "*"]
      | some table => do return (← t.table table) ++ [.text ".*"]) (match table? with
      | none => pure [Piece.text "*"]
      | some table => do return (← t.table table) ++ [.text ".*"]) := by
  cases table? with
  | none => exact .pure rfl
  | some table => exact (follows_table _).map fun _ => by simp

theorem follows_fieldItem (joins : Bool) (ref : ColumnRef) :
    φ.Follows φ.sql (fieldItem t joins ref) (fieldItem t joins ref) := by
  have hwildcard := follows_wildcard (φ := φ) (t := t) ref.table
  unfold fieldItem
  split_ifs with hall hjoins
  · exact Follows.bind_id (.throw (.error rfl)) fun _ => hwildcard
  · exact hwildcard
  · refine (follows_column _).bind fun sql => ?_
    cases ref.label with
    | none => exact .pure rfl
    | some label => exact (follows_bareName _).map fun _ => by simp

theorem follows_rawItem (ref : ColumnRef) {raw : String} {parameters : Dict}
    (h : (Value.raw raw parameters).BringsOnly φ.Brought) :
    φ.Follows φ.sql (rawItem t ref raw parameters) (rawItem t ref raw parameters) :=
  (follows_fragment h).bind fun _ => (follows_bareName _).map fun _ => by simp

theorem follows_listItems (joins : Bool) :
    (∀ n : ColumnNode, (∀ leaf ∈ n.leaves, leaf.IsRead (Value.BringsOnly φ.Brought)) →
      φ.Follows (List.map φ.sql) (nodeItems t joins n) (nodeItems t joins n)) ∧
    (∀ ns : List ColumnNode, ColumnNode.AreRead (Value.BringsOnly φ.Brought) ns →
      φ.Follows (List.map φ.sql) (listItems t joins ns) (listItems t joins ns)) := by
  apply nodeItems.mutual_induct
  · intro key children ih hread
    exact ih hread
  · intro ref raw parameters hread
    have hraw := (hread (.raw ref raw parameters) (by simp [ColumnNode.leaves])).2
    exact (follows_rawItem ref hraw).map fun _ => rfl
  · intro ref _
    exact (follows_fieldItem joins ref).map fun _ => rfl
  · intro _
    exact .pure rfl
  · intro n rest ih ihrest hread
    rw [ColumnNode.AreRead, ColumnNode.leavesOf, List.forall_mem_append] at hread
    exact (ih hread.1).bind fun first => (ihrest hread.2).map fun _ => by simp

theorem follows_compile (joins : Bool) {tree : ColumnTree}
    (h : ColumnNode.AreRead (Value.BringsOnly φ.Brought) tree.nodes) :
    φ.Follows φ.sql (compile t joins tree) (compile t joins tree) := by
  unfold compile
  split
  · split_ifs
    · exact Follows.bind_id (.throw (.error rfl)) fun _ => .pure rfl
    · exact .pure rfl
  · have hitems : ∀ index : List Sql, φ.Follows φ.sql (do
        let items := index ++ (← listItems t joins tree.nodes)
        if items.isEmpty then throw (.emptyProjection tree)
        return Sql.join ", " items) (do
        let items := index.map φ.sql ++ (← listItems t joins tree.nodes)
        if items.isEmpty then throw (.emptyProjection tree)
        return Sql.join ", " items) := by
      intro index
      refine ((follows_listItems joins).2 _ h).bind fun items => ?_
      have hempty : (index.map φ.sql ++ items.map φ.sql).isEmpty = (index ++ items).isEmpty := by
        rw [← List.map_append, List.isEmpty_map]
      dsimp only
      rw [hempty]
      split_ifs
      · exact Follows.bind_id (.throw (.error rfl)) fun _ => .pure (by simp)
      · exact .pure (by simp)
    cases tree.indexKey? with
    | none => exact Follows.bind (f := List.map φ.sql) (.pure rfl) hitems
    | some key =>
        refine (follows_column _).bind fun column => ?_
        exact Follows.bind (f := List.map φ.sql) (.pure rfl) hitems

end Projection

/-! Groups, orders and limits. -/

namespace Tail

theorem follows_columnList (columns : List Value) :
    φ.Follows (List.map φ.sql) (columnList t columns) (columnList t columns) := by
  induction columns with
  | nil => exact .pure rfl
  | cons v rest ih => exact (follows_column v).cons ih fun _ => rfl

theorem follows_group {v : Value} (h : v.BringsOnly φ.Brought) :
    φ.Follows φ.sql (group t v) (group t v) := by
  unfold group
  split
  · exact follows_fragment h
  · exact follows_column _
  · exact (follows_columnList _).map fun _ => by simp
  · exact (follows_columnList _).map fun _ => by simp
  · exact .throw (.error rfl)

/-- The literals of an order stay as they are, whatever they look like. -/
theorem mapParams_customOrder (d : Dialect) (f : String → String) (column : Sql)
    (literals : List String) :
    (d.customOrder column literals).mapParams f = d.customOrder (column.mapParams f) literals := by
  have hliterals : (literals.map fun l => [Piece.literal l]).map (Sql.mapParams f) =
      literals.map fun l => [Piece.literal l] := by
    simp [Function.comp_def]
  have hranked : ∀ rank, (Dialect.ranked rank literals).map (Sql.mapParams f) =
      Dialect.ranked rank literals := by
    intro rank
    induction literals generalizing rank with
    | nil => rfl
    | cons l rest ih => simp [Dialect.ranked, ih]
  cases d <;> simp [Dialect.customOrder, hliterals, hranked]

theorem follows_orderEntry (key v : Value) :
    φ.Follows φ.sql (orderEntry t key v) (orderEntry t key v) := by
  unfold orderEntry
  split
  · exact follows_column _
  · refine (follows_column _).bind fun column => ?_
    dsimp only
    split
    · split
      · exact .pure (by simp)
      · exact .throw (.error rfl)
    · exact (follows_lift_id (Dialect.blameless_literals _ _)).map fun _ =>
        mapParams_customOrder _ _ _ _
    · exact .throw (.error rfl)

theorem follows_orderEntries (entries : Dict) :
    φ.Follows (List.map φ.sql) (orderEntries t entries) (orderEntries t entries) := by
  induction entries with
  | nil => exact .pure rfl
  | cons entry rest ih => exact (follows_orderEntry entry.1 entry.2).cons ih fun _ => rfl

theorem follows_orderItem {v : Value} (h : v.BringsOnly φ.Brought) :
    φ.Follows (List.map φ.sql) (orderItem t v) (orderItem t v) := by
  unfold orderItem
  split
  · exact (follows_column _).map fun _ => rfl
  · exact follows_orderEntries _
  · exact (follows_fragment h).map fun _ => rfl
  · exact .throw (.showing rfl)

theorem follows_orderItems {items : List Value} (h : ∀ v ∈ items, v.BringsOnly φ.Brought) :
    φ.Follows (List.map φ.sql) (orderItems t items) (orderItems t items) := by
  induction items with
  | nil => exact .pure rfl
  | cons v rest ih =>
      rw [List.forall_mem_cons] at h
      rw [orderItems_cons]
      exact (follows_orderItem h.1).bind fun first => (ih h.2).map fun _ => by simp

theorem follows_order {v : Value} (h : v.BringsOnly φ.Brought) :
    φ.Follows φ.sql (order t v) (order t v) := by
  unfold order
  split
  · exact follows_fragment h
  · exact follows_column _
  · exact (follows_orderEntries _).map fun _ => by simp
  · exact (follows_orderItems (Value.bringsOnly_list.mp h)).map fun _ => by simp
  · exact (follows_orderItems (Value.bringsOnly_octets _)).map fun _ => by simp
  · exact .throw (.error rfl)

theorem follows_limit (v : Value) : φ.Follows φ.sql (limit v) (limit v) := by
  unfold limit
  dsimp only
  split
  · split
    · exact (follows_requireText _).map fun _ => rfl
    · exact .throw (.error rfl)
  · split
    · exact (follows_requireText _).map fun _ => rfl
    · exact .throw (.error rfl)

end Tail

end QueryLoom
