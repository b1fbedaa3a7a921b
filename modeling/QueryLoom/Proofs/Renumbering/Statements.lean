import QueryLoom.Proofs.Independence.Statements
import QueryLoom.Proofs.Renumbering.Conditions

/-!
Statements that are compiled further on: their ends, their heads, and the parameters that they are
finished with.
-/

namespace QueryLoom

open Compile Renumbering

variable {φ : Renumbering} {t : Target}

/-! What raw values bring, in parts of values. -/

namespace Value

variable {P : String → Prop}

theorem bringsOnly_null : Value.null.BringsOnly P := by simp [BringsOnly, rawNames]

theorem BringsOnly.getD {entries : Dict} (h : (Value.dict entries).BringsOnly P) (key : String) :
    (Dict.getD entries key).BringsOnly P := by
  unfold Dict.getD Dict.get?
  cases hget : Assoc.get? (Value.str key) entries with
  | none => exact bringsOnly_null
  | some v =>
      obtain ⟨k, hmem, _⟩ := Assoc.mem_of_get? hget
      exact bringsOnly_dict.mp h _ hmem

theorem BringsOnly.conditions {entries : Dict} (h : (Value.dict entries).BringsOnly P) :
    (Value.dict (Tail.conditionEntries entries)).BringsOnly P :=
  bringsOnly_dict.mpr fun entry hentry => bringsOnly_dict.mp h entry (List.mem_filter.mp hentry).1

theorem BringsOnly.withoutLimit {v : Value} (h : v.BringsOnly P) :
    (Statement.withoutLimit v).BringsOnly P := by
  cases v with
  | dict entries =>
      refine bringsOnly_dict.mpr fun entry hentry => ?_
      exact bringsOnly_dict.mp h entry (List.mem_filter.mp hentry).1
  | _ => exact h

/-- The function that orders rows at random brings nothing. -/
theorem BringsOnly.randomOrder {v ordered : Value} (h : v.BringsOnly P)
    (hordered : Statement.randomOrder t v = .ok ordered) : ordered.BringsOnly P := by
  have hrandom : (Value.raw t.dialect.randomFunction []).BringsOnly P :=
    bringsOnly_raw.mpr (by simp)
  unfold Statement.randomOrder at hordered
  split at hordered
  · cases hordered
  · dsimp only at hordered
    split at hordered
    · cases hordered
      refine bringsOnly_dict.mpr fun entry hentry => ?_
      have hkey : (Value.str Tail.orderKey == Value.str Tail.orderKey) = true := by
        rw [Value.str_beq_str, beq_self_eq_true]
      rcases Assoc.mem_of_mem_insert hkey hentry with ⟨k, _, rfl⟩ | hold
      · exact hrandom
      · exact bringsOnly_dict.mp h entry hold
    · split_ifs at hordered
      cases hordered
      exact bringsOnly_dict.mpr (by simpa using hrandom)

end Value

/-! Ends of statements. -/

namespace Tail

theorem follows_whenTruthy (v : Value) (keyword : String) {body : Value → Compile Sql}
    (h : φ.Follows φ.sql (body v) (body v)) :
    φ.Follows (List.map φ.sql) (whenTruthy v keyword body) (whenTruthy v keyword body) := by
  unfold whenTruthy
  split_ifs
  · exact h.map fun _ => by simp
  · exact .pure rfl

theorem follows_having {v : Value} (h : v.BringsOnly φ.Brought) :
    φ.Follows φ.sql (having t v) (having t v) := by
  unfold having
  split
  · exact follows_fragment h
  · exact Conditions.follows_compile h _

theorem follows_compile {v : Value} (h : v.BringsOnly φ.Brought) :
    φ.Follows φ.sql (compile t v) (compile t v) := by
  unfold compile
  split
  · exact .pure rfl
  · exact follows_fragment h
  · rename_i entries
    refine (follows_whenTruthy _ _ (Conditions.follows_compile h.conditions _)).bind
      fun filter => ?_
    refine (follows_whenTruthy _ _ (follows_group (h.getD _))).bind fun groupBy => ?_
    refine (follows_whenTruthy _ _ (follows_having (h.getD _))).bind fun having => ?_
    refine (follows_whenTruthy _ _ (follows_order (h.getD _))).bind fun orderBy => ?_
    dsimp only
    split
    · exact Follows.bind (f := List.map φ.sql) (.pure rfl) fun limit => .pure (by simp)
    · refine (follows_limit _).bind fun limit => ?_
      exact Follows.bind (f := List.map φ.sql) (.pure rfl) fun limit => .pure (by simp)
  · exact .throw (.showing rfl)

end Tail

namespace Renumbering

/-- What is done to a statement. -/
def compiled (φ : Renumbering) (c : Compiled) : Compiled :=
  { c with
    body := φ.sql c.body
    params := c.params.map fun (name, v) => (Parameters.renumber φ.offset name, v) }

end Renumbering

namespace Statement

theorem follows_finish (sql : Sql) (columns : Option ColumnTree) :
    φ.Follows φ.compiled (finish t sql columns) (finish t (φ.sql sql) columns) := by
  intro s hs
  exact ⟨.ok ⟨sql, false, s.bound, t.dialect, columns⟩, s, rfl, .ok hs _, fun _ => rfl⟩

theorem sql_append (sql tail : Sql) : φ.sql (append sql tail) = append (φ.sql sql) (φ.sql tail) := by
  unfold append
  rw [Sql.isEmpty_text_mapParams]
  split_ifs <;> simp

/-! Statements that read. -/

theorem follows_joinsAfter (ref : TableRef) (sql : Sql) (join : Value) :
    φ.Follows φ.sql (joinsAfter t ref sql join) (joinsAfter t ref (φ.sql sql) join) := by
  unfold joinsAfter
  split_ifs
  · exact (Joins.follows_compile _ _).map fun _ => by simp
  · exact .pure rfl

theorem follows_selectFrom (head : Sql) (table : Value) {wheres : Value} (join : Value)
    (h : wheres.BringsOnly φ.Brought) :
    φ.Follows φ.sql (selectFrom t head table wheres join)
      (selectFrom t (φ.sql head) table wheres join) := by
  rw [selectFrom_eq, selectFrom_eq]
  refine (follows_lift_id (Key.blameless_tableRefOfValue table)).bind_id fun ref => ?_
  refine (follows_tableRef ref).bind fun tableSql => ?_
  have hfrom : φ.sql (head ++ .text " FROM " :: tableSql) =
      φ.sql head ++ .text " FROM " :: φ.sql tableSql := by simp
  rw [← hfrom]
  refine (follows_joinsAfter _ _ _).bind fun sql => ?_
  exact (Tail.follows_compile h).map fun tail => sql_append sql tail

theorem follows_select (table : Value) {columns wheres : Value} (join : Value)
    (hcolumns : columns.BringsOnly φ.Brought) (h : wheres.BringsOnly φ.Brought) :
    φ.Follows φ.compiled (select t table columns wheres join) (select t table columns wheres join) := by
  refine (follows_lift_id (ColumnSpec.blameless_parse columns)).bind_of fun tree htree => ?_
  obtain ⟨_, _, hparse⟩ := htree
  have hread := ColumnSpec.areRead_parse .bringsOnly hcolumns ((yields_lift _).mp hparse).1
  refine (Projection.follows_compile _ hread).bind fun projection => ?_
  have hselect : φ.sql (.text "SELECT " :: projection) = .text "SELECT " :: φ.sql projection := rfl
  rw [← hselect]
  exact (follows_selectFrom _ table join h).bind fun sql => follows_finish sql _

theorem follows_get (table : Value) {columns wheres : Value} (join : Value)
    (hcolumns : columns.BringsOnly φ.Brought) (h : wheres.BringsOnly φ.Brought) :
    φ.Follows φ.compiled (get t table columns wheres join) (get t table columns wheres join) :=
  (follows_select table join hcolumns h.withoutLimit).map fun _ => rfl

theorem follows_has (table : Value) {wheres : Value} (join : Value)
    (h : wheres.BringsOnly φ.Brought) :
    φ.Follows φ.compiled (has t table wheres join) (has t table wheres join) := by
  refine (follows_selectFrom [.text "SELECT 1"] table join h).bind fun inner => ?_
  have hexists : φ.sql (.text "SELECT EXISTS(" :: inner ++ [.text ")"]) =
      .text "SELECT EXISTS(" :: φ.sql inner ++ [.text ")"] := by simp
  rw [← hexists]
  exact follows_finish _ _

theorem follows_aggregateArgument (function : AggregateFunction) {column : Value}
    (h : column.BringsOnly φ.Brought) :
    φ.Follows φ.sql (aggregateArgument t function column) (aggregateArgument t function column) := by
  have heverything : φ.Follows φ.sql (if function == .count then pure [.text "*"]
      else throw (.refused (.aggregateNeedsColumn function.name)) : Compile Sql)
      (if function == .count then pure [.text "*"]
      else throw (.refused (.aggregateNeedsColumn function.name))) := by
    split_ifs
    · exact .pure rfl
    · exact .throw (.error rfl)
  unfold aggregateArgument
  dsimp only
  split
  · exact follows_fragment h
  · exact heverything
  · split_ifs
    · exact .pure rfl
    · exact .throw (.error rfl)
    · exact follows_column _
  · exact follows_column _

theorem follows_aggregate (function table : Value) {column wheres : Value} (join : Value)
    (hcolumn : column.BringsOnly φ.Brought) (h : wheres.BringsOnly φ.Brought) :
    φ.Follows φ.compiled (aggregate t function table column wheres join)
      (aggregate t function table column wheres join) := by
  unfold aggregate
  split
  · exact .throw (.showing rfl)
  · rename_i f _
    refine (follows_aggregateArgument f hcolumn).bind fun argument => ?_
    dsimp only
    have hhead : φ.sql (.text ("SELECT " ++ f.name ++ "(") :: argument ++ [.text ")"]) =
        .text ("SELECT " ++ f.name ++ "(") :: φ.sql argument ++ [.text ")"] := by simp
    rw [← hhead]
    exact (follows_selectFrom _ table join h).bind fun sql => follows_finish sql _

theorem follows_rand (table : Value) {columns wheres : Value} (join : Value)
    (hcolumns : columns.BringsOnly φ.Brought) (h : wheres.BringsOnly φ.Brought) :
    φ.Follows φ.compiled (rand t table columns wheres join) (rand t table columns wheres join) := by
  refine (follows_lift_id (blameless_randomOrder t wheres)).bind_of fun ordered hordered => ?_
  obtain ⟨_, _, hyields⟩ := hordered
  exact follows_select table join hcolumns (h.randomOrder ((yields_lift _).mp hyields).1)

theorem follows_raw {statement : Value} (h : statement.BringsOnly φ.Brought) :
    φ.Follows φ.compiled (raw t statement) (raw t statement) := by
  cases statement with
  | raw sql parameters => exact (follows_fragment h).bind fun sql => follows_finish sql _
  | _ => exact .throw (.error rfl)

/-! Statements that write. -/

theorem follows_insertRows (v : Value) : φ.Follows id (insertRows v) (insertRows v) := by
  unfold insertRows
  split
  · exact .pure rfl
  · split_ifs
    · exact .throw (.error rfl)
    · split
      · exact .pure rfl
      · split
        · exact .pure rfl
        · exact .throw (.error rfl)

/-- The rows of an insertion bring what the value that holds them brings. -/
theorem bringsOnly_insertRows {P : String → Prop} {v : Value} {rows : List Value}
    {s u : Parameters} (hv : v.BringsOnly P) (h : (insertRows v).Yields s rows u) :
    ∀ row ∈ rows, row.BringsOnly P := by
  unfold insertRows at h
  split at h
  · rw [yields_pure] at h
    rw [h.1, List.forall_mem_singleton]
    exact hv
  · split_ifs at h
    · simp at h
    · split at h
      · rw [yields_pure] at h
        rw [h.1]
        simp [Value.BringsOnly, Value.rawNames]
      · split at h
        · rename_i found hfound
          rw [yields_pure] at h
          rw [h.1]
          cases v with
          | list items =>
              cases hfound
              exact Value.bringsOnly_list.mp hv
          | bytes octets =>
              cases hfound
              exact Value.bringsOnly_octets octets
          | _ => cases hfound
        · simp at h

theorem follows_addKeys (keys : InsertKeys) (entries : Dict) :
    φ.Follows id (addKeys keys entries) (addKeys keys entries) := by
  induction entries generalizing keys with
  | nil => exact .pure rfl
  | cons entry rest ih =>
      obtain ⟨key, v⟩ := entry
      rw [addKeys]
      split_ifs
      · exact ih keys
      · refine (follows_lift_id (Key.blameless_dataKey key)).bind_id fun parsed => ?_
        split_ifs
        · exact Follows.bind_id (.throw (.showing rfl)) fun _ => ih _
        · exact ih _

theorem follows_collectKeys (keys : InsertKeys) (rows : List Value) :
    φ.Follows id (collectKeys keys rows) (collectKeys keys rows) := by
  induction rows generalizing keys with
  | nil => exact .pure rfl
  | cons row rest ih =>
      cases row with
      | dict entries => exact (follows_addKeys keys entries).bind_id ih
      | _ => exact .throw (.showing rfl)

theorem follows_keyColumns (keys : InsertKeys) :
    φ.Follows (List.map φ.sql) (keyColumns t keys) (keyColumns t keys) := by
  induction keys with
  | nil => exact .pure rfl
  | cons key rest ih => exact (follows_column _).cons ih fun _ => rfl

/-- A value that is stored is bound as what it is stored as. -/
theorem follows_stored (json : Bool) (v : Value) :
    φ.Follows φ.sql (do bindValue (← Compile.lift (storedValue json v)))
      (do bindValue (← Compile.lift (storedValue json v))) :=
  (follows_lift_id (blameless_storedValue json v)).bind_id fun w => follows_bindValue w

theorem follows_rowValue {row : Dict} (h : (Value.dict row).BringsOnly φ.Brought) (key : Value)
    (parsed : DataKey) : φ.Follows φ.sql (rowValue t row key parsed) (rowValue t row key parsed) := by
  unfold rowValue
  split
  · exact follows_bindValue _
  · rename_i hget
    obtain ⟨k, hmem, _⟩ := Assoc.mem_of_get? hget
    exact follows_fragment (Value.bringsOnly_dict.mp h _ hmem)
  · exact follows_stored _ _

theorem follows_rowValues {row : Dict} (h : (Value.dict row).BringsOnly φ.Brought)
    (keys : InsertKeys) :
    φ.Follows (List.map φ.sql) (rowValues t row keys) (rowValues t row keys) := by
  induction keys with
  | nil => exact .pure rfl
  | cons key rest ih =>
      obtain ⟨key, parsed⟩ := key
      rw [rowValues_cons]
      exact (follows_rowValue h key parsed).cons ih fun _ => rfl

theorem follows_rowTuples (keys : InsertKeys) {rows : List Value}
    (h : ∀ row ∈ rows, row.BringsOnly φ.Brought) :
    φ.Follows (List.map φ.sql) (rowTuples t keys rows) (rowTuples t keys rows) := by
  induction rows with
  | nil => exact .pure rfl
  | cons row rest ih =>
      rw [List.forall_mem_cons] at h
      cases row with
      | dict row =>
          exact (follows_rowValues h.1 keys).cons (ih h.2) fun _ => by
            simp [Conditions.parenthesized]
      | _ => exact ih h.2

theorem follows_insert (table : Value) {rows : Value} (h : rows.BringsOnly φ.Brought) :
    φ.Follows φ.compiled (insert t table rows) (insert t table rows) := by
  refine (follows_insertRows rows).bind_of fun found hfound => ?_
  obtain ⟨_, _, hyields⟩ := hfound
  refine (follows_collectKeys [] found).bind_id fun keys => ?_
  have hwritten : φ.Follows φ.compiled
      (do
        let columns ← keyColumns t keys
        let tuples ← rowTuples t keys found
        let tableSql ← t.table table
        finish t
          (.text "INSERT INTO " :: tableSql ++ .text " (" :: Sql.join ", " columns ++
            .text ") VALUES " :: Sql.join ", " tuples)
          none)
      (do
        let columns ← keyColumns t keys
        let tuples ← rowTuples t keys found
        let tableSql ← t.table table
        finish t
          (.text "INSERT INTO " :: tableSql ++ .text " (" :: Sql.join ", " columns ++
            .text ") VALUES " :: Sql.join ", " tuples)
          none) := by
    refine (follows_keyColumns keys).bind fun columns => ?_
    refine (follows_rowTuples keys (bringsOnly_insertRows h hyields)).bind fun tuples => ?_
    refine (follows_table table).bind fun tableSql => ?_
    have hinsert : φ.sql (.text "INSERT INTO " :: tableSql ++ .text " (" :: Sql.join ", " columns ++
          .text ") VALUES " :: Sql.join ", " tuples) =
        .text "INSERT INTO " :: φ.sql tableSql ++ .text " (" :: Sql.join ", " (columns.map φ.sql) ++
          .text ") VALUES " :: Sql.join ", " (tuples.map φ.sql) := by simp
    rw [← hinsert]
    exact follows_finish _ _
  dsimp only [id_eq]
  split_ifs
  · exact Follows.bind_id (.throw (.error rfl)) fun _ => hwritten
  · exact hwritten

theorem follows_updateOf (table : Value) (sets : List Sql) {wheres : Value}
    (h : wheres.BringsOnly φ.Brought) :
    φ.Follows φ.compiled (updateOf t table sets wheres)
      (updateOf t table (sets.map φ.sql) wheres) := by
  refine (follows_table table).bind fun tableSql => ?_
  refine (Tail.follows_compile h).bind fun tail => ?_
  have hhead : φ.sql (append (.text "UPDATE " :: tableSql ++ .text " SET " :: Sql.join ", " sets)
        tail) =
      append (.text "UPDATE " :: φ.sql tableSql ++ .text " SET " :: Sql.join ", " (sets.map φ.sql))
        (φ.sql tail) := by
    rw [sql_append]
    simp
  rw [← hhead]
  exact follows_finish _ _

theorem follows_assigned (key : Value) (column : Sql) (parsed : DataKey) (v : Value) :
    φ.Follows φ.sql (assigned key column parsed v) (assigned key (φ.sql column) parsed v) := by
  unfold assigned
  split
  · dsimp only
    split_ifs
    · refine Follows.bind_id (.throw (.showing rfl)) fun _ => ?_
      exact (follows_bindValue v).map fun _ => by simp
    · exact (follows_bindValue v).map fun _ => by simp
  · refine (follows_lift_id (blameless_storedValue _ v)).bind_id fun w => ?_
    exact (follows_bindValue w).map fun _ => by simp

theorem follows_assignment (key : Value) {v : Value} (h : v.BringsOnly φ.Brought) :
    φ.Follows φ.sql (assignment t key v) (assignment t key v) := by
  cases hraw : v.isRaw with
  | false =>
      rw [assignment_eq hraw]
      refine (follows_lift_id (Key.blameless_dataKey key)).bind_id fun parsed => ?_
      exact (follows_column _).bind fun column => follows_assigned key column parsed v
  | true =>
      cases v with
      | raw sql parameters =>
          refine (follows_lift_id (Key.blameless_dataKey key)).bind_id fun parsed => ?_
          exact (follows_column _).bind fun column => (follows_fragment h).map fun _ => by simp
      | _ => cases hraw

theorem follows_assignments {entries : Dict} (h : ∀ entry ∈ entries, entry.2.BringsOnly φ.Brought) :
    φ.Follows (List.map φ.sql) (assignments t entries) (assignments t entries) := by
  induction entries with
  | nil => exact .pure rfl
  | cons entry rest ih =>
      rw [List.forall_mem_cons] at h
      exact (follows_assignment entry.1 h.1).cons (ih h.2) fun _ => rfl

theorem follows_update (table : Value) {data wheres : Value} (hdata : data.BringsOnly φ.Brought)
    (h : wheres.BringsOnly φ.Brought) :
    φ.Follows φ.compiled (update t table data wheres) (update t table data wheres) := by
  unfold update
  split
  · refine (follows_assignments (Value.bringsOnly_dict.mp hdata)).bind fun sets => ?_
    exact follows_updateOf table sets h
  · exact .throw (.error rfl)

theorem follows_delete (table : Value) {wheres : Value} (h : wheres.BringsOnly φ.Brought) :
    φ.Follows φ.compiled (delete t table wheres) (delete t table wheres) := by
  refine (follows_table table).bind fun tableSql => ?_
  refine (Tail.follows_compile h).bind fun tail => ?_
  have hhead : φ.sql (append (.text "DELETE FROM " :: tableSql) tail) =
      append (.text "DELETE FROM " :: φ.sql tableSql) (φ.sql tail) := sql_append _ _
  rw [← hhead]
  exact follows_finish _ _

theorem follows_nestedReplace (expression : Sql) (pairs : Dict) :
    φ.Follows φ.sql (nestedReplace expression pairs) (nestedReplace (φ.sql expression) pairs) := by
  induction pairs generalizing expression with
  | nil => exact .pure rfl
  | cons pair rest ih =>
      refine (follows_bindValue pair.1).bind fun oldSql => ?_
      refine (follows_bindValue pair.2).bind fun newSql => ?_
      have hreplace : φ.sql (.text "REPLACE(" :: expression ++ .text ", " :: oldSql ++
            .text ", " :: newSql ++ [.text ")"]) =
          .text "REPLACE(" :: φ.sql expression ++ .text ", " :: φ.sql oldSql ++
            .text ", " :: φ.sql newSql ++ [.text ")"] := by simp
      rw [← hreplace]
      exact ih _

theorem follows_replacements (entries : Dict) :
    φ.Follows (List.map φ.sql) (replacements t entries) (replacements t entries) := by
  induction entries with
  | nil => exact .pure rfl
  | cons entry rest ih =>
      obtain ⟨column, v⟩ := entry
      cases v with
      | dict pairs =>
          refine (follows_column column).bind fun columnSql => ?_
          refine (follows_nestedReplace columnSql pairs).bind fun expression => ?_
          refine ih.map fun more => ?_
          split_ifs
          · rfl
          · simp
      | _ => exact .throw (.showing rfl)

theorem follows_replace (table columns : Value) {wheres : Value}
    (h : wheres.BringsOnly φ.Brought) :
    φ.Follows φ.compiled (replace t table columns wheres) (replace t table columns wheres) := by
  cases columns with
  | dict entries =>
      refine (follows_replacements entries).bind fun sets => ?_
      rw [List.isEmpty_map]
      split_ifs
      · exact Follows.bind_id (.throw (.error rfl)) fun _ => follows_updateOf table sets h
      · exact follows_updateOf table sets h
  | _ => exact .throw (.error rfl)

end Statement

end QueryLoom
