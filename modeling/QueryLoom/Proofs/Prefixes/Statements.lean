import QueryLoom.Proofs.Independence.Statements
import QueryLoom.Proofs.Prefixes.Projections
import QueryLoom.Proofs.Prefixes.Tails

/-!
Statements that a prefix was written into. Each repeats the statement that is compiled with the prefix;
only the columns that shape the rows of a query name their tables with it.
-/

namespace QueryLoom

open Compile Prefixed

/-- A compiled statement whose columns name their tables with the prefix. The SQL and the parameters
are the same. -/
def Compiled.marked (p : List Char) (c : Compiled) : Compiled :=
  { c with columns := c.columns.map (ColumnTree.marked p) }

/-- A data key with the prefix before the table of its column. -/
def DataKey.marked (p : List Char) (parsed : DataKey) : DataKey :=
  { parsed with column := String.ofList (path p parsed.column.toList) }

namespace Statement

variable {t : Target} {call : List Char → List Char} {p : List Char}

theorem repeats_finish (sql : Sql) (columns : Option ColumnTree) :
    RepeatsAs (Compiled.marked p) (finish t.plain sql (columns.map (ColumnTree.marked p)))
      (finish t sql columns) := by
  intro s c u h
  simp only [finish, yields_bind, yields_get, yields_pure] at h ⊢
  obtain ⟨_, _, ⟨rfl, rfl⟩, rfl, rfl⟩ := h
  exact ⟨_, _, ⟨rfl, rfl⟩, rfl, rfl⟩

/-! Statements that read. -/

theorem truthy_joins (v : Value) : (Prefixed.joins p v).truthy = v.truthy := by
  cases v with
  | dict entries => rw [Prefixed.joins, Value.truthy, Value.truthy, List.isEmpty_map]
  | _ => rfl

theorem tableRefOfValue_table (hp : IsNamePart p) {v : Value} {ref : TableRef}
    (h : Key.tableRefOfValue v = .ok ref) :
    Key.tableRefOfValue (onText (table p) v) = .ok (ref.marked p) := by
  cases v with
  | str text =>
      simp only [onText, Key.tableRefOfValue] at h ⊢
      exact tableRef_table hp h
  | _ => cases h

theorem repeats_joinsAfter (ht : IsNamePart t.mark) (ref : TableRef) (sql : Sql) (join : Value) :
    Repeats (joinsAfter t.plain (ref.marked t.mark) sql (Prefixed.joins t.mark join))
      (joinsAfter t ref sql join) := by
  unfold joinsAfter
  rw [truthy_joins]
  split_ifs
  · exact (Joins.repeats_compile ht ref join).map _
  · exact .refl _

theorem repeats_aggregateArgument (ht : IsNamePart t.mark) (function : AggregateFunction)
    {column : Value} (hcolumn : column.rawFree = true) :
    Repeats (aggregateArgument t.plain function (Prefixed.column t.mark column))
      (aggregateArgument t function column) := by
  cases column with
  | raw sql parameters => cases hcolumn
  | null => exact .refl _
  | str name =>
      have hargument := Target.repeats_column ht (.str name)
      simp only [aggregateArgument, Prefixed.column, onText, path_beq_star ht]
      split_ifs
      · exact .refl _
      · exact .refl _
      · exact hargument
  | _ => exact Target.repeats_column ht _

theorem withoutLimit_tail (hcall : ∀ cs, cs ⊆ call cs) (v : Value) :
    withoutLimit (tail p call v) = tail p call (withoutLimit v) := by
  cases v with
  | dict entries =>
      rw [tail, withoutLimit, withoutLimit, tail, Tail.erase_tail hcall entries (by decide)]
  | _ => rfl

theorem randomOrder_tail (hcall : ∀ cs, cs ⊆ call cs) {v ordered : Value}
    (h : randomOrder t v = .ok ordered) :
    randomOrder t.plain (tail p call v) = .ok (tail p call ordered) := by
  have hclause : ∀ sql, clause p call (.str Tail.orderKey) (.raw sql []) = .raw sql [] := by
    intro sql
    rfl
  cases v with
  | dict entries =>
      have hinsert : Assoc.insert (Value.str Tail.orderKey)
          (clause p call (.str Tail.orderKey) (.raw t.dialect.randomFunction []))
          (entries.map (tailEntry p call)) = _ :=
        Tail.insert_tail hcall entries (by decide) _
      rw [hclause] at hinsert
      cases h
      exact congrArg (fun found => Except.ok (Value.dict found)) hinsert
  | raw sql parameters => cases h
  | _ =>
      unfold randomOrder at h ⊢
      dsimp only [tail] at h ⊢
      split_ifs at h ⊢
      cases h
      rfl

section Tails

variable (ht : IsNamePart t.mark) (hcall : ∀ cs, cs ⊆ call cs) {wheres : Value}
  (hwheres : Tail.Fits (Tail.keptCalls call t.dialect) t wheres)

include ht hcall hwheres

theorem repeats_selectFrom (head : Sql) (table join : Value) :
    Repeats
      (selectFrom t.plain head (onText (Prefixed.table t.mark) table) (tail t.mark call wheres)
        (Prefixed.joins t.mark join))
      (selectFrom t head table wheres join) := by
  rw [selectFrom_eq, selectFrom_eq]
  refine RepeatsAs.then (.lift fun h => tableRefOfValue_table ht h) fun ref => ?_
  refine (Target.repeats_tableRef ht ref).bind fun tableSql => ?_
  refine (repeats_joinsAfter ht ref _ join).bind fun sql => ?_
  exact (Tail.repeats_compile ht hcall hwheres).map _

theorem repeats_select (table join : Value) {columns : Value} (hcolumns : columns.rawFree = true) :
    RepeatsAs (Compiled.marked t.mark)
      (select t.plain (onText (Prefixed.table t.mark) table) (specification t.mark columns)
        (tail t.mark call wheres) (Prefixed.joins t.mark join))
      (select t table columns wheres join) := by
  refine RepeatsAs.bind_of_yields
    (.lift fun h => (ColumnSpec.parse_specification ht hcolumns h).1) fun tree htree => ?_
  obtain ⟨_, _, htree⟩ := htree
  obtain ⟨hparse, _⟩ := (yields_lift _).mp htree
  have hrefers := (ColumnSpec.parse_specification ht hcolumns hparse).2
  rw [truthy_joins]
  refine (Projection.repeats_compile ht join.truthy hrefers).bind_as fun projection => ?_
  refine (repeats_selectFrom ht hcall hwheres _ table join).bind_as fun sql => ?_
  exact repeats_finish sql (some tree)

theorem repeats_get (table join : Value) {columns : Value} (hcolumns : columns.rawFree = true)
    (hfree : wheres.rawFree = true) :
    RepeatsAs (Compiled.marked t.mark)
      (get t.plain (onText (Prefixed.table t.mark) table) (specification t.mark columns)
        (tail t.mark call wheres) (Prefixed.joins t.mark join))
      (get t table columns wheres join) := by
  unfold get
  rw [withoutLimit_tail hcall]
  refine (repeats_select ht hcall (hwheres.withoutLimit hfree) table join hcolumns).bind
    fun compiled => ?_
  exact .pure (Compiled.marked t.mark) { compiled with limitedToOne := true }

theorem repeats_has (table join : Value) :
    RepeatsAs (Compiled.marked t.mark)
      (has t.plain (onText (Prefixed.table t.mark) table) (tail t.mark call wheres)
        (Prefixed.joins t.mark join))
      (has t table wheres join) :=
  (repeats_selectFrom ht hcall hwheres _ table join).bind_as fun _ => repeats_finish _ none

theorem repeats_aggregate (function table join : Value) {column : Value}
    (hcolumn : column.rawFree = true) :
    RepeatsAs (Compiled.marked t.mark)
      (aggregate t.plain function (onText (Prefixed.table t.mark) table)
        (Prefixed.column t.mark column) (tail t.mark call wheres) (Prefixed.joins t.mark join))
      (aggregate t function table column wheres join) := by
  unfold aggregate
  split
  · exact .throw _ _ _
  · refine (repeats_aggregateArgument ht _ hcolumn).bind_as fun argument => ?_
    refine (repeats_selectFrom ht hcall hwheres _ table join).bind_as fun sql => ?_
    exact repeats_finish sql none

theorem repeats_rand (table join : Value) {columns : Value} (hcolumns : columns.rawFree = true)
    (hfree : wheres.rawFree = true) :
    RepeatsAs (Compiled.marked t.mark)
      (rand t.plain (onText (Prefixed.table t.mark) table) (specification t.mark columns)
        (tail t.mark call wheres) (Prefixed.joins t.mark join))
      (rand t table columns wheres join) := by
  refine RepeatsAs.bind_of_yields (.lift fun h => randomOrder_tail hcall h)
    fun ordered hordered => ?_
  obtain ⟨_, _, hordered⟩ := hordered
  obtain ⟨hordered, _⟩ := (yields_lift _).mp hordered
  exact repeats_select ht hcall (hwheres.randomOrder hfree hordered) table join hcolumns

end Tails

/-! Statements that write. -/

/-- Entries of written data with the prefix before the tables in their keys. -/
def markedData (p : List Char) (row : Dict) : Dict := row.map fun (key, v) => (column p key, v)

/-- The keys of written rows with the prefix before their tables. -/
def markedKeys (p : List Char) (keys : InsertKeys) : InsertKeys :=
  keys.map fun (key, parsed) => (column p key, parsed.marked p)

/-- What is no dictionary is a row as it is, and is refused later. -/
theorem repeats_sameRows {items : List Value} (h : ∀ v ∈ items, data p v = v) :
    RepeatsAs (List.map (data p)) (pure items) (pure items) := by
  have hsame : items.map (data p) = items := by rw [List.map_congr_left h, List.map_id']
  conv =>
    arg 2
    rw [← hsame]
  exact .pure _ items

theorem repeats_insertRows (v : Value) :
    RepeatsAs (List.map (data p)) (insertRows (rows p v)) (insertRows v) := by
  cases v with
  | dict entries => exact .pure (List.map (data p)) [.dict entries]
  | list items =>
      cases items with
      | nil => exact .throw _ _ _
      | cons row rest => exact .pure (List.map (data p)) (row :: rest)
  | str s =>
      unfold insertRows
      dsimp only [rows, data]
      split_ifs
      · exact .throw _ _ _
      · refine repeats_sameRows fun v hv => ?_
        obtain ⟨c, -, rfl⟩ := List.mem_map.mp hv
        rfl
  | bytes octets =>
      unfold insertRows
      dsimp only [rows, data]
      split_ifs
      · exact .throw _ _ _
      · refine repeats_sameRows fun v hv => ?_
        obtain ⟨o, -, rfl⟩ := List.mem_map.mp hv
        rfl
  | _ =>
      unfold insertRows
      dsimp only [rows, data]
      split_ifs
      · exact .throw _ _ _
      · exact .throw _ _ _

theorem has_markedKeys (hp : IsNamePart p) (key : Value) (keys : InsertKeys) :
    Assoc.has (column p key) (markedKeys p keys) = Assoc.has key keys := by
  unfold Assoc.has markedKeys
  rw [List.any_map]
  congr 1
  funext entry
  exact column_beq_column hp entry.1 key

theorem repeats_addKeys (hp : IsNamePart p) (entries : Dict) (keys : InsertKeys) :
    RepeatsAs (markedKeys p) (addKeys (markedKeys p keys) (markedData p entries))
      (addKeys keys entries) := by
  induction entries generalizing keys with
  | nil => exact .pure _ _
  | cons entry rest ih =>
      obtain ⟨key, v⟩ := entry
      rw [markedData, List.map_cons, addKeys, addKeys, has_markedKeys hp]
      split_ifs
      · exact ih keys
      · refine RepeatsAs.bind (f := DataKey.marked p) (.lift fun h => dataKey_column hp h)
          fun parsed => ?_
        have hoperator : (parsed.marked p).operator? = parsed.operator? := rfl
        rw [hoperator]
        split_ifs
        · exact .throw _ _ _
        · have hrest := ih (keys ++ [(key, parsed)])
          rw [markedKeys, List.map_append] at hrest
          exact hrest

theorem repeats_collectKeys (hp : IsNamePart p) (items : List Value) (keys : InsertKeys) :
    RepeatsAs (markedKeys p) (collectKeys (markedKeys p keys) (items.map (data p)))
      (collectKeys keys items) := by
  induction items generalizing keys with
  | nil => exact .pure _ _
  | cons v rest ih =>
      cases v with
      | dict entries => exact (repeats_addKeys hp entries keys).bind ih
      | _ => exact .throw _ _ _

theorem repeats_keyColumns (ht : IsNamePart t.mark) (keys : InsertKeys) :
    Repeats (keyColumns t.plain (markedKeys t.mark keys)) (keyColumns t keys) := by
  induction keys with
  | nil => exact .refl _
  | cons key rest ih => exact (Target.repeats_column ht (.str key.2.column)).cons ih id

theorem get?_markedData (hp : IsNamePart p) (key : Value) (row : Dict) :
    Assoc.get? (column p key) (markedData p row) = Assoc.get? key row := by
  induction row with
  | nil => rfl
  | cons entry rest ih =>
      rw [markedData] at ih ⊢
      rw [List.map_cons, Assoc.get?, Assoc.get?, column_beq_column hp, ih]

/-- A value without raw values is stored as it is, whatever the prefix. -/
theorem rowValue_markedData (ht : IsNamePart t.mark) {row : Dict}
    (hrow : (Value.dict row).rawFree = true) (key : Value) (parsed : DataKey) :
    rowValue t.plain (markedData t.mark row) (column t.mark key) (parsed.marked t.mark) =
      rowValue t row key parsed := by
  have hjson : (parsed.marked t.mark).isJson = parsed.isJson := rfl
  unfold rowValue
  rw [get?_markedData ht, hjson]
  cases hget : Assoc.get? key row with
  | none => rfl
  | some v =>
      obtain ⟨_, hmem, _⟩ := Assoc.mem_of_get? hget
      have hv := Value.rawFree_dict.mp hrow _ hmem
      cases v with
      | raw sql parameters => cases hv
      | _ => rfl

theorem repeats_rowValues (ht : IsNamePart t.mark) {row : Dict}
    (hrow : (Value.dict row).rawFree = true) (keys : InsertKeys) :
    Repeats (rowValues t.plain (markedData t.mark row) (markedKeys t.mark keys))
      (rowValues t row keys) := by
  induction keys with
  | nil => exact .refl _
  | cons key rest ih =>
      obtain ⟨key, parsed⟩ := key
      rw [markedKeys, List.map_cons, rowValues_cons, rowValues_cons,
        rowValue_markedData ht hrow key parsed]
      exact (Repeats.refl _).cons ih id

theorem repeats_rowTuples (ht : IsNamePart t.mark) (keys : InsertKeys) {items : List Value}
    (hitems : ∀ v ∈ items, v.rawFree = true) :
    Repeats (rowTuples t.plain (markedKeys t.mark keys) (items.map (data t.mark)))
      (rowTuples t keys items) := by
  induction items with
  | nil => exact .refl _
  | cons v rest ih =>
      obtain ⟨hv, hrest⟩ := List.forall_mem_cons.mp hitems
      cases v with
      | dict row => exact (repeats_rowValues ht hv keys).cons (ih hrest) _
      | _ => exact ih hrest

theorem repeats_insert (ht : IsNamePart t.mark) (table : Value) {items : Value}
    (hitems : items.rawFree = true) :
    RepeatsAs (Compiled.marked t.mark)
      (insert t.plain (onText (Prefixed.table t.mark) table) (rows t.mark items))
      (insert t table items) := by
  refine (repeats_insertRows items).bind_of_yields fun found hfound => ?_
  obtain ⟨_, _, hfound⟩ := hfound
  refine (repeats_collectKeys ht found []).bind fun keys => ?_
  have hempty : (markedKeys t.mark keys).isEmpty = keys.isEmpty := List.isEmpty_map
  rw [hempty]
  split_ifs
  · exact .throw _ _ _
  · refine (repeats_keyColumns ht keys).bind_as fun columns => ?_
    refine (repeats_rowTuples ht keys (rawFree_insertRows hitems hfound).2).bind_as fun tuples => ?_
    refine (Target.repeats_written_table ht table).bind_as fun tableSql => ?_
    exact repeats_finish _ none

/-- The key of an assignment matters for faults only. -/
theorem repeats_assigned (key other : Value) (columnSql : Sql) (parsed : DataKey) (v : Value) :
    Repeats (assigned other columnSql (parsed.marked p) v) (assigned key columnSql parsed v) := by
  have hoperator : (parsed.marked p).operator? = parsed.operator? := rfl
  have hjson : (parsed.marked p).isJson = parsed.isJson := rfl
  unfold assigned
  rw [hoperator, hjson]
  split
  · split_ifs
    · exact .throw _ _
    · exact .refl _
  · exact .refl _

section Updates

variable (ht : IsNamePart t.mark)

include ht

theorem repeats_assignment (key : Value) {v : Value} (hv : v.rawFree = true) :
    Repeats (assignment t.plain (column t.mark key) v) (assignment t key v) := by
  have hraw : v.isRaw = false := by
    cases v with
    | raw sql parameters => cases hv
    | _ => rfl
  rw [assignment_eq hraw, assignment_eq hraw]
  refine RepeatsAs.then (f := DataKey.marked t.mark) (.lift fun h => dataKey_column ht h)
    fun parsed => ?_
  refine (Target.repeats_column ht (.str parsed.column)).bind fun columnSql => ?_
  exact repeats_assigned key _ columnSql parsed v

theorem repeats_assignments {entries : Dict} (hentries : (Value.dict entries).rawFree = true) :
    Repeats (assignments t.plain (markedData t.mark entries)) (assignments t entries) := by
  rw [Value.rawFree_dict] at hentries
  induction entries with
  | nil => exact .refl _
  | cons entry rest ih =>
      obtain ⟨hv, hrest⟩ := List.forall_mem_cons.mp hentries
      exact (repeats_assignment ht entry.1 hv).cons (ih hrest) id

theorem repeats_replacements (entries : Dict) :
    Repeats (replacements t.plain (markedData t.mark entries)) (replacements t entries) := by
  induction entries with
  | nil => exact .refl _
  | cons entry rest ih =>
      obtain ⟨key, v⟩ := entry
      cases v with
      | dict pairs =>
          refine (Target.repeats_column ht key).bind fun columnSql => ?_
          refine (Repeats.refl _).bind fun expression => ?_
          exact ih.map _
      | _ => exact .throw _ _

variable (hcall : ∀ cs, cs ⊆ call cs) {wheres : Value}
  (hwheres : Tail.Fits (Tail.keptCalls call t.dialect) t wheres)

include hcall hwheres

theorem repeats_updateOf (table : Value) (sets : List Sql) :
    RepeatsAs (Compiled.marked t.mark)
      (updateOf t.plain (onText (Prefixed.table t.mark) table) sets (tail t.mark call wheres))
      (updateOf t table sets wheres) := by
  refine (Target.repeats_written_table ht table).bind_as fun tableSql => ?_
  exact (Tail.repeats_compile ht hcall hwheres).bind_as fun _ => repeats_finish _ none

theorem repeats_update (table : Value) {items : Value} (hitems : items.rawFree = true) :
    RepeatsAs (Compiled.marked t.mark)
      (update t.plain (onText (Prefixed.table t.mark) table) (data t.mark items)
        (tail t.mark call wheres))
      (update t table items wheres) := by
  cases items with
  | dict entries =>
      cases entries with
      | nil => exact .throw _ _ _
      | cons entry rest =>
          exact (repeats_assignments ht hitems).bind_as fun sets =>
            repeats_updateOf ht hcall hwheres table sets
  | _ => exact .throw _ _ _

theorem repeats_delete (table : Value) :
    RepeatsAs (Compiled.marked t.mark)
      (delete t.plain (onText (Prefixed.table t.mark) table) (tail t.mark call wheres))
      (delete t table wheres) := by
  refine (Target.repeats_written_table ht table).bind_as fun tableSql => ?_
  exact (Tail.repeats_compile ht hcall hwheres).bind_as fun _ => repeats_finish _ none

theorem repeats_replace (table columns : Value) :
    RepeatsAs (Compiled.marked t.mark)
      (replace t.plain (onText (Prefixed.table t.mark) table) (data t.mark columns)
        (tail t.mark call wheres))
      (replace t table columns wheres) := by
  cases columns with
  | dict entries =>
      refine (repeats_replacements ht entries).bind_as fun sets => ?_
      split_ifs
      · exact .throw _ _ _
      · exact repeats_updateOf ht hcall hwheres table sets
  | _ => exact .throw _ _ _

end Updates

end Statement

end QueryLoom
