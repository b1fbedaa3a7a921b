import QueryLoom.Proofs.Bindings.Statements
import QueryLoom.Proofs.Faults.Clauses
import QueryLoom.Proofs.Statement.DataKeys

/-!
By which faults statements fail, piece by piece. A value that is stored as a JSON text may be one that
JSON has no form for, and a value whose text is wanted may have none; the faults of these are the only
ones of a statement that are neither of compilation nor of the supply of bindings.
-/

namespace QueryLoom

open Compile Compile.FailsBy

variable {t : Target} {Other : Fault → Prop}

namespace Statement

open Conditions (makes_column)

theorem fails_finish (sql : Sql) (columns : Option ColumnTree) :
    FailsBy Other (finish t sql columns) [] := by
  intro s fault u h
  cases h

variable {table columns wheres join : Value}

theorem fails_selectFrom (head : Sql) (htable : Covers Other table) (hwheres : Covers Other wheres)
    (hjoin : Covers Other join) :
    FailsBy Other (selectFrom t head table wheres join) (Tail.supplies wheres) := by
  have hjoins : ∀ ref sql, FailsBy Other (joinsAfter t ref sql join) [] := by
    intro ref sql
    unfold joinsAfter
    split_ifs
    · exact (Joins.fails_compile _ hjoin).map _
    · exact .pure _
  rw [selectFrom_eq]
  refine FailsBy.after (.lift (Key.typed_tableRefOfValue table) htable.badValue)
    (.lift (Key.blameless_tableRefOfValue table)) fun ref => ?_
  refine (FailsBy.tableRef ref).after (Makes.tableRef ref) fun tableSql => ?_
  exact (hjoins _ _).after (makes_joinsAfter _ _ _) fun sql => (Tail.fails_compile hwheres).map _

theorem fails_select (htable : Covers Other table) (hcolumns : Covers Other columns)
    (hwheres : Covers Other wheres) (hjoin : Covers Other join) :
    FailsBy Other (select t table columns wheres join)
      (Projection.supplies columns ++ Tail.supplies wheres) := by
  refine FailsBy.after_of (.lift (ColumnSpec.typed_parse columns) hcolumns.badValue)
    (.lift (ColumnSpec.blameless_parse columns)) fun tree htree => ?_
  obtain ⟨_, _, hyields⟩ := htree
  have hparse := ((yields_lift _).mp hyields).1
  have hsupplies : Projection.supplies columns = Projection.treeSupplies tree := by
    simp only [Projection.supplies, hparse]
  have hread := ColumnSpec.areRead_parse (.covers Other) hcolumns hparse
  rw [hsupplies]
  refine (Projection.fails_compile _ hread).bind (Projection.makes_compile _ _) fun projection => ?_
  exact (fails_selectFrom _ htable hwheres hjoin).before (makes_selectFrom _ _ _ _) fun sql => fails_finish _ _

theorem fails_aggregateArgument (function : AggregateFunction) {column : Value}
    (hcolumn : Covers Other column) :
    FailsBy Other (aggregateArgument t function column) (Supply.ofRaw column) := by
  have heverything : FailsBy Other (if function == .count then pure [.text "*"]
      else throw (.refused (.aggregateNeedsColumn function.name)) : Compile Sql) [] := by
    split_ifs
    · exact .pure _
    · exact .throw rfl
  cases column with
  | raw raw parameters => exact .splice hcolumn
  | null => exact heverything
  | str name =>
      unfold aggregateArgument
      dsimp only
      by_cases hname : (name == "*") = true
      · rw [if_pos hname]
        exact heverything
      · rw [if_neg hname]
        exact .column hcolumn
  | _ => exact .column hcolumn

theorem fails_aggregate {function column : Value} (hfunction : Covers Other function)
    (htable : Covers Other table) (hcolumn : Covers Other column) (hwheres : Covers Other wheres)
    (hjoin : Covers Other join) :
    FailsBy Other (aggregate t function table column wheres join)
      (Supply.ofRaw column ++ Tail.supplies wheres) := by
  unfold aggregate
  split
  · exact .throw_showing hfunction rfl
  · refine (fails_aggregateArgument _ hcolumn).bind (makes_aggregateArgument _ _) fun argument => ?_
    exact (fails_selectFrom _ htable hwheres hjoin).before (makes_selectFrom _ _ _ _) fun sql => fails_finish _ _

theorem covers_withoutLimit (h : Covers Other wheres) : Covers Other (withoutLimit wheres) := by
  cases wheres with
  | dict entries => exact h.subset (List.filter_subset_self _)
  | _ => exact h

/-- An order at random has a text. -/
theorem covers_randomOrder {ordered : Value} (h : Covers Other wheres)
    (hordered : randomOrder t wheres = .ok ordered) : Covers Other ordered := by
  have hrandom : (Value.raw t.dialect.randomFunction []).hasText = true := rfl
  cases wheres with
  | dict entries =>
      cases hordered
      refine h.mono fun htext => Value.hasText_dict.mpr fun entry hentry => ?_
      have hkey : (Value.str Tail.orderKey == Value.str Tail.orderKey) = true := by
        rw [Value.str_beq_str, beq_self_eq_true]
      rcases Assoc.mem_of_mem_insert hkey hentry with ⟨k, hk, rfl⟩ | hmem
      · rw [Value.eq_str_of_beq hk]
        exact ⟨rfl, hrandom⟩
      · exact Value.hasText_dict.mp htext entry hmem
  | raw raw parameters => cases hordered
  | _ =>
      unfold randomOrder at hordered
      dsimp only at hordered
      split_ifs at hordered
      cases hordered
      exact .inl rfl

/-- Only a where-specification that is null, a dictionary or raw can be put into random order. -/
theorem fails_rand (htable : Covers Other table) (hcolumns : Covers Other columns)
    (hwheres : Covers Other wheres) (hjoin : Covers Other join)
    (hordered : ∀ fault, randomOrder t wheres = .error fault → fault.isCompilation = true) :
    FailsBy Other (rand t table columns wheres join)
      (Projection.supplies columns ++ randomSupplies t wheres) := by
  refine FailsBy.after_of (.lift_of fun fault hfault => .inl (hordered fault hfault))
    (.lift (blameless_randomOrder t wheres)) fun ordered hyields => ?_
  obtain ⟨_, _, hyields⟩ := hyields
  have horder := ((yields_lift _).mp hyields).1
  have hsupplies : randomSupplies t wheres = Tail.supplies ordered := by
    simp only [randomSupplies, horder]
  rw [hsupplies]
  exact fails_select htable hcolumns (covers_randomOrder hwheres horder) hjoin

/-! Stored values. -/

/-- Whether a value that is written under a key is stored as a JSON text. -/
def isStoredAsJson (key : Value) : Value → Bool
  | .raw _ _ => false
  | .dict _ | .list _ => true
  | _ => isJsonKey key

/-- Rows hold a value that is stored as a JSON text but cannot be written as one. -/
def Unwritable (rows : List Value) (fault : Fault) : Prop :=
  ∃ row key v, .dict row ∈ rows ∧ (key, v) ∈ row ∧ isStoredAsJson key v = true ∧
    Json.write .line v = .error fault

theorem unwritable_of_storedValue {rows : List Value} {row : Dict} {key v : Value} {fault : Fault}
    (hrow : .dict row ∈ rows) (hv : (key, v) ∈ row) (hraw : v.isRaw = false)
    (h : storedValue (isJsonKey key) v = .error fault) : Unwritable rows fault := by
  have hwrite : ∀ {w : Value}, (Json.write .line w).map Value.str = .error fault →
      Json.write .line w = .error fault := by
    intro w hw
    cases hresult : Json.write .line w with
    | error first =>
        rw [hresult] at hw
        cases hw
        rfl
    | ok text =>
        rw [hresult] at hw
        cases hw
  refine ⟨row, key, v, hrow, hv, ?_⟩
  unfold storedValue at h
  unfold isStoredAsJson
  cases v with
  | raw raw parameters => cases hraw
  | dict entries => exact ⟨rfl, hwrite h⟩
  | list items => exact ⟨rfl, hwrite h⟩
  | _ =>
      dsimp only at h
      split_ifs at h with hjson
      exact ⟨hjson, hwrite h⟩

variable {rows : List Value}

/-- A value of a row that is stored, unless it cannot be written. -/
theorem fails_stored {row : Dict} {key v : Value} (hunwritable : ∀ fault, Unwritable rows fault → Other fault)
    (hrow : .dict row ∈ rows) (hv : (key, v) ∈ row) (hraw : v.isRaw = false) :
    FailsBy Other (do bindValue (← Compile.lift (storedValue (isJsonKey key) v)))
      (storedSupplies (isJsonKey key) v) := by
  refine FailsBy.after_of
    (.lift_of fun fault hfault =>
      .inr (hunwritable fault (unwritable_of_storedValue hrow hv hraw hfault)))
    (.lift (blameless_storedValue (isJsonKey key) v)) fun stored hstored => ?_
  obtain ⟨_, _, hyields⟩ := hstored
  have hsupplies : storedSupplies (isJsonKey key) v = [.value stored] := by
    simp only [storedSupplies, ((yields_lift _).mp hyields).1]
  rw [hsupplies]
  exact .bindValue stored

theorem isJsonKey_of_dataKey {key : Value} {parsed : DataKey} (h : Key.dataKey key = .ok parsed) :
    isJsonKey key = parsed.isJson := by
  simp only [isJsonKey, h]

/-! Insertions. -/

theorem fails_insertRows {v : Value} (hv : v.isDict = true ∨ ∃ items, v = .list items) :
    FailsBy Other (insertRows v) [] := by
  rcases hv with hdict | ⟨items, rfl⟩
  · cases v with
    | dict entries => exact .pure _
    | _ => cases hdict
  · cases items with
    | nil => exact .throw rfl
    | cons row rest => exact .pure _

theorem fails_addKeys (keys : InsertKeys) {entries : Dict} (h : Covers Other (.dict entries)) :
    FailsBy Other (addKeys keys entries) [] := by
  induction entries generalizing keys with
  | nil => exact .pure _
  | cons entry rest ih =>
      obtain ⟨key, v⟩ := entry
      obtain ⟨hkey, -, hrest⟩ := h.entry
      rw [addKeys]
      split_ifs
      · exact ih keys hrest
      · refine FailsBy.after (.lift (Key.typed_dataKey key) hkey.badValue)
          (.lift (Key.blameless_dataKey key)) fun parsed => ?_
        split_ifs
        · exact .throw_showing hkey rfl
        · exact ih _ hrest

theorem fails_collectKeys (keys : InsertKeys) {rows : List Value} (h : Covers Other (.list rows)) :
    FailsBy Other (collectKeys keys rows) [] := by
  induction rows generalizing keys with
  | nil => exact .pure _
  | cons row rest ih =>
      obtain ⟨hrow, hrest⟩ := h.cons
      cases row with
      | dict entries =>
          exact (fails_addKeys keys hrow).after (makes_addKeys keys entries) fun keys => ih keys hrest
      | _ => exact .throw_showing hrow rfl

theorem fails_keyColumns (keys : InsertKeys) : FailsBy Other (keyColumns t keys) [] := by
  induction keys with
  | nil => exact .pure _
  | cons key rest ih => exact (FailsBy.column (.str _)).after (makes_column _ _) fun first => ih.map _

theorem fails_rowValue {key : Value} {parsed : DataKey} {row : Dict}
    (hunwritable : ∀ fault, Unwritable rows fault → Other fault) (hrow : .dict row ∈ rows)
    (htext : Covers Other (.dict row)) (hparsed : Key.dataKey key = .ok parsed) :
    FailsBy Other (rowValue t row key parsed) (cellSupplies row key) := by
  have hjson := isJsonKey_of_dataKey hparsed
  unfold rowValue cellSupplies
  cases hfound : Assoc.get? key row with
  | none => exact .bindValue _
  | some v =>
      have hmem : (key, v) ∈ row := by
        obtain ⟨k, hk, hkey⟩ := Assoc.mem_of_get? hfound
        obtain ⟨name, rfl⟩ := Key.exists_str_of_dataKey hparsed
        rwa [Value.eq_str_of_beq hkey] at hk
      cases hraw : v.isRaw with
      | true =>
          cases v with
          | raw raw parameters => exact .splice ((Value.Inherited.covers Other).entries htext _ hmem)
          | _ => cases hraw
      | false =>
          have hstored := fails_stored hunwritable hrow hmem hraw
          rw [hjson] at hstored ⊢
          cases v with
          | raw raw parameters => cases hraw
          | _ => exact hstored

theorem fails_rowValues {keys : InsertKeys} {row : Dict}
    (hunwritable : ∀ fault, Unwritable rows fault → Other fault) (hrow : .dict row ∈ rows)
    (htext : Covers Other (.dict row)) (hkeys : Parsed keys) :
    FailsBy Other (rowValues t row keys) (rowSupplies (keys.map Prod.fst) (.dict row)) := by
  induction keys with
  | nil => exact .pure _
  | cons entry rest ih =>
      obtain ⟨key, parsed⟩ := entry
      obtain ⟨hparsed, hrest⟩ := List.forall_mem_cons.mp hkeys
      rw [rowValues_cons]
      exact (fails_rowValue hunwritable hrow htext hparsed).bind (makes_rowValue hparsed row) fun first =>
        (ih hrest).map _

theorem fails_rowTuples {keys : InsertKeys} {some : List Value}
    (hunwritable : ∀ fault, Unwritable rows fault → Other fault) (hrows : ∀ row ∈ some, row ∈ rows)
    (htexts : Covers Other (.list some)) (hkeys : Parsed keys) :
    FailsBy Other (rowTuples t keys some)
      (some.flatMap (rowSupplies (keys.map Prod.fst))) := by
  induction some with
  | nil => exact .pure _
  | cons row rest ih =>
      obtain ⟨hrow, hrest⟩ := List.forall_mem_cons.mp hrows
      obtain ⟨htext, hmore⟩ := htexts.cons
      rw [List.flatMap_cons]
      cases row with
      | dict row =>
          exact (fails_rowValues hunwritable hrow htext hkeys).bind (makes_rowValues hkeys row)
            fun values => (ih hrest hmore).map _
      | _ => exact ih hrest hmore

theorem covers_insertedRows {rows : Value} (h : Covers Other rows)
    (hrows : rows.isDict = true ∨ ∃ items, rows = .list items) :
    Covers Other (.list (insertedRows rows)) := by
  rcases hrows with hdict | ⟨items, rfl⟩
  · cases rows with
    | dict row => exact h.mono fun h => by simpa [insertedRows, Value.hasText_list] using h
    | _ => cases hdict
  · exact h

theorem fails_insert (htable : Covers Other table) {rows : Value} (htexts : Covers Other rows)
    (hrows : rows.isDict = true ∨ ∃ items, rows = .list items)
    (hunwritable : ∀ fault, Unwritable (insertedRows rows) fault → Other fault) :
    FailsBy Other (insert t table rows) (insertSupplies rows) := by
  have hfound := covers_insertedRows htexts hrows
  refine (fails_insertRows hrows).after_of (makes_insertRows rows) fun found hyields => ?_
  obtain ⟨_, _, hyields⟩ := hyields
  rw [← yields_insertRows hyields] at hfound
  refine (fails_collectKeys [] hfound).after_of (makes_collectKeys [] found) fun keys hcollected => ?_
  obtain ⟨_, _, hkeys⟩ := hcollected
  obtain ⟨hparsed, hnames⟩ := yields_collectKeys_keys (by simp [Parsed]) hkeys
  have hsupplies : insertSupplies rows = found.flatMap (rowSupplies (keys.map Prod.fst)) := by
    rw [insertSupplies, ← yields_insertRows hyields, hnames]
    rfl
  rw [← yields_insertRows hyields] at hunwritable
  rw [hsupplies]
  split_ifs
  · exact .throw rfl
  · refine (fails_keyColumns keys).after (makes_keyColumns keys) fun columns => ?_
    refine (fails_rowTuples hunwritable (fun _ hrow => hrow) hfound hparsed).before
      (makes_rowTuples hparsed found) fun tuples => ?_
    exact (FailsBy.table htable).after (Makes.table table) fun tableSql => fails_finish _ _

/-! Updates, deletions and replacements. -/

theorem fails_assignment {key v : Value} {row : Dict}
    (hunwritable : ∀ fault, Unwritable rows fault → Other fault) (hrow : .dict row ∈ rows)
    (htext : Covers Other (.dict row)) (hv : (key, v) ∈ row) :
    FailsBy Other (assignment t key v) (assignmentSupplies (key, v)) := by
  have hkey : Covers Other key := htext.mono fun h => (Value.hasText_dict.mp h _ hv).1
  have hparse : FailsBy Other (Compile.lift (Key.dataKey key)) [] :=
    .lift (Key.typed_dataKey key) hkey.badValue
  cases hraw : v.isRaw with
  | true =>
      cases v with
      | raw raw parameters =>
          refine hparse.after (.lift (Key.blameless_dataKey key)) fun parsed => ?_
          have hvalue := (Value.Inherited.covers Other).entries htext _ hv
          exact (FailsBy.column (.str _)).after (makes_column _ _) fun column =>
            (FailsBy.splice hvalue).map _
      | _ => cases hraw
  | false =>
      rw [assignment_eq hraw]
      refine hparse.after_of (.lift (Key.blameless_dataKey key)) fun parsed hyields => ?_
      obtain ⟨_, _, hyields⟩ := hyields
      have hparsed := ((yields_lift _).mp hyields).1
      have hsupplies : assignmentSupplies (key, v) =
          if parsed.operator?.isSome then [.value v] else storedSupplies parsed.isJson v := by
        cases v with
        | raw raw parameters => cases hraw
        | _ => simp only [assignmentSupplies, hparsed]
      rw [hsupplies]
      refine (FailsBy.column (.str _)).after (makes_column _ _) fun column => ?_
      unfold assigned
      cases parsed.operator? with
      | some operator =>
          rw [Option.isSome_some, if_pos rfl]
          dsimp only
          split_ifs
          · exact .throw_showing hkey rfl
          · exact (FailsBy.bindValue v).map _
      | none =>
          have hstored := (fails_stored hunwritable hrow hv hraw).map
            fun right => column ++ .text " = " :: right
          rw [bind_assoc, isJsonKey_of_dataKey hparsed] at hstored
          exact hstored

theorem fails_assignments {entries row : Dict}
    (hunwritable : ∀ fault, Unwritable rows fault → Other fault) (hrow : .dict row ∈ rows)
    (htext : Covers Other (.dict row)) (hentries : ∀ entry ∈ entries, entry ∈ row) :
    FailsBy Other (assignments t entries) (entries.flatMap assignmentSupplies) := by
  induction entries with
  | nil => exact .pure _
  | cons entry rest ih =>
      obtain ⟨hentry, hrest⟩ := List.forall_mem_cons.mp hentries
      rw [List.flatMap_cons]
      exact (fails_assignment hunwritable hrow htext hentry).bind (makes_assignment entry.1 entry.2) fun first =>
        (ih hrest).map _

theorem fails_updateOf (htable : Covers Other table) (sets : List Sql)
    (hwheres : Covers Other wheres) :
    FailsBy Other (updateOf t table sets wheres) (Tail.supplies wheres) :=
  (FailsBy.table htable).after (Makes.table table) fun _ =>
    (Tail.fails_compile hwheres).before (Tail.makes_compile wheres) fun _ => fails_finish _ _

theorem fails_update {data : Value} (htable : Covers Other table) (hdata : Covers Other data)
    (hwheres : Covers Other wheres) (hunwritable : ∀ fault, Unwritable [data] fault → Other fault) :
    FailsBy Other (update t table data wheres)
      (entrywise assignmentSupplies data ++ Tail.supplies wheres) := by
  unfold update
  split
  · exact (fails_assignments hunwritable List.mem_cons_self hdata fun _ hentry => hentry).bind
      (makes_assignments _) fun sets => fails_updateOf htable sets hwheres
  · exact .throw rfl

theorem fails_delete (htable : Covers Other table) (hwheres : Covers Other wheres) :
    FailsBy Other (delete t table wheres) (Tail.supplies wheres) :=
  (FailsBy.table htable).after (Makes.table table) fun _ =>
    (Tail.fails_compile hwheres).before (Tail.makes_compile wheres) fun _ => fails_finish _ _

theorem fails_nestedReplace (expression : Sql) (pairs : Dict) :
    FailsBy Other (nestedReplace expression pairs)
      (pairs.flatMap fun (old, new) => [.value old, .value new]) := by
  induction pairs generalizing expression with
  | nil => exact .pure _
  | cons pair rest ih =>
      obtain ⟨old, new⟩ := pair
      rw [List.flatMap_cons]
      exact (FailsBy.bindValue old).bind (Makes.bindValue old) fun oldSql =>
        (FailsBy.bindValue new).bind (Makes.bindValue new) fun newSql => ih _

theorem fails_replacements {entries : Dict} (h : Covers Other (.dict entries)) :
    FailsBy Other (replacements t entries) (entries.flatMap replacementSupplies) := by
  induction entries with
  | nil => exact .pure _
  | cons entry rest ih =>
      obtain ⟨column, v⟩ := entry
      obtain ⟨hcolumn, -, hrest⟩ := h.entry
      rw [List.flatMap_cons]
      cases v with
      | dict pairs =>
          refine (FailsBy.column hcolumn).after (makes_column t column) fun columnSql => ?_
          exact (fails_nestedReplace columnSql pairs).bind (makes_nestedReplace columnSql pairs)
            fun expression => (ih hrest).map _
      | _ => exact .throw_showing hcolumn rfl

theorem fails_replace (htable : Covers Other table) (hcolumns : Covers Other columns)
    (hwheres : Covers Other wheres) :
    FailsBy Other (replace t table columns wheres)
      (entrywise replacementSupplies columns ++ Tail.supplies wheres) := by
  cases columns with
  | dict entries =>
      refine (fails_replacements hcolumns).bind (makes_replacements entries) fun sets => ?_
      split_ifs
      · exact .throw rfl
      · exact fails_updateOf htable sets hwheres
  | _ => exact .throw rfl

end Statement

end QueryLoom
