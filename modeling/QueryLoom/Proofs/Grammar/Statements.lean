import QueryLoom.Proofs.Bindings.Statements
import QueryLoom.Proofs.Grammar.Clauses
import QueryLoom.Proofs.Statement.Alignment

/-!
Statements are sentences of the grammar. A tail is added only if it has a clause, since every clause
has a text; a statement for one row has no limit of its own, so the limit of one is its only one.
-/

namespace QueryLoom

open Compile Grammar

variable {r : Rules} {t : Target} {P : Sql → Prop} {v : Value} {sql : Sql} {rows : List Sql}

/-! Tails behind what they belong to. -/

namespace Grammar

theorem Optional.texts (h : Optional P rows) (hP : ∀ sql, P sql → sql.text ≠ "") :
    ∀ row ∈ rows, row.text ≠ "" := by
  cases h with
  | absent => simp
  | present h => exact List.forall_mem_singleton.mpr (hP _ h)

theorem Keyworded.text_ne_empty {keyword : String} (hkeyword : keyword ≠ "")
    (h : Keyworded keyword P sql) : sql.text ≠ "" := by
  cases h with
  | mk => exact Sql.text_ne_empty hkeyword _

theorem Limit.text_ne_empty (h : Limit sql) : sql.text ≠ "" := by
  cases h with
  | size size =>
      refine Sql.text_ne_empty (fun hempty => ?_) _
      have hlist := congrArg String.toList hempty
      rw [String.toList_append] at hlist
      simp at hlist
  | offset size offset =>
      refine Sql.text_ne_empty (fun hempty => ?_) _
      have hlist := congrArg String.toList hempty
      simp only [String.toList_append] at hlist
      simp at hlist

/-- No clause is without a text. -/
theorem Clauses.texts (h : Clauses r rows) : ∀ row ∈ rows, row.text ≠ "" := by
  obtain ⟨⟨hfilter, hgroup, hhaving, horder⟩, hlimit⟩ := h
  have hkeyword : ∀ {keyword : String} {Q : Sql → Prop}, keyword ≠ "" →
      ∀ sql, Keyworded keyword Q sql → sql.text ≠ "" :=
    fun hne _ h => h.text_ne_empty hne
  simp only [List.forall_mem_append]
  exact ⟨⟨⟨⟨hfilter.texts (hkeyword (by decide)), hgroup.texts (hkeyword (by decide))⟩,
    hhaving.texts (hkeyword (by decide))⟩, horder.texts (hkeyword (by decide))⟩,
    hlimit.texts fun _ => Limit.text_ne_empty⟩

/-- What is written, with the ending behind it that a where-specification asks for. -/
inductive Ended (r : Rules) (v : Value) (P : Sql → Prop) : Sql → Prop
  | mk {sql tail : Sql} (h : P sql) (htail : Tail.Ending r v tail) :
      Ended r v P (Statement.append sql tail)

theorem Ended.closed (h : Ended r v P sql) : Closed r P sql := by
  obtain ⟨h, hrows, hlimit, -⟩ := h
  have hclauses := Clauses.mk hrows hlimit
  rw [Statement.append_join hclauses.texts]
  split_ifs with hempty
  · exact .plain h
  · exact .clauses h hclauses hempty

/-- Without a limit of its own a statement may be followed by one. -/
theorem Ended.limited (h : Ended r v P sql) (hv : Statement.limitOf v = .null) :
    Derived (Closed r P) (Sql.text (sql ++ [.text " LIMIT 1"])) := by
  obtain ⟨h, hrows, hlimit, hasked⟩ := h
  obtain rfl := hasked hv
  have hclauses := Clauses.mk hrows (.present (.size 1))
  refine ⟨_, .clauses h hclauses (by simp), String.toList_injective ?_⟩
  rw [Statement.append_join (Clauses.mk hrows hlimit).texts, List.append_nil]
  split_ifs with hempty
  · subst hempty
    simp only [Sql.text_append, Sql.text_cons]
    rfl
  · rw [Sql.join_concat _ hempty]
    simp only [Sql.text_append, Sql.text_cons, List.append_assoc, List.cons_append]
    rfl

end Grammar

/-! Queries. -/

namespace Statement

theorem builds_finish (sql : Sql) (columns : Option ColumnTree) :
    Builds (finish t sql columns) fun c => c.body = sql ∧ c.limitedToOne = false := by
  intro s c u hs hyields
  simp only [finish, yields_bind, yields_get, yields_pure] at hyields
  obtain ⟨_, _, ⟨rfl, rfl⟩, rfl, rfl⟩ := hyields
  exact ⟨⟨rfl, rfl⟩, hs⟩

theorem builds_joinsAfter (ref : TableRef) {head table : Sql} (join : Value) (hhead : P head)
    (htable : Table table) :
    Builds (joinsAfter t ref (head ++ .text " FROM " :: table) join) (From P) := by
  unfold joinsAfter
  split_ifs
  · refine (Joins.builds_compile ref join).map fun joins hjoins => ?_
    obtain ⟨rows, hrows, hne, rfl⟩ := hjoins
    exact .joined hhead htable hrows hne
  · exact .pure (.table hhead htable)

theorem builds_selectFrom (hdialect : r.dialect = t.dialect) {head : Sql} {wheres : Value}
    (table join : Value) (hhead : P head) (hwheres : Tail.Fits r t wheres) :
    Builds (selectFrom t head table wheres join) (Ended r wheres (From P)) := by
  rw [selectFrom_eq]
  refine Builds.bind (.lift fun _ _ => trivial) fun ref _ => ?_
  refine (builds_tableRef ref).bind fun tableSql htable => ?_
  refine (builds_joinsAfter ref join hhead htable).bind fun sql hsql => ?_
  exact (Tail.builds_compile hdialect hwheres).map fun tail htail => .mk hsql htail

theorem builds_select (hdialect : r.dialect = t.dialect) {columns wheres : Value}
    (table join : Value) (hcolumns : columns.rawFree = true) (hwheres : Tail.Fits r t wheres) :
    Builds (select t table columns wheres join) fun c =>
      Ended r wheres (From SelectHead) c.body ∧ c.limitedToOne = false := by
  refine Builds.bind (.lift fun tree htree => ColumnSpec.rawFree_parse hcolumns htree)
    fun tree htree => ?_
  refine (Projection.builds_compile join.truthy htree).bind fun projection hprojection => ?_
  refine (builds_selectFrom hdialect table join hprojection hwheres).bind fun sql hsql => ?_
  refine (builds_finish sql tree).mono fun c hc => ?_
  rw [hc.1]
  exact ⟨hsql, hc.2⟩

theorem builds_has (hdialect : r.dialect = t.dialect) {wheres : Value} (table join : Value)
    (hwheres : Tail.Fits r t wheres) :
    Builds (has t table wheres join) fun c =>
      Grammar.Statement r .has c.body ∧ c.limitedToOne = false := by
  refine (builds_selectFrom hdialect table join HasHead.mk hwheres).bind fun sql hsql => ?_
  refine (builds_finish _ none).mono fun c hc => ?_
  rw [hc.1]
  exact ⟨.has hsql.closed, hc.2⟩

theorem builds_aggregateArgument (function : AggregateFunction) {column : Value}
    (hcolumn : column.rawFree = true) : Builds (aggregateArgument t function column) Argument := by
  have heverything : Builds (if function == .count then pure [.text "*"]
      else throw (.refused (.aggregateNeedsColumn function.name)) : Compile Sql) Argument := by
    split_ifs
    · exact .pure .everything
    · exact .throw _
  cases column with
  | raw raw parameters => cases hcolumn
  | null => exact heverything
  | str name =>
      unfold aggregateArgument
      dsimp only
      by_cases hname : (name == "*") = true
      · rw [if_pos hname]
        exact heverything
      · rw [if_neg hname]
        exact (builds_column _).mono fun _ => .column
  | _ => exact (builds_column _).mono fun _ => .column

theorem builds_aggregate (hdialect : r.dialect = t.dialect) {column wheres : Value}
    (function table join : Value) (hcolumn : column.rawFree = true)
    (hwheres : Tail.Fits r t wheres) :
    Builds (aggregate t function table column wheres join) fun c =>
      Grammar.Statement r .aggregate c.body ∧ c.limitedToOne = false := by
  unfold aggregate
  split
  · exact .throw _
  · rename_i f _
    refine (builds_aggregateArgument f hcolumn).bind fun argument hargument => ?_
    refine (builds_selectFrom hdialect table join (AggregateHead.mk f hargument)
      hwheres).bind fun sql hsql => ?_
    refine (builds_finish sql none).mono fun c hc => ?_
    rw [hc.1]
    exact ⟨.aggregate hsql.closed, hc.2⟩

/-! Insertions. -/

theorem builds_insertRows {rows : Value} (hrows : rows.rawFree = true) :
    Builds (insertRows rows) fun items => ∀ row ∈ items, row.rawFree = true := by
  intro s items u hs hyields
  obtain ⟨rfl, hitems⟩ := rawFree_insertRows hrows hyields
  exact ⟨hitems, hs⟩

/-- Keys come from rows. -/
theorem builds_collectKeys (keys : InsertKeys) (items : List Value) :
    Builds (collectKeys keys items) fun found => found = keys ∨ ∃ row, .dict row ∈ items := by
  cases items with
  | nil => exact .pure (.inl rfl)
  | cons v rest =>
      cases v with
      | dict row =>
          intro s found u hs hyields
          obtain rfl := yields_collectKeys hyields
          exact ⟨.inr ⟨row, by simp⟩, hs⟩
      | _ => exact .throw _

theorem builds_keyColumns (keys : InsertKeys) :
    Builds (keyColumns t keys) (Compile.Rows Column keys.length) := by
  induction keys with
  | nil => exact .pure .nil
  | cons key rest ih => exact (builds_column _).cons ih fun _ h => h

theorem builds_stored (json : Bool) (v : Value) :
    Builds (do bindValue (← Compile.lift (storedValue json v))) Placeholder :=
  Builds.bind (.lift fun _ _ => trivial) fun stored _ => .bindValue stored

theorem builds_rowValue {row : Dict} (hrow : (Value.dict row).rawFree = true) (key : Value)
    (parsed : DataKey) : Builds (rowValue t row key parsed) Placeholder := by
  unfold rowValue
  split
  · exact .bindValue _
  · rename_i hget
    obtain ⟨k, hmem, _⟩ := Assoc.mem_of_get? hget
    cases Value.rawFree_dict.mp hrow _ hmem
  · exact builds_stored _ _

theorem builds_rowValues {row : Dict} (hrow : (Value.dict row).rawFree = true)
    (keys : InsertKeys) :
    Builds (rowValues t row keys) (Compile.Rows Placeholder keys.length) := by
  induction keys with
  | nil => exact .pure .nil
  | cons entry rest ih =>
      obtain ⟨key, parsed⟩ := entry
      rw [rowValues_cons]
      exact (builds_rowValue hrow key parsed).cons ih fun _ h => h

theorem builds_rowTuples {key : Value × DataKey} {keys : InsertKeys} {items : List Value}
    (hitems : ∀ row ∈ items, row.rawFree = true) :
    Builds (rowTuples t (key :: keys) items) fun tuples =>
      (∀ tuple ∈ tuples, RowTuple tuple) ∧ (tuples = [] → ∀ row, .dict row ∉ items) := by
  induction items with
  | nil => exact .pure (by simp)
  | cons v rest ih =>
      obtain ⟨hv, hrest⟩ := List.forall_mem_cons.mp hitems
      cases v with
      | dict row =>
          refine (builds_rowValues hv (key :: keys)).bind fun values hvalues => ?_
          refine (ih hrest).map fun tuples htuples => ⟨?_, by simp⟩
          exact List.forall_mem_cons.mpr ⟨.mk hvalues.all hvalues.ne_nil, htuples.1⟩
      | _ => exact (ih hrest).mono fun tuples htuples => ⟨htuples.1, by simpa using htuples.2⟩

theorem builds_insert {rows : Value} (table : Value) (hrows : rows.rawFree = true) :
    Builds (insert t table rows) fun c =>
      Grammar.Statement r .insert c.body ∧ c.limitedToOne = false := by
  refine (builds_insertRows hrows).bind fun items hitems => ?_
  refine (builds_collectKeys [] items).bind fun keys hkeys => ?_
  cases keys with
  | nil => exact Builds.bind (P := fun _ => False) (.throw _) fun _ h => h.elim
  | cons key keys =>
      obtain ⟨row, hrow⟩ : ∃ row, .dict row ∈ items := by
        simpa using hkeys
      refine (builds_keyColumns (key :: keys)).bind fun columns hcolumns => ?_
      refine (builds_rowTuples hitems).bind fun tuples htuples => ?_
      refine (builds_table table).bind fun tableSql htable => ?_
      obtain ⟨name⟩ := htable
      refine (builds_finish _ none).mono fun c hc => ?_
      rw [hc.1]
      have hsome : tuples ≠ [] := fun hnil => htuples.2 hnil row hrow
      exact ⟨.insert name hcolumns.all hcolumns.ne_nil htuples.1 hsome, hc.2⟩

/-! Updates, deletions and replacements. -/

theorem builds_assigned {column : Sql} (key : Value) (parsed : DataKey) (v : Value)
    (hcolumn : Column column) : Builds (assigned key column parsed v) Assignment := by
  unfold assigned
  split
  · rename_i operator _
    have hassigns := (Builds.bindValue v).map fun operand hoperand =>
      Assignment.arithmetic operator hcolumn hoperand
    dsimp only
    split_ifs
    · exact Builds.bind (P := fun _ => True) (.throw _) fun _ _ => hassigns
    · exact hassigns
  · refine Builds.bind (.lift fun _ _ => trivial) fun stored _ => ?_
    exact (Builds.bindValue stored).map fun right hright => .value hcolumn hright

theorem builds_assignments {entries : Dict} (h : (Value.dict entries).rawFree = true) :
    Builds (assignments t entries) (Compile.Rows Assignment entries.length) := by
  induction entries with
  | nil => exact .pure .nil
  | cons entry rest ih =>
      obtain ⟨key, v⟩ := entry
      rw [Value.rawFree_dict, List.forall_mem_cons] at h
      have hraw : v.isRaw = false := by
        cases v with
        | raw raw parameters => cases h.1
        | _ => rfl
      have hassignment : Builds (assignment t key v) Assignment := by
        rw [assignment_eq hraw]
        refine Builds.bind (.lift fun _ _ => trivial) fun parsed _ => ?_
        exact (builds_column _).bind fun column hcolumn => builds_assigned key parsed v hcolumn
      exact hassignment.cons (ih (Value.rawFree_dict.mpr h.2)) fun _ h => h

theorem builds_updateOf (hdialect : r.dialect = t.dialect) {sets : List Sql} {wheres : Value}
    (table : Value) (hsets : ∀ row ∈ sets, Assignment row) (hne : sets ≠ [])
    (hwheres : Tail.Fits r t wheres) :
    Builds (updateOf t table sets wheres) fun c =>
      Closed r UpdateHead c.body ∧ c.limitedToOne = false := by
  refine (builds_table table).bind fun tableSql htable => ?_
  obtain ⟨name⟩ := htable
  refine (Tail.builds_compile hdialect hwheres).bind fun tail htail => ?_
  refine (builds_finish _ none).mono fun c hc => ?_
  rw [hc.1]
  exact ⟨Ended.closed (.mk (.mk name hsets hne) htail), hc.2⟩

theorem builds_update (hdialect : r.dialect = t.dialect) {data wheres : Value} (table : Value)
    (hdata : data.rawFree = true) (hwheres : Tail.Fits r t wheres) :
    Builds (update t table data wheres) fun c =>
      Closed r UpdateHead c.body ∧ c.limitedToOne = false := by
  unfold update
  split
  · refine (builds_assignments hdata).bind fun sets hsets => ?_
    exact builds_updateOf hdialect table hsets.all hsets.ne_nil hwheres
  · exact .throw _

theorem builds_delete (hdialect : r.dialect = t.dialect) {wheres : Value} (table : Value)
    (hwheres : Tail.Fits r t wheres) :
    Builds (delete t table wheres) fun c =>
      Grammar.Statement r .delete c.body ∧ c.limitedToOne = false := by
  refine (builds_table table).bind fun tableSql htable => ?_
  obtain ⟨name⟩ := htable
  refine (Tail.builds_compile hdialect hwheres).bind fun tail htail => ?_
  refine (builds_finish _ none).mono fun c hc => ?_
  rw [hc.1]
  exact ⟨.delete (Ended.closed (.mk (.mk name) htail)), hc.2⟩

theorem builds_nestedReplace {expression : Sql} (hexpression : Replaced expression) (pairs : Dict) :
    Builds (nestedReplace expression pairs) Replaced := by
  induction pairs generalizing expression with
  | nil => exact .pure hexpression
  | cons pair rest ih =>
      refine (Builds.bindValue pair.1).bind fun oldSql hold => ?_
      exact (Builds.bindValue pair.2).bind fun newSql hnew => ih (.replace hexpression hold hnew)

theorem builds_replacements (entries : Dict) :
    Builds (replacements t entries) fun sets => ∀ row ∈ sets, Assignment row := by
  induction entries with
  | nil => exact .pure (by simp)
  | cons entry rest ih =>
      obtain ⟨column, v⟩ := entry
      cases v with
      | dict pairs =>
          refine (builds_column column).bind fun columnSql hcolumn => ?_
          refine (builds_nestedReplace (.column hcolumn) pairs).bind fun expression hreplaced => ?_
          refine ih.map fun sets hsets => ?_
          split_ifs
          · exact hsets
          · exact List.forall_mem_cons.mpr ⟨.replaced hcolumn hreplaced, hsets⟩
      | _ => exact .throw _

theorem builds_replace (hdialect : r.dialect = t.dialect) {wheres : Value} (table columns : Value)
    (hwheres : Tail.Fits r t wheres) :
    Builds (replace t table columns wheres) fun c =>
      Closed r UpdateHead c.body ∧ c.limitedToOne = false := by
  cases columns with
  | dict entries =>
      refine (builds_replacements entries).bind fun sets hsets => ?_
      dsimp only
      split_ifs with hempty
      · exact Builds.bind (P := fun _ => False) (.throw _) fun _ h => h.elim
      · have hne : sets ≠ [] := fun hnil => hempty (List.isEmpty_iff.mpr hnil)
        exact builds_updateOf hdialect table hsets hne hwheres
  | _ => exact .throw _

end Statement

end QueryLoom
