import QueryLoom.Proofs.Grammar.Conditions
import QueryLoom.Proofs.Renumbering.Limits
import QueryLoom.Proofs.Statement.Tails

/-!
Clauses are sentences of the grammar: joins, projections, and the clauses at the end of a statement.
Each of them has a body, with one exception: an order that is a list of empty dictionaries names no
item, and its keyword is written all the same.
-/

namespace QueryLoom

open Compile Grammar

variable {r : Rules} {t : Target}

/-! Joins. -/

namespace Joins

theorem builds_bareNames (names : List Value) :
    Builds (bareNames names) (Rows Name names.length) := by
  induction names with
  | nil => exact .pure .nil
  | cons v rest ih => exact (builds_bareName v).cons ih fun _ h => h

theorem builds_qualified (ref : TableRef) (column : Value) :
    Builds (qualified t ref column) Column := by
  refine (builds_table _).bind fun table htable => ?_
  refine (builds_bareName column).map fun name hname => ?_
  obtain ⟨tableName⟩ := htable
  obtain ⟨columnName⟩ := hname
  exact .qualified tableName columnName

theorem builds_leftSide (base : TableRef) (left : Value) : Builds (leftSide t base left) Column := by
  unfold leftSide
  refine .requireText left ?_
  split_ifs
  · exact builds_column left
  · exact builds_qualified base left

theorem builds_equations (base joined : TableRef) (entries : Dict) :
    Builds (equations t base joined entries) (Rows Equality entries.length) := by
  induction entries with
  | nil => exact .pure .nil
  | cons entry rest ih =>
      obtain ⟨left, right⟩ := entry
      rw [equations_cons]
      refine (builds_leftSide base left).bind fun leftSql hleft => ?_
      exact (builds_qualified joined right).cons ih fun rightSql hright => .mk hleft hright

theorem builds_relation (base joined : TableRef) (key : String) (v : Value) :
    Builds (relation t base joined key v) Relation := by
  unfold relation
  split
  · refine (builds_bareName _).map fun name hname => ?_
    have hnames : ∀ row ∈ [name], Name row := List.forall_mem_singleton.mpr hname
    exact .names hnames (by simp)
  · exact .throw _
  · rename_i entries hne
    refine (builds_equations base joined entries).map fun rows hrows => .equalities hrows.all ?_
    cases entries with
    | nil => exact absurd rfl hne
    | cons entry rest => exact hrows.ne_nil
  · exact .throw _
  · rename_i names hne
    refine (builds_bareNames names).map fun rows hrows => .names hrows.all ?_
    cases names with
    | nil => exact absurd rfl hne
    | cons name rest => exact hrows.ne_nil
  · exact .throw _

theorem builds_clauses (base : TableRef) (entries : Dict) :
    Builds (clauses t base entries) (Rows Join entries.length) := by
  induction entries with
  | nil => exact .pure .nil
  | cons entry rest ih =>
      obtain ⟨key, v⟩ := entry
      cases key with
      | str key =>
          refine Builds.bind (.lift fun _ _ => trivial) fun parsed _ => ?_
          refine (builds_tableRef _).bind fun table htable => ?_
          exact (builds_relation base _ key v).cons ih fun relation hrelation =>
            .mk _ htable hrelation
      | _ => exact .throw _

/-- Joins are not none. -/
theorem builds_compile (base : TableRef) (v : Value) :
    Builds (compile t base v) fun sql =>
      ∃ rows, (∀ row ∈ rows, Join row) ∧ rows ≠ [] ∧ sql = Sql.join " " rows := by
  unfold compile
  split
  · rename_i entry rest
    exact (builds_clauses base (entry :: rest)).map fun rows hrows =>
      ⟨rows, hrows.all, hrows.ne_nil, rfl⟩
  · exact .throw _

end Joins

/-! Projections. -/

namespace Projection

theorem builds_fieldItem (joins : Bool) (ref : ColumnRef) :
    Builds (fieldItem t joins ref) Item := by
  have htable : ∀ table, Builds (do return (← t.table table) ++ [.text ".*"]) Item := by
    intro table
    refine (builds_table _).map fun sql hsql => ?_
    obtain ⟨name⟩ := hsql
    exact .all name
  unfold fieldItem
  split_ifs
  · refine Builds.bind (P := fun _ => True) (.throw _) fun _ _ => ?_
    cases ref.table with
    | none => exact .pure .everything
    | some table => exact htable table
  · cases ref.table with
    | none => exact .pure .everything
    | some table => exact htable table
  · refine (builds_column _).bind fun sql hsql => ?_
    cases ref.label with
    | none => exact .pure (.column hsql)
    | some label =>
        refine (builds_bareName _).map fun name hname => ?_
        obtain ⟨labelName⟩ := hname
        exact .labelled hsql labelName

theorem builds_listItems (joins : Bool) :
    (∀ n : ColumnNode, n.rawFree = true →
      Builds (nodeItems t joins n) fun rows => ∀ row ∈ rows, Item row) ∧
    (∀ ns : List ColumnNode, ColumnNode.rawFreeList ns = true →
      Builds (listItems t joins ns) fun rows => ∀ row ∈ rows, Item row) := by
  apply nodeItems.mutual_induct
  · intro key children ih hfree
    exact ih hfree
  · intro ref raw parameters hfree
    cases hfree
  · intro ref _
    exact (builds_fieldItem joins ref).map fun row hrow => List.forall_mem_singleton.mpr hrow
  · intro _
    exact .pure (by simp)
  · intro n rest ih ihrest hfree
    rw [ColumnNode.rawFreeList, Bool.and_eq_true] at hfree
    refine (ih hfree.1).bind fun first hfirst => ?_
    exact (ihrest hfree.2).map fun more hmore => List.forall_mem_append.mpr ⟨hfirst, hmore⟩

/-- A selection selects something. -/
theorem builds_compile (joins : Bool) {tree : ColumnTree}
    (htree : ColumnNode.rawFreeList tree.nodes = true) :
    Builds (compile t joins tree) fun sql => SelectHead (.text "SELECT " :: sql) := by
  have hitems : ∀ {index : List Sql}, (∀ row ∈ index, Item row) → Builds (do
      let items := index ++ (← listItems t joins tree.nodes)
      if items.isEmpty then throw (.emptyProjection tree)
      return Sql.join ", " items) fun sql => SelectHead (.text "SELECT " :: sql) := by
    intro index hindex
    refine ((builds_listItems joins).2 _ htree).bind fun items hitems => ?_
    dsimp only
    split_ifs with hempty
    · exact Builds.bind (P := fun _ => False) (.throw _) fun _ h => h.elim
    · refine .pure (.mk (List.forall_mem_append.mpr ⟨hindex, hitems⟩) fun hnil => hempty ?_)
      rw [hnil]
      rfl
  unfold compile
  split
  · split_ifs
    · exact Builds.bind (P := fun _ => False) (.throw _) fun _ h => h.elim
    · have hitem : ∀ row ∈ [[Piece.text "*"]], Item row := List.forall_mem_singleton.mpr .everything
      exact .pure (.mk hitem (by simp))
  · cases tree.indexKey? with
    | none => exact Builds.bind (P := fun index => ∀ row ∈ index, Item row) (.pure (by simp)) fun _ h =>
        hitems h
    | some key =>
        refine (builds_column _).bind fun column hcolumn => ?_
        exact Builds.bind (P := fun index => ∀ row ∈ index, Item row)
          (.pure (List.forall_mem_singleton.mpr (.column hcolumn))) fun _ h => hitems h

end Projection

/-! Ends of statements. -/

namespace Tail

/-- Whether a value is a dictionary without entries. -/
def isEmptyDict : Value → Bool
  | .dict entries => entries.isEmpty
  | _ => false

/-- Whether an order is a list of nothing but empty dictionaries, and not the empty list. -/
def namesNoOrder : Value → Bool
  | .list items => !items.isEmpty && items.all isEmptyDict
  | _ => false

/-- Whether the order of a where-specification is a list of nothing but empty dictionaries. -/
def ordersNothing : Value → Bool
  | .dict entries => namesNoOrder (Dict.getD entries orderKey)
  | _ => false

/-- The calls of functions in the conditions of a where-specification. -/
def calls : Value → List String
  | .dict entries =>
      Conditions.calls (.dict (conditionEntries entries)) ++
        Conditions.calls (Dict.getD entries havingKey)
  | _ => []

theorem builds_columnList (columns : List Value) :
    Builds (columnList t columns) (Rows Column columns.length) := by
  induction columns with
  | nil => exact .pure .nil
  | cons v rest ih => exact (builds_column v).cons ih fun _ h => h

theorem builds_group {v : Value} (hv : v.rawFree = true) (htruthy : v.truthy = true) :
    Builds (group t v) Group := by
  cases v with
  | raw raw parameters => cases hv
  | str name =>
      refine (builds_column _).mono fun column hcolumn => ?_
      have hcolumns : ∀ row ∈ [column], Column row := List.forall_mem_singleton.mpr hcolumn
      exact .mk hcolumns (by simp)
  | list columns =>
      cases columns with
      | nil => cases htruthy
      | cons column rest =>
          exact (builds_columnList (column :: rest)).map fun rows hrows => .mk hrows.all hrows.ne_nil
  | bytes octets =>
      cases octets with
      | nil => cases htruthy
      | cons octet rest =>
          exact (builds_columnList _).map fun rows hrows => .mk hrows.all hrows.ne_nil
  | _ => exact .throw _

theorem builds_customOrder {column : Sql} (hcolumn : Column column) {values : List Value}
    (hne : values ≠ []) : OrderItem r (r.dialect.customOrder column (values.map r.dialect.literalText)) := by
  have hliterals : ∀ row ∈ (values.map r.dialect.literalText).map fun l => [Piece.literal l],
      Literal r row := by
    simp only [List.mem_map]
    rintro _ ⟨_, ⟨v, _, rfl⟩, rfl⟩
    exact .mk v
  have hranked : ∀ rank, ∀ row ∈ Dialect.ranked rank (values.map r.dialect.literalText), Ranked r row := by
    clear hne hliterals
    induction values with
    | nil => simp [Dialect.ranked]
    | cons v rest ih =>
        intro rank
        rw [List.map_cons, Dialect.ranked, List.forall_mem_cons]
        exact ⟨.mk v rank, ih (rank + 1)⟩
  have hsome : Dialect.ranked 1 (values.map r.dialect.literalText) ≠ [] := by
    cases values with
    | nil => exact absurd rfl hne
    | cons v rest => simp [Dialect.ranked]
  have hfield := OrderItem.field hcolumn hliterals (by simpa using hne)
  have hcase := OrderItem.ranked hcolumn (hranked 1) hsome
  unfold Dialect.customOrder
  split
  · simpa using hfield
  · simpa using hcase
  · simpa using hcase

theorem builds_orderEntry (hdialect : r.dialect = t.dialect) (key v : Value) :
    Builds (orderEntry t key v) (OrderItem r) := by
  unfold orderEntry
  split
  · exact (builds_column _).mono fun _ => .column
  · refine (builds_column _).bind fun column hcolumn => ?_
    dsimp only
    split
    · split
      · rename_i direction hdirection
        refine .pure (.directed hcolumn ?_)
        simpa using List.mem_of_find?_eq_some hdirection
      · exact .throw _
    · rw [← hdialect]
      refine Builds.bind (Builds.lift fun _ h => (Dialect.mapM_literal_eq_ok.mp h).2) ?_
      rintro _ rfl
      exact .pure (builds_customOrder hcolumn (by simp))
    · exact .throw _

theorem builds_orderEntries (hdialect : r.dialect = t.dialect) (entries : Dict) :
    Builds (orderEntries t entries) (Rows (OrderItem r) entries.length) := by
  induction entries with
  | nil => exact .pure .nil
  | cons entry rest ih => exact (builds_orderEntry hdialect entry.1 entry.2).cons ih fun _ h => h

/-- An item of a list orders by something, unless it is an empty dictionary. -/
theorem builds_orderItem (hdialect : r.dialect = t.dialect) {v : Value} (hv : v.rawFree = true) :
    Builds (orderItem t v) fun rows =>
      (∀ row ∈ rows, OrderItem r row) ∧ (rows = [] → isEmptyDict v = true) := by
  cases v with
  | str name =>
      refine (builds_column _).map fun column hcolumn => ⟨?_, by simp⟩
      exact List.forall_mem_singleton.mpr (.column hcolumn)
  | dict entries =>
      refine (builds_orderEntries hdialect entries).mono fun rows hrows => ⟨hrows.all, ?_⟩
      rintro rfl
      exact List.isEmpty_iff.mpr (List.eq_nil_of_length_eq_zero hrows.length.symm)
  | raw raw parameters => cases hv
  | _ => exact .throw _

theorem builds_orderItems (hdialect : r.dialect = t.dialect) {items : List Value}
    (hitems : ∀ v ∈ items, v.rawFree = true) :
    Builds (orderItems t items) fun rows =>
      (∀ row ∈ rows, OrderItem r row) ∧ (rows = [] → items.all isEmptyDict = true) := by
  induction items with
  | nil => exact .pure (by simp)
  | cons v rest ih =>
      obtain ⟨hv, hrest⟩ := List.forall_mem_cons.mp hitems
      rw [orderItems_cons]
      refine (builds_orderItem hdialect hv).bind fun first hfirst => ?_
      refine (ih hrest).map fun more hmore => ⟨?_, ?_⟩
      · exact List.forall_mem_append.mpr ⟨hfirst.1, hmore.1⟩
      · intro hnil
        obtain ⟨hfirstNil, hmoreNil⟩ := List.append_eq_nil_iff.mp hnil
        rw [List.all_cons, hfirst.2 hfirstNil, hmore.2 hmoreNil]
        rfl

theorem builds_order (hdialect : r.dialect = t.dialect) {v : Value}
    (hv : v.rawFree = true ∨ v = .raw t.dialect.randomFunction []) (htruthy : v.truthy = true)
    (horder : namesNoOrder v = true → r.EmptyOrder) : Builds (order t v) (Order r) := by
  have hsingle : ∀ item, OrderItem r item → Order r item := by
    intro item hitem
    have hitems : ∀ row ∈ [item], OrderItem r row := List.forall_mem_singleton.mpr hitem
    exact .mk hitems (by simp)
  rcases hv with hv | rfl
  · cases v with
    | raw raw parameters => cases hv
    | str name => exact (builds_column _).mono fun column hcolumn => hsingle column (.column hcolumn)
    | dict entries =>
        cases entries with
        | nil => cases htruthy
        | cons entry rest =>
            exact (builds_orderEntries hdialect (entry :: rest)).map fun rows hrows =>
              .mk hrows.all fun hnil => absurd hnil hrows.ne_nil
    | list items =>
        refine (builds_orderItems hdialect (Value.rawFree_list hv)).map fun rows hrows => ?_
        refine .mk hrows.1 fun hnil => horder ?_
        rw [namesNoOrder, Bool.and_eq_true]
        exact ⟨htruthy, hrows.2 hnil⟩
    | bytes octets =>
        cases octets with
        | nil => cases htruthy
        | cons octet rest =>
            refine (builds_orderItems hdialect (Value.rawFree_octets _)).map fun rows hrows => ?_
            exact .mk hrows.1 fun hnil => by cases hrows.2 hnil
    | _ => exact .throw _
  · refine Builds.bind (P := fun _ => True) ?_ fun _ _ => .pure (hsingle _ ?_)
    · exact .pure trivial
    · rw [Fragment.expand_of_not_mem (by cases t.dialect <;> decide), ← hdialect]
      exact .random

theorem builds_limit (v : Value) : Builds (limit v) Limit := by
  unfold limit
  dsimp only
  split
  · split
    · exact .requireText _ (.pure (.offset _ _))
    · exact .throw _
  · split
    · exact .requireText _ (.pure (.size _))
    · exact .throw _

theorem builds_having {v : Value} (hv : v.rawFree = true)
    (hcalls : ∀ call ∈ Conditions.calls v, r.Call call) : Builds (having t v) (Conjunction r) := by
  have hne : ∀ raw parameters, v ≠ .raw raw parameters := by
    rintro raw parameters rfl
    cases hv
  rw [having_eq hne]
  exact Conditions.builds_compile hv hcalls

theorem builds_whenTruthy {P : Sql → Prop} {v : Value} (keyword : String)
    {body : Value → Compile Sql} (h : v.truthy = true → Builds (body v) P) :
    Builds (whenTruthy v keyword body) (Optional (Keyworded keyword P)) := by
  unfold whenTruthy
  split_ifs with htruthy
  · exact (h htruthy).map fun sql hsql => .present (.mk hsql)
  · exact .pure .absent

/-- What a where-specification has to keep to for its clauses to be sentences. -/
structure Fits (r : Rules) (t : Target) (v : Value) : Prop where
  trusted : TrustedValue t v
  calls : ∀ call ∈ calls v, r.Call call
  order : ordersNothing v = true → r.EmptyOrder

/-- Clauses with a limit only if one is asked for. -/
inductive Ending (r : Rules) (v : Value) : Sql → Prop
  | mk {rows limit : List Sql} (hrows : Unlimited r rows) (hlimit : Optional Limit limit)
      (hasked : Statement.limitOf v = .null → limit = []) : Ending r v (Sql.join " " (rows ++ limit))

/-- The end of a statement is clauses, each at most once and in one order. -/
theorem builds_compile_dict (hdialect : r.dialect = t.dialect) {entries : Dict}
    (h : Fits r t (.dict entries)) :
    Builds (compile t (.dict entries)) (Ending r (.dict entries)) := by
  have hentries : Trusted t entries := h.trusted
  obtain ⟨hconditions, hhavingCalls⟩ := List.forall_mem_append.mp h.calls
  have hfilter := builds_whenTruthy (v := .dict (conditionEntries entries)) "WHERE " fun _ =>
    Conditions.builds_compile (p := ⟨t, .filter⟩) hentries.conditions hconditions
  have hgroupFree : (Dict.getD entries groupKey).rawFree = true := hentries.getD_rawFree (by decide)
  have hgroup := builds_whenTruthy "GROUP BY " fun htruthy =>
    builds_group (t := t) hgroupFree htruthy
  have hhavingFree : (Dict.getD entries havingKey).rawFree = true :=
    hentries.getD_rawFree (by decide)
  have hhaving := builds_whenTruthy "HAVING " fun _ =>
    builds_having (t := t) hhavingFree hhavingCalls
  have horders : (Dict.getD entries orderKey).rawFree = true ∨
      Dict.getD entries orderKey = .raw t.dialect.randomFunction [] := by
    rcases hentries.getD orderKey with hfree | ⟨_, hrandom⟩
    · exact .inl hfree
    · exact .inr hrandom
  have horderBy := builds_whenTruthy "ORDER BY " fun htruthy =>
    builds_order hdialect horders htruthy h.order
  unfold compile
  refine hfilter.bind fun filter hfilter => hgroup.bind fun groupBy hgroup => ?_
  refine hhaving.bind fun having hhaving => horderBy.bind fun orderBy horderBy => ?_
  have hrows := Unlimited.mk hfilter hgroup hhaving horderBy
  dsimp only
  split
  · exact Builds.bind (P := fun limit => limit = []) (.pure rfl) fun limit hlimit =>
      .pure (.mk hrows (hlimit ▸ .absent) fun _ => hlimit)
  · rename_i hasked
    refine (builds_limit _).bind fun row hrow => ?_
    exact Builds.bind (P := Optional Limit) (.pure (.present hrow)) fun limit hlimit =>
      .pure (.mk hrows hlimit fun hnull => absurd hnull hasked)

theorem builds_compile (hdialect : r.dialect = t.dialect) {v : Value} (h : Fits r t v) :
    Builds (compile t v) (Ending r v) := by
  cases v with
  | null =>
      have hnone : Ending r .null (Sql.join " " ([] ++ [])) := .mk .nil .absent fun _ => rfl
      exact .pure hnone
  | dict entries => exact builds_compile_dict hdialect h
  | raw raw parameters => cases h.trusted
  | _ => exact .throw _

end Tail

end QueryLoom
