import QueryLoom.Proofs.Json.RoundTrip
import QueryLoom.Proofs.Statement.Insertions
import QueryLoom.Result.Coercion

/-!
Values that are stored as JSON. An insertion and an update bind the text of a value under a JSON key,
and of a list or a dictionary under a plain key. Coercion to a JSON type turns the text back into the
value and has nothing to note. A text that is bound stays bound to the end of the statement, whatever
raw values bring along, since nothing but the same text is equal to it.
-/

namespace QueryLoom

open Compile

variable {t : Target} {s u : Parameters} {params : List (String × Value)}

/-- A text that coercion to a JSON type turns into the value, with nothing added to the journal,
wherever the containers of the value may be entered. -/
def Coercion.Reads (text : String) (v : Value) : Prop :=
  ∀ nesting, v.nesting ≤ nesting → ∀ type, type = .object ∨ type = .json → ∀ column journal,
    (ExceptT.run (coerce nesting type column (.str text))).run journal = (.ok v, journal)

theorem Coercion.reads_of_read {text : String} {v : Value}
    (h : ∀ nesting, v.nesting ≤ nesting → Json.read nesting text = .ok v) : Reads text v := by
  intro nesting hnesting type htype column journal
  have hjson : coerce nesting type column (.str text) = toJson nesting (.str text) column := by
    rcases htype with rfl | rfl <;> rfl
  have hresult : toJson nesting (.str text) column = pure v := by
    simp only [toJson, h nesting hnesting, pure_bind]
  rw [hjson, hresult]
  rfl

/-! Texts that stay bound. -/

section Texts

variable {text : String} {v : Value}

theorem Value.eq_str_of_equal? (h : Value.equal? (.str text) v = some true) : v = .str text := by
  cases v with
  | str other =>
      have hequal : Value.equal? (.str text) (.str other) = some (text == other) := rfl
      rw [hequal, Option.some.injEq, beq_iff_eq] at h
      rw [h]
  | _ => cases h

/-- Nothing but the same text stands for a text. -/
theorem Value.StandsFor.eq_str (h : v.StandsFor (.str text)) : v = .str text :=
  h.elim id eq_str_of_equal?

end Texts

namespace Statement

/-- Whether a value is stored as JSON: any value under a JSON key, a list or a dictionary under a
plain one. -/
def StoresJson (key : DataKey) : Value → Prop
  | .list _ | .dict _ => key.mode = .json ∨ key.mode = .plain
  | _ => key.mode = .json

theorem StoresJson.operator? {key : DataKey} {v : Value} (h : StoresJson key v) :
    key.operator? = none := by
  have hmode : key.mode = .json ∨ key.mode = .plain := by
    cases v with
    | list items => exact h
    | dict entries => exact h
    | _ => exact .inl h
  rcases hmode with hmode | hmode <;> simp only [DataKey.operator?, hmode]

/-- A value that is stored as JSON is bound as a text that reads as the value. -/
theorem storedValue_json {key : DataKey} {v : Value} (hv : v.IsJson) (hkey : StoresJson key v) :
    ∃ text, storedValue key.isJson v = .ok (.str text) ∧ Coercion.Reads text v := by
  obtain ⟨text, hwrite, hread⟩ := Json.read_write hv
  have hscalar : key.mode = .json → key.isJson = true := fun hmode => by
    rw [DataKey.isJson, hmode]
    rfl
  have htext : key.isJson = true ∨ v.isFlat = false := by
    cases v with
    | list items => exact .inr rfl
    | dict entries => exact .inr rfl
    | _ => exact .inl (hscalar hkey)
  refine ⟨text, ?_, Coercion.reads_of_read hread⟩
  rw [storedValue_text htext, hwrite]
  rfl

/-- A placeholder under which a text is bound that reads as the value. -/
def Holds (params : List (String × Value)) (sql : Sql) (v : Value) : Prop :=
  ∃ name text, sql = [.param name] ∧ Assoc.get? name params = some (.str text) ∧
    Coercion.Reads text v

/-- A placeholder that carries what is stored for a value holds the value. -/
theorem holds_of_standsFor {key : DataKey} {v stored w : Value} {name : String} (hv : v.IsJson)
    (hkey : StoresJson key v) (hstored : storedValue key.isJson v = .ok stored)
    (hget : Assoc.get? name params = some w) (hw : w.StandsFor stored) :
    Holds params [.param name] v := by
  obtain ⟨text, htext, hreads⟩ := storedValue_json hv hkey
  obtain rfl := Except.ok.inj (hstored.symm.trans htext)
  rw [hw.eq_str] at hget
  exact ⟨name, text, rfl, hget, hreads⟩

/-! Insertions. -/

/-- A value that is stored as JSON stands in its row at its column. -/
def RowHolds (t : Target) (params : List (String × Value)) (columns : List Sql) (row : Value)
    (values : List Sql) : Prop :=
  ∀ entries key parsed v, row = .dict entries → Assoc.get? key entries = some v →
    Key.dataKey key = .ok parsed → StoresJson parsed v → v.IsJson →
    ∃ column sql, (column, sql) ∈ columns.zip values ∧
      Identifier.column t.tablePrefix parsed.column = .ok column ∧ Holds params sql v

/-- What stands at the place of a key in two rows stands at one place in both. -/
theorem exists_mem_zip {α β γ : Type} {R : α → β → Prop} {S : α → γ → Prop} {keys : List α}
    {xs : List β} {ys : List γ} (hxs : List.Forall₂ R keys xs) (hys : List.Forall₂ S keys ys)
    {key : α} (hkey : key ∈ keys) : ∃ x y, (x, y) ∈ xs.zip ys ∧ R key x ∧ S key y := by
  induction hxs generalizing ys with
  | nil => cases hkey
  | @cons first x rest xs hx hxs ih =>
      cases hys with
      | @cons _ y _ ys hy hys =>
          rcases List.mem_cons.mp hkey with rfl | hrest
          · exact ⟨x, y, List.mem_cons_self, hx, hy⟩
          · obtain ⟨x', y', hmem, hx', hy'⟩ := ih hys hrest
            exact ⟨x', y', List.mem_cons_of_mem _ hmem, hx', hy'⟩

theorem holds_of_cell {brought : List String} {row : Dict} {name : String} {item : Sql} {v : Value}
    {parsed : DataKey} (h : Cell t brought params row name item)
    (hget : Assoc.get? (.str name) row = some v) (hparsed : Key.dataKey (.str name) = .ok parsed)
    (hkey : StoresJson parsed v) (hv : v.IsJson) : Holds params item v := by
  cases h with
  | raw h =>
      obtain rfl := Option.some.inj (hget.symm.trans h)
      cases hv
  | missing h hbound => cases hget.symm.trans h
  | stored h hraw hfound hstored hbound =>
      obtain rfl := Option.some.inj (hget.symm.trans h)
      obtain rfl := Except.ok.inj (hparsed.symm.trans hfound)
      obtain ⟨w, hw, hsame⟩ := hbound
      exact holds_of_standsFor hv hkey (stored_iff.mp hstored) hw (hsame.imp_right And.right)

/-- A row whose items stand in their places holds its values, if its keys are among the names. -/
theorem rowHolds_of_cells {brought : List String} {row : Dict} {names : List String}
    {columns items : List Sql} (hcolumns : List.Forall₂ (IsColumn t) names columns)
    (hitems : List.Forall₂ (Cell t brought params row) names items)
    (hnames : ∀ name, .str name ∈ row.map Prod.fst → name ∈ names) :
    RowHolds t params columns (.dict row) items := by
  rintro _ key parsed v ⟨⟩ hget hparsed hkey hv
  obtain ⟨name, rfl⟩ := Key.exists_str_of_dataKey hparsed
  obtain ⟨other, hmem, hbeq⟩ := Assoc.mem_of_get? hget
  obtain rfl : other = .str name := Value.eq_str_of_beq hbeq
  obtain ⟨column, item, hzip, ⟨found, hfound, hcolumn⟩, hcell⟩ :=
    exists_mem_zip hcolumns hitems (hnames name (List.mem_map_of_mem hmem))
  obtain rfl := Except.ok.inj (hparsed.symm.trans hfound)
  exact ⟨column, item, hzip, hcolumn, holds_of_cell hcell hget hparsed hkey hv⟩

/-- The rows of an insertion hold their values. -/
def InsertionHolds (t : Target) (rows : Value) (c : Compiled) : Prop :=
  ∃ table columns values, c.sql = insertion table columns values ∧
    List.Forall₂ (RowHolds t c.params columns) (insertedRows rows) values

theorem insertionHolds_insert {table rows : Value} {c : Compiled}
    (h : (insert t table rows).Yields s c u) : InsertionHolds t rows c := by
  obtain ⟨dicts, names, tableSql, columns, tuples, hrows, hnames, -, hsql, hbound, hcolumns, hplaced,
    -⟩ := yields_insert h
  have hkeys : ∀ row ∈ dicts, ∀ name, .str name ∈ row.map Prod.fst → name ∈ names.eraseDups := by
    intro row hrow name hname
    have hall : .str name ∈ dicts.flatMap fun row => row.map Prod.fst :=
      List.mem_flatMap.mpr ⟨row, hrow, hname⟩
    rw [hnames] at hall
    simpa using hall
  refine ⟨tableSql, columns, tuples, hsql, ?_⟩
  rw [hrows.insertedRows_eq, hbound, List.forall₂_map_left_iff]
  refine ((List.forall₂_and_left _ _).mpr ⟨hkeys, hplaced⟩).imp fun row items hrow => ?_
  exact rowHolds_of_cells hcolumns (hrow.2.imp fun _ _ hitem => hitem.1) hrow.1

/-! Updates. -/

/-- A value that is stored as JSON is assigned to its column. -/
def AssignmentHolds (t : Target) (params : List (String × Value)) (entry : Value × Value)
    (set : Sql) : Prop :=
  ∀ parsed, Key.dataKey entry.1 = .ok parsed → StoresJson parsed entry.2 → entry.2.IsJson →
    ∃ column sql, set = column ++ .text " = " :: sql ∧
      Identifier.column t.tablePrefix parsed.column = .ok column ∧ Holds params sql entry.2

theorem assignmentHolds_of_assigned {entry : Value × Value} {set : Sql}
    (h : overwrites entry = false → Assigned t params entry set) :
    AssignmentHolds t params entry set := by
  obtain ⟨key, v⟩ := entry
  intro parsed hparsed hkey hv
  dsimp only at hparsed hkey hv
  have hraw : overwrites (key, v) = false := by
    rw [overwrites, Bool.and_eq_false_iff]
    right
    cases hv <;> rfl
  obtain ⟨found, column, operand, hfound, hcolumn, hset⟩ := h hraw
  obtain rfl := Except.ok.inj (hparsed.symm.trans hfound)
  rw [hkey.operator?] at hset
  obtain ⟨hoperand, rfl⟩ := hset
  refine ⟨column, operand, rfl, hcolumn, ?_⟩
  cases hoperand with
  | raw sql parameters => cases hv
  | stored hraw hstored hcarries =>
      obtain ⟨name, w, rfl, hget, hw⟩ := hcarries
      exact holds_of_standsFor hv hkey hstored hget hw

/-- The assignments of an update hold their values. -/
def UpdateHolds (t : Target) (data : Value) (c : Compiled) : Prop :=
  ∃ entries table sets tail, data = .dict entries ∧
    c.sql = append (.text "UPDATE " :: table ++ .text " SET " :: Sql.join ", " sets) tail ∧
    List.Forall₂ (AssignmentHolds t c.params) entries sets

theorem updateHolds_update {table data wheres : Value} {c : Compiled}
    (h : (update t table data wheres).Yields s c u) : UpdateHolds t data c := by
  cases data with
  | dict entries =>
      obtain ⟨tableSql, sets, tail, -, hsql, hsets⟩ := assigned_update h
      exact ⟨entries, tableSql, sets, tail, rfl, hsql,
        hsets.imp fun _ _ => assignmentHolds_of_assigned⟩
  | _ => simp [update] at h

/-! Statements that compile. -/

/-- A step that succeeds as long as all names come from the counter, and binds no others. -/
def Succeeds {α : Type} (m : Compile α) : Prop :=
  ∀ s : Parameters, s.Numbered → ∃ a u, m.Yields s a u ∧ u.Numbered

theorem Succeeds.pure {α : Type} (a : α) : Succeeds (Pure.pure a) := fun s hs =>
  ⟨a, s, (yields_pure a).mpr ⟨rfl, rfl⟩, hs⟩

theorem Succeeds.bind {α β : Type} {m : Compile α} {k : α → Compile β} (h : Succeeds m)
    (hk : ∀ a, Succeeds (k a)) : Succeeds (m >>= k) := by
  intro s hs
  obtain ⟨a, w, hm, hw⟩ := h s hs
  obtain ⟨b, u, hb, hu⟩ := hk a w hw
  exact ⟨b, u, (yields_bind m k).mpr ⟨a, w, hm, hb⟩, hu⟩

theorem Succeeds.map {α β : Type} {m : Compile α} (h : Succeeds m) (f : α → β) :
    Succeeds (do return f (← m)) :=
  h.bind fun a => .pure (f a)

theorem succeeds_bindValue (v : Value) : Succeeds (bindValue v) := by
  refine Succeeds.map (m := addValue v) ?_ fun name => ([.param name] : Sql)
  intro s hs
  have hfresh : Assoc.get? (s.numbered s.next) s.bound = none := by
    cases hget : Assoc.get? (s.numbered s.next) s.bound with
    | none => rfl
    | some existing =>
        obtain ⟨name, hmem, hname⟩ := Assoc.mem_of_get? hget
        obtain ⟨i, hi, heq⟩ := hs name (List.mem_map_of_mem hmem)
        have hsame := s.numbered_injective (heq.symm.trans (beq_iff_eq.mp hname))
        omega
  have hyields : (addValue v).Yields s (s.numbered s.next)
      { s with next := s.next + 1, bound := Assoc.insert (s.numbered s.next) v s.bound } := by
    refine (yields_bind _ _).mpr ⟨s, s, yields_get.mpr ⟨rfl, rfl⟩, ?_⟩
    refine (yields_bind _ _).mpr ⟨(), _, yields_set.mpr rfl, ?_⟩
    refine (yields_bind _ _).mpr ⟨(), _, ?_, (yields_pure _).mpr ⟨rfl, rfl⟩⟩
    refine (yields_bind _ _).mpr ⟨_, _, yields_get.mpr ⟨rfl, rfl⟩, ?_⟩
    change Assoc.get? (s.stem ++ toString s.next) s.bound = none at hfresh
    simp only [hfresh]
    exact yields_set.mpr rfl
  exact ⟨_, _, hyields, (binds_addValue hs hyields).numbered hs⟩

theorem succeeds_finish (sql : Sql) (columns : Option ColumnTree) :
    Succeeds (finish t sql columns) := fun s hs =>
  ⟨⟨sql, false, s.bound, t.dialect, columns⟩, s,
    (yields_bind _ _).mpr ⟨s, s, yields_get.mpr ⟨rfl, rfl⟩, (yields_pure _).mpr ⟨rfl, rfl⟩⟩, hs⟩

theorem succeeds_table {table : Value} {sql : Sql}
    (h : Identifier.table t.tablePrefix table = .ok sql) : Succeeds (t.table table) := by
  rw [Target.table, h]
  exact .pure sql

/-- A value that can be stored under a key: the key names a column and no operator, and the value has
a JSON form if it is stored as JSON. -/
def Storable (t : Target) (key v : Value) : Prop :=
  ∃ parsed column, Key.dataKey key = .ok parsed ∧ parsed.operator? = none ∧
    Identifier.column t.tablePrefix parsed.column = .ok column ∧ v.isRaw = false ∧
    (StoresJson parsed v → v.IsJson)

theorem storedValue_ok {key : DataKey} {v : Value} (hkey : key.operator? = none)
    (hv : StoresJson key v → v.IsJson) : ∃ stored, storedValue key.isJson v = .ok stored := by
  by_cases hstores : StoresJson key v
  · obtain ⟨text, hstored, -⟩ := storedValue_json (hv hstores) hstores
    exact ⟨_, hstored⟩
  · have hjson : key.mode ≠ .json := fun hmode => hstores <| by
      cases v with
      | list items => exact .inl hmode
      | dict entries => exact .inl hmode
      | _ => exact hmode
    have hisJson : key.isJson = false := beq_eq_false_iff_ne.mpr hjson
    have hplain : key.mode = .plain := by
      cases hmode : key.mode with
      | plain => rfl
      | json => exact absurd hmode hjson
      | arithmetic operator => simp [DataKey.operator?, hmode] at hkey
    cases v with
    | list items => exact absurd (.inr hplain) hstores
    | dict entries => exact absurd (.inr hplain) hstores
    | _ =>
        rw [hisJson]
        exact ⟨_, rfl⟩

theorem succeeds_stored {key : DataKey} {v : Value} (hkey : key.operator? = none)
    (hv : StoresJson key v → v.IsJson) :
    Succeeds (do bindValue (← Compile.lift (storedValue key.isJson v))) := by
  obtain ⟨stored, hstored⟩ := storedValue_ok hkey hv
  rw [hstored]
  exact succeeds_bindValue stored

/-- A row all of whose values can be stored. -/
def StorableRow (t : Target) (row : Value) : Prop :=
  ∃ entries, row = .dict entries ∧ ∀ entry ∈ entries, Storable t entry.1 entry.2

/-- Keys that name columns and no operators. -/
def NameColumns (t : Target) (keys : InsertKeys) : Prop :=
  ∀ key ∈ keys, key.2.operator? = none ∧
    ∃ column, Identifier.column t.tablePrefix key.2.column = .ok column

theorem addKeys_eq_pure {keys : InsertKeys} {entries : Dict} (hkeys : NameColumns t keys)
    (hentries : ∀ entry ∈ entries, Storable t entry.1 entry.2) :
    ∃ found, addKeys keys entries = pure found ∧ NameColumns t found := by
  induction entries generalizing keys with
  | nil => exact ⟨keys, rfl, hkeys⟩
  | cons entry rest ih =>
      obtain ⟨key, v⟩ := entry
      obtain ⟨hentry, hrest⟩ := List.forall_mem_cons.mp hentries
      obtain ⟨parsed, column, hparsed, hoperator, hcolumn, -⟩ := hentry
      dsimp only at hparsed
      rw [addKeys]
      by_cases hhas : Assoc.has key keys = true
      · rw [if_pos hhas]
        exact ih hkeys hrest
      · have hmore : NameColumns t (keys ++ [(key, parsed)]) :=
          List.forall_mem_append.mpr
            ⟨hkeys, List.forall_mem_singleton.mpr ⟨hoperator, column, hcolumn⟩⟩
        have hnone : ¬parsed.operator?.isSome = true := by simp [hoperator]
        rw [if_neg hhas, hparsed]
        change ∃ found, (if parsed.operator?.isSome then (do
            let _ ← (malformed key .arithmeticOutsideUpdate .insert : Compile PUnit)
            addKeys (keys ++ [(key, parsed)]) rest)
          else addKeys (keys ++ [(key, parsed)]) rest) = pure found ∧ _
        rw [if_neg hnone]
        exact ih hmore hrest

theorem collectKeys_eq_pure {keys : InsertKeys} {rows : List Value} (hkeys : NameColumns t keys)
    (hrows : ∀ row ∈ rows, StorableRow t row) :
    ∃ found, collectKeys keys rows = pure found ∧ NameColumns t found := by
  induction rows generalizing keys with
  | nil => exact ⟨keys, rfl, hkeys⟩
  | cons row rest ih =>
      obtain ⟨⟨entries, rfl, hentries⟩, hrest⟩ := List.forall_mem_cons.mp hrows
      obtain ⟨more, hadd, hmore⟩ := addKeys_eq_pure hkeys hentries
      rw [collectKeys, hadd, pure_bind]
      exact ih hmore hrest

theorem keyColumns_eq_pure {keys : InsertKeys} (hkeys : NameColumns t keys) :
    ∃ columns, keyColumns t keys = pure columns := by
  induction keys with
  | nil => exact ⟨[], rfl⟩
  | cons entry rest ih =>
      obtain ⟨⟨-, column, hcolumn⟩, hrest⟩ := List.forall_mem_cons.mp hkeys
      obtain ⟨columns, hcolumns⟩ := ih hrest
      refine ⟨column :: columns, ?_⟩
      rw [keyColumns, Target.column, hcolumn, hcolumns]
      rfl

theorem succeeds_rowValue {row : Dict} {key : Value} {parsed : DataKey}
    (hparsed : Key.dataKey key = .ok parsed) (hoperator : parsed.operator? = none)
    (hrow : ∀ entry ∈ row, Storable t entry.1 entry.2) : Succeeds (rowValue t row key parsed) := by
  unfold rowValue
  cases hget : Assoc.get? key row with
  | none => exact succeeds_bindValue .null
  | some v =>
      obtain ⟨other, hmem, hbeq⟩ := Assoc.mem_of_get? hget
      obtain ⟨found, _, hfound, -, -, hraw, hv⟩ := hrow _ hmem
      obtain ⟨name, rfl⟩ := Key.exists_str_of_dataKey hparsed
      have hsame : other = .str name := Value.eq_str_of_beq hbeq
      dsimp only at hfound hraw hv
      subst hsame
      rw [hparsed, Except.ok.injEq] at hfound
      subst hfound
      cases v with
      | raw sql parameters => cases hraw
      | _ => exact succeeds_stored hoperator hv

theorem succeeds_rowValues {row : Dict} {keys : InsertKeys} (hparsed : Parsed keys)
    (hkeys : NameColumns t keys) (hrow : ∀ entry ∈ row, Storable t entry.1 entry.2) :
    Succeeds (rowValues t row keys) := by
  induction keys with
  | nil => exact .pure []
  | cons entry rest ih =>
      obtain ⟨key, parsed⟩ := entry
      obtain ⟨hentry, hrest⟩ := List.forall_mem_cons.mp hparsed
      obtain ⟨⟨hoperator, -⟩, hmore⟩ := List.forall_mem_cons.mp hkeys
      rw [rowValues_cons]
      exact (succeeds_rowValue hentry hoperator hrow).bind fun first => (ih hrest hmore).map _

theorem succeeds_rowTuples {keys : InsertKeys} {rows : List Value} (hparsed : Parsed keys)
    (hkeys : NameColumns t keys) (hrows : ∀ row ∈ rows, StorableRow t row) :
    Succeeds (rowTuples t keys rows) := by
  induction rows with
  | nil => exact .pure []
  | cons row rest ih =>
      obtain ⟨⟨entries, rfl, hentries⟩, hrest⟩ := List.forall_mem_cons.mp hrows
      exact (succeeds_rowValues hparsed hkeys hentries).bind fun values => (ih hrest).map _

theorem insertRows_eq_pure {rows : Value} (hrows : ∀ row ∈ insertedRows rows, StorableRow t row)
    (hkeys : rowKeys [] (insertedRows rows) ≠ []) : insertRows rows = pure (insertedRows rows) := by
  cases rows with
  | dict entries => rfl
  | list items =>
      cases items with
      | nil => exact absurd rfl hkeys
      | cons first rest => rfl
  | str text =>
      have hnone : ∀ chars : List Char,
          rowKeys [] (chars.map fun c => .str (String.singleton c)) = [] :=
        fun chars => by cases chars <;> rfl
      exact absurd (hnone _) hkeys
  | bytes octets =>
      cases octets <;> exact absurd rfl hkeys
  | _ => exact absurd rfl hkeys

theorem succeeds_insert {table rows : Value} {sql : Sql}
    (htable : Identifier.table t.tablePrefix table = .ok sql)
    (hrows : ∀ row ∈ insertedRows rows, StorableRow t row)
    (hkeys : rowKeys [] (insertedRows rows) ≠ []) : Succeeds (insert t table rows) := by
  obtain ⟨keys, hcollect, hcolumns⟩ := collectKeys_eq_pure (List.forall_mem_nil _) hrows
  obtain ⟨columns, hcolumnSql⟩ := keyColumns_eq_pure hcolumns
  have hyields : (collectKeys [] (insertedRows rows)).Yields (.start 0) keys (.start 0) := by
    rw [hcollect]
    exact (yields_pure keys).mpr ⟨rfl, rfl⟩
  obtain ⟨hparsed, hnames⟩ := yields_collectKeys_keys (List.forall_mem_nil _) hyields
  have hsome : ¬keys.isEmpty = true := by
    rw [List.isEmpty_iff]
    rintro rfl
    exact hkeys hnames.symm
  unfold insert
  rw [insertRows_eq_pure hrows hkeys, pure_bind, hcollect, pure_bind, if_neg hsome, hcolumnSql]
  refine (succeeds_rowTuples hparsed hcolumns hrows).bind fun tuples => ?_
  exact (succeeds_table htable).bind fun tableSql => succeeds_finish _ _

theorem succeeds_assignments {entries : Dict}
    (hentries : ∀ entry ∈ entries, Storable t entry.1 entry.2) :
    Succeeds (assignments t entries) := by
  induction entries with
  | nil => exact .pure []
  | cons entry rest ih =>
      obtain ⟨key, v⟩ := entry
      obtain ⟨hentry, hrest⟩ := List.forall_mem_cons.mp hentries
      obtain ⟨parsed, column, hparsed, hoperator, hcolumn, hraw, hv⟩ := hentry
      dsimp only at hparsed hraw hv
      have hassignment : Succeeds (assignment t key v) := by
        rw [assignment_eq hraw, hparsed]
        change Succeeds (do
          let column ← t.column parsed.column
          assigned key column parsed v)
        rw [Target.column, hcolumn]
        change Succeeds (assigned key column parsed v)
        unfold assigned
        rw [hoperator]
        have hstored := (succeeds_stored hoperator hv).map fun right =>
          column ++ .text " = " :: right
        rwa [bind_assoc] at hstored
      exact hassignment.bind fun first => (ih hrest).map _

theorem succeeds_update {table wheres : Value} {entries : Dict} {sql : Sql}
    (htable : Identifier.table t.tablePrefix table = .ok sql)
    (hentries : ∀ entry ∈ entries, Storable t entry.1 entry.2) (hsome : entries ≠ [])
    (hwheres : Succeeds (Tail.compile t wheres)) :
    Succeeds (update t table (.dict entries) wheres) := by
  cases entries with
  | nil => exact absurd rfl hsome
  | cons entry rest =>
      refine (succeeds_assignments hentries).bind fun sets => ?_
      refine (succeeds_table htable).bind fun tableSql => ?_
      exact hwheres.bind fun tail => succeeds_finish _ _

theorem Succeeds.run {α : Type} {m : Compile α} (h : Succeeds m) (next : Nat) :
    ∃ a last, Statement.run m next = (.ok a, last) := by
  obtain ⟨a, u, hyields, -⟩ := h (.start next) (Parameters.numbered_start next)
  exact ⟨a, u.next, Statement.run_of_yields hyields⟩

/-- JSON that is written is JSON that is read. In an insertion every value that is stored as JSON
stands at its column as a placeholder, and in an update it is assigned to its column as one; the
parameter of the placeholder is a text that coercion to a JSON type turns into the value, with nothing
to note. Calls whose values have a JSON form where they are stored as JSON do compile; writing a value
needs room on the stack too, which these two parts leave out. -/
theorem stored_json_is_read_back (t : Target) (next : Nat) :
    (∀ table rows c last, run (insert t table rows) next = (.ok c, last) →
      InsertionHolds t rows c) ∧
    (∀ table data wheres c last, run (update t table data wheres) next = (.ok c, last) →
      UpdateHolds t data c) ∧
    (∀ table rows sql, Identifier.table t.tablePrefix table = .ok sql →
      (∀ row ∈ insertedRows rows, StorableRow t row) → rowKeys [] (insertedRows rows) ≠ [] →
      ∃ c last, run (insert t table rows) next = (.ok c, last)) ∧
    (∀ table entries wheres sql, Identifier.table t.tablePrefix table = .ok sql →
      (∀ entry ∈ entries, Storable t entry.1 entry.2) → entries ≠ [] →
      Succeeds (Tail.compile t wheres) →
      ∃ c last, run (update t table (.dict entries) wheres) next = (.ok c, last)) := by
  refine ⟨?_, ?_, ?_, ?_⟩
  · intro table rows c last h
    obtain ⟨u, hyields, -⟩ := yields_of_run h
    exact insertionHolds_insert hyields
  · intro table data wheres c last h
    obtain ⟨u, hyields, -⟩ := yields_of_run h
    exact updateHolds_update hyields
  · intro table rows sql htable hrows hkeys
    exact (succeeds_insert htable hrows hkeys).run next
  · intro table entries wheres sql htable hentries hsome hwheres
    exact (succeeds_update htable hentries hsome hwheres).run next

/-- A dictionary with a list, an empty dictionary, and a text with a line break and a character beyond
the basic plane. -/
def nestedValue : Value :=
  .dict [(.str "tags", .list [.null, .bool true, .int (-12)]), (.str "none", .dict []),
    (.str "text", .str "a\n\"é😀")]

theorem isJson_nestedValue : nestedValue.IsJson := by
  refine .dict [("tags", .list [.null, .bool true, .int (-12)]), ("none", .dict []),
    ("text", .str "a\n\"é😀")] (by decide) ?_
  simp only [List.forall_mem_cons]
  refine ⟨.list _ ?_, .dict [] (by decide) (List.forall_mem_nil _), .str _, List.forall_mem_nil _⟩
  simp only [List.forall_mem_cons]
  exact ⟨.null, .bool true, .int (-12) (by decide), List.forall_mem_nil _⟩

theorem stored_json_is_read_back_of_nested :
    (∃ c last, run (insert ⟨.sqlite, "p_"⟩ (.str "posts")
        (.list [.dict [(.str "meta[JSON]", .null), (.str "extra", nestedValue)]])) 0 =
          (.ok c, last) ∧
      InsertionHolds ⟨.sqlite, "p_"⟩
        (.list [.dict [(.str "meta[JSON]", .null), (.str "extra", nestedValue)]]) c) ∧
    ∃ c last, run (update ⟨.mysql, ""⟩ (.str "posts") (.dict [(.str "meta[JSON]", nestedValue)])
        .null) 7 = (.ok c, last) ∧
      UpdateHolds ⟨.mysql, ""⟩ (.dict [(.str "meta[JSON]", nestedValue)]) c := by
  have hnull : Storable ⟨.sqlite, "p_"⟩ (.str "meta[JSON]") .null :=
    ⟨⟨"meta", .json⟩, _, rfl, rfl, rfl, rfl, fun _ => .null⟩
  have hplain : Storable ⟨.sqlite, "p_"⟩ (.str "extra") nestedValue :=
    ⟨⟨"extra", .plain⟩, _, rfl, rfl, rfl, rfl, fun _ => isJson_nestedValue⟩
  have hmeta : Storable ⟨.mysql, ""⟩ (.str "meta[JSON]") nestedValue :=
    ⟨⟨"meta", .json⟩, _, rfl, rfl, rfl, rfl, fun _ => isJson_nestedValue⟩
  obtain ⟨hinsert, -, hinserted, -⟩ := stored_json_is_read_back ⟨.sqlite, "p_"⟩ 0
  obtain ⟨-, hupdate, -, hupdated⟩ := stored_json_is_read_back ⟨.mysql, ""⟩ 7
  constructor
  · obtain ⟨c, last, hrun⟩ := hinserted (.str "posts")
      (.list [.dict [(.str "meta[JSON]", .null), (.str "extra", nestedValue)]]) _ rfl
      (List.forall_mem_singleton.mpr ⟨_, rfl, List.forall_mem_cons.mpr
        ⟨hnull, List.forall_mem_singleton.mpr hplain⟩⟩) (List.cons_ne_nil _ _)
    exact ⟨c, last, hrun, hinsert _ _ c last hrun⟩
  · obtain ⟨c, last, hrun⟩ := hupdated (.str "posts") [(.str "meta[JSON]", nestedValue)] .null _ rfl
      (List.forall_mem_singleton.mpr hmeta) (List.cons_ne_nil _ _) (.pure [])
    exact ⟨c, last, hrun, hupdate _ _ _ c last hrun⟩

end Statement

end QueryLoom
