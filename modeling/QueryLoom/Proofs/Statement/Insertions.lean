import QueryLoom.Proofs.Statement.Assignments
import QueryLoom.Proofs.Statement.InsertKeys

/-!
The rows of an insertion. The keys of all rows, each taken once and in the order in which they first
appear, give the columns; every row gives one tuple, and every tuple one item for each key, so that a
value stands under the column of its key. What the counter gives to the cells are names in the order of
the text. Only the map of a raw value can bring such a name again, and then with an equal value.
-/

namespace QueryLoom

open Compile
open Parameters (Counts generated)

variable {t : Target} {s u : Parameters} {v : Value} {sql : Sql}

theorem counts_bindName {name : String} {y : Unit} (h : (bindName name v).Yields s y u) :
    Counts s u [] := by
  rw [yields_bindName h]
  exact ⟨rfl, rfl, rfl⟩

theorem counts_bindValue (h : (bindValue v).Yields s sql u) : Counts s u sql.params := by
  obtain ⟨rfl, rfl⟩ := yields_bindValue h
  exact ⟨rfl, rfl, rfl⟩

theorem counts_merge {parameters : Dict} {y : Unit} (h : (merge parameters).Yields s y u) :
    Counts s u [] := by
  induction parameters generalizing s with
  | nil =>
      rw [merge, yields_pure] at h
      rw [h.2]
      exact .refl s
  | cons entry rest ih =>
      simp only [merge, yields_bind, yields_requireText] at h
      obtain ⟨_, _, ⟨_, rfl⟩, _, _, hbind, hrest⟩ := h
      exact (counts_bindName hbind).trans (ih hrest)

theorem counts_splice {raw : String} {parameters : Dict}
    (h : (t.splice raw parameters).Yields s sql u) :
    sql = [.fragment (Fragment.expand t.tablePrefix raw)] ∧ Counts s u sql.params := by
  simp only [Target.splice, splice, yields_bind, yields_pure] at h
  obtain ⟨_, _, hmerge, rfl, rfl⟩ := h
  exact ⟨rfl, counts_merge hmerge⟩

/-! Values that stay bound. -/

/-- The names that are brought by the maps of raw values. -/
def Supply.brought : List Supply → List String
  | [] => []
  | .value _ :: rest => brought rest
  | .entry key _ :: rest => parameterName key :: brought rest

/-- A name is bound to a value, or, if a raw value may bring that name too, to an equal one. -/
def BoundTo (brought : List String) (params : List (String × Value)) (name : String) (v : Value) :
    Prop :=
  ∃ w, Assoc.get? name params = some w ∧ (w = v ∨ name ∈ brought ∧ v.equal? w = some true)

theorem BoundTo.bindName {brought : List String} {name other : String} {x : Value} {y : Unit}
    (hv : v.isFlat = true) (hbrought : other = name → name ∈ brought)
    (h : BoundTo brought s.bound name v) (hyields : (bindName other x).Yields s y u) :
    BoundTo brought u.bound name v := by
  obtain ⟨w, hget, hw⟩ := h
  have hbound := bound_bindName s other x
  rw [hyields.run] at hbound
  cases hbound with
  | written hfound =>
      rw [BoundTo, Assoc.get?_insert]
      split_ifs with hsame
      · subst hsame
        have hstands : x.StandsFor v := .trans hv (hw.imp_right And.right) (hfound w hget)
        exact ⟨x, rfl, hstands.imp_right fun hequal => ⟨hbrought rfl, hequal⟩⟩
      · exact ⟨w, hget, hw⟩

/-- A name that the counter gave is bound again only by a raw value that brings it. -/
theorem BoundTo.supply {xs : List Supply} {brought : List String} {i : Nat} {y : Unit}
    (hv : v.isFlat = true) (hxs : Supply.brought xs ⊆ brought) (hi : i < s.next)
    (h : BoundTo brought s.bound (s.numbered i) v) (hyields : (supply xs).Yields s y u) :
    BoundTo brought u.bound (s.numbered i) v := by
  induction xs generalizing s with
  | nil =>
      rw [Compile.supply, yields_pure] at hyields
      rw [hyields.2]
      exact h
  | cons first rest ih =>
      cases first with
      | value x =>
          simp only [Compile.supply, yields_bind] at hyields
          obtain ⟨_, w, hadd, hrest⟩ := hyields
          obtain ⟨rfl, rfl⟩ := yields_addValue hadd
          have hother : s.numbered s.next ≠ s.numbered i := fun heq =>
            absurd (s.numbered_injective heq) (by omega)
          obtain ⟨w, hget, hw⟩ := h
          have hkept : Assoc.get? (s.numbered i) (Assoc.insert (s.numbered s.next) x s.bound) =
              some w := by
            rw [Assoc.get?_insert, if_neg hother]
            exact hget
          exact ih (s := { s with
            next := s.next + 1
            bound := Assoc.insert (s.numbered s.next) x s.bound }) hxs (Nat.lt_succ_of_lt hi)
            ⟨w, hkept, hw⟩ hrest
      | entry key x =>
          simp only [Compile.supply, yields_bind] at hyields
          obtain ⟨_, w, hbind, hrest⟩ := hyields
          obtain ⟨hname, hxs⟩ := List.cons_subset.mp hxs
          have hkept := h.bindName hv (fun hsame => hsame ▸ hname) hbind
          obtain rfl := yields_bindName hbind
          exact ih (s := { s with bound := Assoc.insert (parameterName key) x s.bound }) hxs hi hkept
            hrest

/-- A step that binds what its input asks for keeps what the counter gave before. -/
theorem BoundTo.after {α : Type} {m : Compile α} {xs : List Supply} {a : α} {brought : List String}
    {name : String} (hv : v.isFlat = true) (h : BoundTo brought s.bound name v)
    (hname : s.Gave name) (hmakes : Makes m xs)
    (hxs : Supply.brought xs ⊆ brought) (hm : m.Yields s a u) : BoundTo brought u.bound name v := by
  obtain ⟨i, hi, rfl⟩ := hname
  exact h.supply hv hxs hi (hmakes.yields hm)

theorem boundTo_bindValue (brought : List String) (h : (bindValue v).Yields s sql u) :
    ∃ name, sql = [.param name] ∧ BoundTo brought u.bound name v := by
  obtain ⟨rfl, rfl⟩ := yields_bindValue h
  refine ⟨_, rfl, v, ?_, .inl rfl⟩
  change Assoc.get? _ (Assoc.insert _ v s.bound) = _
  rw [Assoc.get?_insert, if_pos rfl]

namespace Statement

/-! Cells. -/

/-- The item of a tuple for the cell of a row under a key: the text of a raw value, or a placeholder for
null if the row lacks the key, and for what is stored otherwise. -/
inductive Cell (t : Target) (brought : List String) (params : List (String × Value)) (row : Dict)
    (name : String) : Sql → Prop
  | raw {sql : String} {parameters : Dict}
      (h : Assoc.get? (.str name) row = some (.raw sql parameters)) :
      Cell t brought params row name [.fragment (Fragment.expand t.tablePrefix sql)]
  | missing {placeholder : String} (h : Assoc.get? (.str name) row = none)
      (hbound : BoundTo brought params placeholder .null) :
      Cell t brought params row name [.param placeholder]
  | stored {placeholder : String} {v stored : Value} {key : DataKey}
      (h : Assoc.get? (.str name) row = some v) (hraw : v.isRaw = false)
      (hkey : Key.dataKey (.str name) = .ok key) (hstored : Stored key v stored)
      (hbound : BoundTo brought params placeholder stored) :
      Cell t brought params row name [.param placeholder]

section Rows

variable {brought : List String} {row : Dict} {name : String} {item : Sql} {items : List Sql}
  {names : List String} {keys : InsertKeys} {α : Type} {m : Compile α} {xs : List Supply} {a : α}
  {given : List String}

/-- The item of a cell whose placeholder the counter has given. -/
def Placed (t : Target) (brought : List String) (s : Parameters) (row : Dict) (name : String)
    (item : Sql) : Prop :=
  Cell t brought s.bound row name item ∧ ∀ p ∈ item.params, s.Gave p

/-- An item stays in its place while what comes after it is bound. -/
theorem Placed.after (h : Placed t brought s row name item) (hcounts : Counts s u given)
    (hmakes : Makes m xs) (hxs : Supply.brought xs ⊆ brought) (hm : m.Yields s a u) :
    Placed t brought u row name item := by
  obtain ⟨hcell, hgave⟩ := h
  refine ⟨?_, fun p hp => (hgave p hp).after hcounts⟩
  cases hcell with
  | raw h => exact .raw h
  | missing h hbound => exact .missing h (hbound.after rfl (hgave _ (by simp)) hmakes hxs hm)
  | stored h hraw hkey hstored hbound =>
      exact .stored h hraw hkey hstored
        (hbound.after hstored.isFlat (hgave _ (by simp)) hmakes hxs hm)

theorem placed_rowValue (brought : List String) {key : DataKey} (hkey : Key.dataKey (.str name) = .ok key)
    (h : (rowValue t row (.str name) key).Yields s item u) :
    Placed t brought u row name item ∧ Counts s u item.params := by
  have hplaced : Counts s u item.params → Cell t brought u.bound row name item →
      Placed t brought u row name item ∧ Counts s u item.params :=
    fun hcounts hcell => ⟨⟨hcell, fun _ hp => hcounts.gave hp⟩, hcounts⟩
  unfold rowValue at h
  split at h
  · next hget =>
      refine hplaced (counts_bindValue h) ?_
      obtain ⟨placeholder, rfl, hbound⟩ := boundTo_bindValue brought h
      exact .missing hget hbound
  · next sql parameters hget =>
      obtain ⟨rfl, hcounts⟩ := counts_splice h
      exact hplaced hcounts (.raw hget)
  · next v hraw hget =>
      simp only [yields_bind, yields_lift] at h
      obtain ⟨stored, _, ⟨hstored, rfl⟩, hbind⟩ := h
      refine hplaced (counts_bindValue hbind) ?_
      obtain ⟨placeholder, rfl, hbound⟩ := boundTo_bindValue brought hbind
      refine .stored hget ?_ hkey (stored_iff.mpr hstored) hbound
      cases v with
      | raw sql parameters => exact absurd rfl (hraw sql parameters)
      | _ => rfl

theorem Supply.brought_append (xs ys : List Supply) :
    Supply.brought (xs ++ ys) = Supply.brought xs ++ Supply.brought ys := by
  induction xs with
  | nil => rfl
  | cons x rest ih => cases x <;> simp [Supply.brought, ih]

/-- The items of a tuple stand beside the keys. -/
theorem placed_rowValues (hkeys : List.Forall₂ Named names keys)
    (hbrought : Supply.brought (rowSupplies (keys.map Prod.fst) (.dict row)) ⊆ brought)
    (h : (rowValues t row keys).Yields s items u) :
    List.Forall₂ (Placed t brought u row) names items ∧ Counts s u (items.flatMap Sql.params) := by
  induction hkeys generalizing s items with
  | nil =>
      rw [rowValues, yields_pure] at h
      obtain ⟨rfl, rfl⟩ := h
      exact ⟨.nil, .refl _⟩
  | @cons name entry names rest hentry hrest ih =>
      obtain ⟨key, parsed⟩ := entry
      obtain ⟨rfl, hparsed⟩ := hentry
      simp only [rowValues_cons, yields_bind, yields_pure] at h
      obtain ⟨first, w, hfirst, more, _, hmore, rfl, rfl⟩ := h
      obtain ⟨hplaced, hcounts⟩ := placed_rowValue brought hparsed hfirst
      have hlater : Supply.brought (rowSupplies (rest.map Prod.fst) (.dict row)) ⊆ brought := by
        refine List.Subset.trans ?_ hbrought
        rw [List.map_cons, rowSupplies, rowSupplies, List.flatMap_cons, Supply.brought_append]
        exact List.subset_append_right _ _
      obtain ⟨hitems, hgiven⟩ := ih hlater hmore
      have hafter := hplaced.after hgiven (makes_rowValues (parsed_of_named hrest) row) hlater hmore
      exact ⟨.cons hafter hitems, hcounts.trans hgiven⟩

/-- The tuples stand in the order of the rows. -/
theorem placed_rowTuples {dicts : List Dict} {found : List Sql}
    (hkeys : List.Forall₂ Named names keys)
    (hbrought : Supply.brought
      ((dicts.map Value.dict).flatMap (rowSupplies (keys.map Prod.fst))) ⊆ brought)
    (h : (rowTuples t keys (dicts.map Value.dict)).Yields s found u) :
    ∃ tuples, found = tuples.map (fun items => Conditions.parenthesized (Sql.join ", " items)) ∧
      List.Forall₂ (fun row items => List.Forall₂ (Placed t brought u row) names items) dicts
        tuples ∧
      Counts s u (tuples.flatMap fun items => items.flatMap Sql.params) := by
  induction dicts generalizing s found with
  | nil =>
      rw [List.map_nil, rowTuples, yields_pure] at h
      obtain ⟨rfl, rfl⟩ := h
      exact ⟨[], rfl, .nil, .refl _⟩
  | cons row rest ih =>
      rw [List.map_cons, List.flatMap_cons, Supply.brought_append, List.append_subset] at hbrought
      simp only [List.map_cons, rowTuples, yields_bind, yields_pure] at h
      obtain ⟨items, w, hitems, more, _, hmore, rfl, rfl⟩ := h
      obtain ⟨hplaced, hcounts⟩ := placed_rowValues hkeys hbrought.1 hitems
      obtain ⟨tuples, rfl, htuples, hgiven⟩ := ih hbrought.2 hmore
      refine ⟨items :: tuples, rfl, .cons (hplaced.imp fun _ _ hitem => ?_) htuples,
        hcounts.trans hgiven⟩
      exact hitem.after hgiven (makes_rowTuples (parsed_of_named hkeys) _) hbrought.2 hmore

end Rows

/-! What raw values bring. -/

theorem brought_ofMap (parameters : Dict) :
    Supply.brought (Supply.ofMap parameters) =
      parameters.map fun entry => parameterName entry.1 := by
  induction parameters with
  | nil => rfl
  | cons entry rest ih =>
      rw [Supply.ofMap, List.map_cons, Supply.brought, List.map_cons, ← ih]
      rfl

theorem brought_cellSupplies (row : Dict) (key : Value) :
    Supply.brought (cellSupplies row key) ⊆ (Value.dict row).rawNames := by
  unfold cellSupplies
  split
  · exact List.nil_subset _
  · next sql parameters hget =>
      obtain ⟨k, hmem, -⟩ := Assoc.mem_of_get? hget
      rw [brought_ofMap, Value.rawNames, Value.rawNamesOfEntries_eq]
      exact fun name hname => List.mem_flatMap.mpr ⟨_, hmem, hname⟩
  · unfold storedSupplies
    split <;> exact List.nil_subset _

theorem brought_flatMap {α : Type} {f : α → List Supply} {items : List α} {brought : List String}
    (h : ∀ a ∈ items, Supply.brought (f a) ⊆ brought) :
    Supply.brought (items.flatMap f) ⊆ brought := by
  induction items with
  | nil => exact List.nil_subset _
  | cons first rest ih =>
      obtain ⟨hfirst, hrest⟩ := List.forall_mem_cons.mp h
      rw [List.flatMap_cons, Supply.brought_append]
      exact List.append_subset_of_subset_of_subset hfirst (ih hrest)

theorem brought_rowSupplies (keys : List Value) (dicts : List Dict) :
    Supply.brought ((dicts.map Value.dict).flatMap (rowSupplies keys)) ⊆
      (Value.list (dicts.map Value.dict)).rawNames := by
  refine brought_flatMap fun v hv => ?_
  obtain ⟨row, -, rfl⟩ := List.mem_map.mp hv
  refine List.Subset.trans (brought_flatMap fun key _ => brought_cellSupplies row key) ?_
  rw [Value.rawNames, Value.rawNamesOfItems_eq]
  exact fun name hname => List.mem_flatMap.mpr ⟨_, hv, hname⟩

/-! Statements. -/

/-- The rows of an insertion are one mapping, or a list of mappings that is not empty. -/
def IsRows (rows : Value) (dicts : List Dict) : Prop :=
  (∃ row, rows = .dict row ∧ dicts = [row]) ∨ (rows = .list (dicts.map .dict) ∧ dicts ≠ [])

theorem IsRows.insertedRows_eq {rows : Value} {dicts : List Dict} (h : IsRows rows dicts) :
    insertedRows rows = dicts.map Value.dict := by
  obtain ⟨row, rfl, rfl⟩ | ⟨rfl, -⟩ := h <;> rfl

/-- Items of which none is a mapping are no rows. -/
theorem map_ne_dicts {α : Type} {f : α → Value} {items : List α} {dicts : List Dict}
    (hne : items ≠ []) (hf : ∀ a row, f a ≠ .dict row) : dicts.map Value.dict ≠ items.map f := by
  intro h
  obtain ⟨a, ha⟩ := List.exists_mem_of_ne_nil items hne
  obtain ⟨row, -, hrow⟩ := List.mem_map.mp (h ▸ List.mem_map_of_mem (f := f) ha)
  exact hf a row hrow.symm

theorem isRows_of_insertRows {rows : Value} {dicts : List Dict}
    (h : (insertRows rows).Yields s (dicts.map Value.dict) u) : IsRows rows dicts ∧ u = s := by
  unfold insertRows at h
  split at h
  · next row =>
      obtain ⟨hrows, rfl⟩ := (yields_pure _).mp h
      refine ⟨.inl ⟨row, rfl, ?_⟩, rfl⟩
      cases dicts with
      | nil => cases hrows
      | cons first rest =>
          obtain ⟨hfirst, hrest⟩ := List.cons.inj hrows
          rw [List.map_eq_nil_iff.mp hrest, Value.dict.inj hfirst]
  · split_ifs at h with hempty
    · simp at h
    · split at h
      · next text hdict =>
          obtain ⟨hrows, -⟩ := (yields_pure _).mp h
          have hne : text.toList ≠ [] := by
            intro hnil
            rw [String.toList_eq_nil_iff] at hnil
            subst hnil
            exact hempty rfl
          exact absurd hrows (map_ne_dicts hne fun c row hc => by cases hc)
      · split at h
        · next items hitems =>
            obtain ⟨rfl, rfl⟩ := (yields_pure _).mp h
            refine ⟨.inr ?_, rfl⟩
            cases rows with
            | list items =>
                obtain rfl := Option.some.inj hitems
                refine ⟨rfl, ?_⟩
                rintro rfl
                exact hempty rfl
            | bytes octets =>
                have hoctets := Option.some.inj hitems
                have hne : octets ≠ [] := by
                  rintro rfl
                  exact hempty rfl
                exact absurd hoctets.symm (map_ne_dicts hne fun o row ho => by cases ho)
            | _ => cases hitems
        · simp at h

theorem params_columns {names : List String} {columns : List Sql}
    (h : List.Forall₂ (IsColumn t) names columns) : columns.flatMap Sql.params = [] := by
  induction h with
  | nil => rfl
  | cons hcolumn _ ih =>
      obtain ⟨key, -, hcolumn⟩ := hcolumn
      rw [List.flatMap_cons, (ColumnRow.of_column hcolumn).params_eq, ih, List.nil_append]

/-- The SQL of an insertion. -/
def insertion (table : Sql) (columns : List Sql) (rows : List (List Sql)) : Sql :=
  .text "INSERT INTO " :: table ++ .text " (" :: Sql.join ", " columns ++
    .text ") VALUES " :: Sql.join ", " (rows.map fun values =>
      Conditions.parenthesized (Sql.join ", " values))

/-- What the maps of raw values in the rows bring is named in the rows. -/
theorem brought_isRows {rows : Value} {dicts : List Dict} (h : IsRows rows dicts)
    (keys : List Value) :
    Supply.brought ((dicts.map Value.dict).flatMap (rowSupplies keys)) ⊆ rows.rawNames := by
  refine List.Subset.trans (brought_rowSupplies keys dicts) ?_
  obtain ⟨row, rfl, rfl⟩ | ⟨rfl, -⟩ := h
  · simp [Value.rawNames, Value.rawNamesOfItems]
  · exact List.Subset.refl _

/-- An insertion that compiles: its columns are those of the keys of its rows, each taken once, and the
items of its tuples stand in their places. -/
theorem yields_insert {table rows : Value} {c : Compiled} (h : (insert t table rows).Yields s c u) :
    ∃ (dicts : List Dict) (names : List String) (tableSql : Sql) (columns : List Sql)
      (tuples : List (List Sql)),
      IsRows rows dicts ∧ (dicts.flatMap fun row => row.map Prod.fst) = names.map Value.str ∧
      Identifier.table t.tablePrefix table = .ok tableSql ∧
      c.sql = insertion tableSql columns tuples ∧ c.params = u.bound ∧
      List.Forall₂ (IsColumn t) names.eraseDups columns ∧
      List.Forall₂ (fun row items =>
        List.Forall₂ (Placed t rows.rawNames u row) names.eraseDups items) dicts tuples ∧
      Counts s u (tuples.flatMap fun items => items.flatMap Sql.params) := by
  simp only [insert, yields_bind] at h
  obtain ⟨items, _, hitems, keys, _, hkeys, h⟩ := h
  obtain ⟨hparsed, -⟩ := yields_collectKeys_keys (List.forall_mem_nil _) hkeys
  have hnone : ([] : InsertKeys).map Prod.fst = ([] : List String).eraseDups.map Value.str := rfl
  obtain ⟨dicts, names, rfl, hnames, hcollected⟩ := exists_names_collectKeys hnone hkeys
  rw [List.nil_append] at hcollected
  have hnamed := named_of_parsed hparsed hcollected
  obtain rfl := yields_collectKeys hkeys
  obtain ⟨hrows, rfl⟩ := isRows_of_insertRows hitems
  split_ifs at h
  · simp at h
  · simp only [finish, Target.table, yields_bind, yields_lift, yields_get, yields_pure] at h
    obtain ⟨columns, _, hcolumns, found, _, hfound, tableSql, _, ⟨htable, rfl⟩, _, _, ⟨rfl, rfl⟩,
      rfl, rfl⟩ := h
    obtain ⟨hquoted, rfl⟩ := columns_of_named hnamed hcolumns
    obtain ⟨tuples, rfl, hplaced, hcounts⟩ :=
      placed_rowTuples hnamed (brought_isRows hrows _) hfound
    exact ⟨dicts, names, tableSql, columns, tuples, hrows, hnames, htable, rfl, rfl, hquoted, hplaced,
      hcounts⟩

/-- For every target and every counter, an insertion that compiles is one of mappings, whose keys are
texts. Each key is taken once, where it first appears: the columns of these keys are the columns of the
statement. There is one tuple for each row, in order, and one item in each tuple for each of the keys, in
order: the text of a raw value, or a placeholder for null if the row lacks the key and for the encoded
value otherwise. The placeholders of all items are numbered on from the counter. Each of them is bound to
its value, unless the map of a raw value in the rows names that placeholder; then it may be bound to an
equal value instead. -/
theorem rows_aligned_with_columns {t : Target} {table rows : Value} {next last : Nat} {c : Compiled}
    (h : run (insert t table rows) next = (.ok c, last)) :
    ∃ (dicts : List Dict) (names : List String) (tableSql : Sql) (columns : List Sql)
      (tuples : List (List Sql)),
      IsRows rows dicts ∧ (dicts.flatMap fun row => row.map Prod.fst) = names.map Value.str ∧
      Identifier.table t.tablePrefix table = .ok tableSql ∧
      c.sql = insertion tableSql columns tuples ∧
      List.Forall₂ (IsColumn t) names.eraseDups columns ∧
      List.Forall₂ (fun row items =>
        List.Forall₂ (Cell t rows.rawNames c.params row) names.eraseDups items) dicts tuples ∧
      c.sql.params = (List.range' next (last - next)).map generated := by
  obtain ⟨u, hyields, rfl⟩ := yields_of_run h
  obtain ⟨dicts, names, tableSql, columns, tuples, hrows, hnames, htable, hsql, hbound, hcolumns,
    hplaced, hcounts⟩ := yields_insert hyields
  refine ⟨dicts, names, tableSql, columns, tuples, hrows, hnames, htable, hsql, hcolumns, ?_, ?_⟩
  · rw [hbound]
    exact hplaced.imp fun row items hitems => hitems.imp fun name item hitem => hitem.1
  · have hparams : c.sql.params = tuples.flatMap fun items => items.flatMap Sql.params := by
      obtain ⟨name, -, rfl⟩ := Identifier.table_eq htable
      rw [hsql]
      simp [insertion, Conditions.parenthesized, Sql.params_join, params_columns hcolumns,
        List.flatMap_map]
    have hgiven : u.next - next = c.sql.params.length := by
      rw [hparams]
      exact Nat.sub_eq_of_eq_add' hcounts.next
    rw [hgiven, hparams]
    exact hcounts.fresh

/-- Two rows, each of which lacks a key of the other, with a container and a raw value. -/
def unevenRows : List Dict :=
  [[(.str "a", .int 1), (.str "meta [JSON]", .list [.int 1, .int 2])],
    [(.str "meta [JSON]", .raw "json_array()" []), (.str "flag", .bool true)]]

theorem rows_aligned_with_columns_of_uneven_rows :
    ∃ c last, run (insert ⟨.sqlite, ""⟩ (.str "t") (.list (unevenRows.map .dict))) 0 = (.ok c, last) ∧
      c.text = "INSERT INTO \"t\" (\"a\", \"meta\", \"flag\") VALUES " ++
        "(:param_0, :param_1, :param_2), (:param_3, json_array(), :param_4)" ∧
      ∃ (dicts : List Dict) (names : List String) (tableSql : Sql) (columns : List Sql)
        (tuples : List (List Sql)),
        IsRows (.list (unevenRows.map .dict)) dicts ∧
        (dicts.flatMap fun row => row.map Prod.fst) = names.map Value.str ∧
        Identifier.table "" (.str "t") = .ok tableSql ∧
        c.sql = insertion tableSql columns tuples ∧
        List.Forall₂ (IsColumn ⟨.sqlite, ""⟩) names.eraseDups columns ∧
        List.Forall₂ (fun row items =>
          List.Forall₂ (Cell ⟨.sqlite, ""⟩ (Value.list (unevenRows.map .dict)).rawNames c.params row)
            names.eraseDups items) dicts tuples ∧
        c.sql.params = (List.range' 0 (last - 0)).map generated := by
  generalize hrows : Value.list (unevenRows.map .dict) = rows
  have htext : (run (insert ⟨.sqlite, ""⟩ (.str "t") rows) 0).1.toOption.map Compiled.text =
      some ("INSERT INTO \"t\" (\"a\", \"meta\", \"flag\") VALUES " ++
        "(:param_0, :param_1, :param_2), (:param_3, json_array(), :param_4)") := by
    subst hrows
    decide +kernel
  obtain ⟨c, last, hrun, htext⟩ := exists_run_of_map htext
  exact ⟨c, last, hrun, htext, rows_aligned_with_columns hrun⟩

/-- A raw value that names the placeholder of another cell binds it to an equal value of another kind. -/
theorem raw_map_replaces_value :
    ∃ c last, run (insert ⟨.sqlite, ""⟩ (.str "t")
        (.dict [(.str "a", .int 1),
          (.str "b", .raw "x" [(.str "param_0", .float (.ofInt 1))])])) 0 = (.ok c, last) ∧
      c.text = "INSERT INTO \"t\" (\"a\", \"b\") VALUES (:param_0, x)" ∧
      Assoc.get? "param_0" c.params = some (.float (.ofInt 1)) ∧
      Assoc.get? "param_0" c.params ≠ some (.int 1) := by
  generalize hrow : Value.dict [(.str "a", .int 1),
    (.str "b", .raw "x" [(.str "param_0", .float (.ofInt 1))])] = row
  have hfound : (run (insert ⟨.sqlite, ""⟩ (.str "t") row) 0).1.toOption.map
      (fun c => (c.text, Assoc.get? "param_0" c.params)) =
      some ("INSERT INTO \"t\" (\"a\", \"b\") VALUES (:param_0, x)", some (.float (.ofInt 1))) := by
    subst hrow
    with_unfolding_all rfl
  obtain ⟨c, last, hrun, hfound⟩ := exists_run_of_map hfound
  obtain ⟨htext, hget⟩ := Prod.mk.inj hfound
  refine ⟨c, last, hrun, htext, hget, ?_⟩
  rw [hget]
  exact nofun

end Statement

end QueryLoom
