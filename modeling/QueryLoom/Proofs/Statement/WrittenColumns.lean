import QueryLoom.Proofs.Statement.Insertions

/-!
The columns that a write names. Keys are taken apart as texts, and columns are what the keys are read as:
an insertion takes each key of its rows once, an update each entry of its data, and neither looks at the
columns again. So a write names each column once exactly if no two of its keys have one stem.
-/

namespace QueryLoom.Statement

open Compile
open Key (stem)

variable {t : Target} {s u : Parameters} {names : List String} {columns : List Sql}

/-! Keys and columns. -/

theorem exists_path_of_isColumn {name : String} {column : Sql} (h : IsColumn t name column) :
    ∃ path : Key.Path, path.IsNamed ∧ stem name = path.text ∧ column = path.quoted t.tablePrefix := by
  obtain ⟨key, hkey, hcolumn⟩ := h
  obtain ⟨path, hnamed, hpath, hstem⟩ := Key.exists_path_of_dataKey hkey
  rw [hpath, Identifier.column_path hnamed] at hcolumn
  exact ⟨path, hnamed, hstem, (Except.ok.inj hcolumn).symm⟩

/-- Two keys name one column exactly if they have one stem. -/
theorem text_eq_iff_stem_eq {name other : String} {column otherColumn : Sql}
    (h : IsColumn t name column) (hother : IsColumn t other otherColumn) :
    column.text = otherColumn.text ↔ stem name = stem other := by
  obtain ⟨path, hpath, hstem, rfl⟩ := exists_path_of_isColumn h
  obtain ⟨path', hpath', hstem', rfl⟩ := exists_path_of_isColumn hother
  rw [hstem, hstem']
  constructor
  · intro htext
    rw [Key.Path.text_quoted_injective hpath hpath' htext]
  · intro htext
    have hcolumn := Identifier.column_path hpath t.tablePrefix
    rw [htext, Identifier.column_path hpath'] at hcolumn
    rw [Except.ok.inj hcolumn]

theorem text_mem_columns_iff {name : String} {column : Sql} (h : IsColumn t name column)
    (hcolumns : List.Forall₂ (IsColumn t) names columns) :
    column.text ∈ columns.map Sql.text ↔ stem name ∈ names.map stem := by
  induction hcolumns with
  | nil => simp
  | cons hfirst _ ih =>
      rw [List.map_cons, List.map_cons, List.mem_cons, List.mem_cons, ih,
        text_eq_iff_stem_eq h hfirst]

/-- Columns are distinct exactly if the stems of their keys are. -/
theorem nodup_columns_iff (h : List.Forall₂ (IsColumn t) names columns) :
    (columns.map Sql.text).Nodup ↔ (names.map stem).Nodup := by
  induction h with
  | nil => simp
  | cons hfirst hrest ih =>
      rw [List.map_cons, List.map_cons, List.nodup_cons, List.nodup_cons,
        text_mem_columns_iff hfirst hrest, ih]

/-! Updates. -/

/-- An assignment: a column, and what it is set to. -/
def assigns (assignment : Sql × Sql) : Sql := assignment.1 ++ .text " = " :: assignment.2

theorem exists_column_assignment {key v : Value} {set : Sql}
    (h : (assignment t key v).Yields s set u) :
    ∃ name column operand, key = .str name ∧ IsColumn t name column ∧
      set = assigns (column, operand) := by
  simp only [assignment, Target.column, yields_bind, yields_lift] at h
  obtain ⟨parsed, _, ⟨hparsed, rfl⟩, column, _, ⟨hcolumn, rfl⟩, h⟩ := h
  cases key with
  | str name =>
      have hassigns : ∃ operand, set = assigns (column, operand) := by
        split at h
        · simp only [yields_bind, yields_pure] at h
          obtain ⟨operand, _, _, rfl, -⟩ := h
          exact ⟨operand, rfl⟩
        · split_ifs at h
          · simp at h
          · simp only [yields_bind, yields_pure] at h
            obtain ⟨operand, _, _, rfl, -⟩ := h
            exact ⟨_, by rw [assigns, List.append_assoc, List.cons_append]⟩
        · simp only [yields_bind, yields_pure] at h
          obtain ⟨_, _, _, operand, _, _, rfl, -⟩ := h
          exact ⟨operand, rfl⟩
      obtain ⟨operand, rfl⟩ := hassigns
      exact ⟨name, column, operand, rfl, ⟨parsed, hparsed, hcolumn⟩, rfl⟩
  | _ => cases hparsed

/-- Every entry of the data assigns the column of its key. -/
theorem exists_columns_assignments {entries : Dict} {sets : List Sql}
    (h : (assignments t entries).Yields s sets u) :
    ∃ (names : List String) (sides : List (Sql × Sql)),
      entries.map Prod.fst = names.map Value.str ∧ sets = sides.map assigns ∧
      List.Forall₂ (IsColumn t) names (sides.map Prod.fst) := by
  induction entries generalizing s sets with
  | nil =>
      rw [assignments, yields_pure] at h
      exact ⟨[], [], rfl, h.1, .nil⟩
  | cons entry rest ih =>
      simp only [assignments, yields_bind, yields_pure] at h
      obtain ⟨first, _, hfirst, more, _, hmore, rfl, rfl⟩ := h
      obtain ⟨name, column, operand, hname, hcolumn, rfl⟩ := exists_column_assignment hfirst
      obtain ⟨names, sides, hnames, rfl, hcolumns⟩ := ih hmore
      refine ⟨name :: names, (column, operand) :: sides, ?_, rfl, .cons hcolumn hcolumns⟩
      rw [List.map_cons, List.map_cons, hname, hnames]

theorem yields_update {table data wheres : Value} {c : Compiled}
    (h : (update t table data wheres).Yields s c u) :
    ∃ (entries : Dict) (names : List String) (tableSql : Sql) (sides : List (Sql × Sql)) (tail : Sql),
      data = .dict entries ∧ entries.map Prod.fst = names.map Value.str ∧
      Identifier.table t.tablePrefix table = .ok tableSql ∧
      c.sql = append (.text "UPDATE " :: tableSql ++ .text " SET " ::
        Sql.join ", " (sides.map assigns)) tail ∧
      List.Forall₂ (IsColumn t) names (sides.map Prod.fst) := by
  unfold update at h
  split at h
  · next entry rest =>
      simp only [updateOf, finish, Target.table, yields_bind, yields_lift, yields_get,
        yields_pure] at h
      obtain ⟨sets, _, hsets, tableSql, _, ⟨htable, rfl⟩, tail, _, -, _, _, ⟨rfl, rfl⟩, rfl, -⟩ := h
      obtain ⟨names, sides, hnames, rfl, hcolumns⟩ := exists_columns_assignments hsets
      exact ⟨entry :: rest, names, tableSql, sides, tail, rfl, hnames, htable, rfl, hcolumns⟩
  · simp at h

/-- For every target and every counter: the columns of an insertion that compiles are those of the keys
of its rows, each key taken once, and they are distinct exactly if these keys have different stems. The
columns that an update assigns are those of the keys of its data, and they are distinct exactly if these
keys have different stems. A column that is spelled in two ways, by blanks or by a suffix, is named
twice. -/
theorem written_columns_distinct_iff (t : Target) (next last : Nat) (c : Compiled) :
    (∀ table rows, run (insert t table rows) next = (.ok c, last) →
      ∃ (dicts : List Dict) (names : List String) (tableSql : Sql) (columns : List Sql)
          (tuples : List (List Sql)),
        IsRows rows dicts ∧ (dicts.flatMap fun row => row.map Prod.fst) = names.map Value.str ∧
        Identifier.table t.tablePrefix table = .ok tableSql ∧
        c.sql = insertion tableSql columns tuples ∧
        List.Forall₂ (IsColumn t) names.eraseDups columns ∧
        ((columns.map Sql.text).Nodup ↔ (names.eraseDups.map stem).Nodup)) ∧
    ∀ table data wheres, run (update t table data wheres) next = (.ok c, last) →
      ∃ (entries : Dict) (names : List String) (tableSql : Sql) (sides : List (Sql × Sql)) (tail : Sql),
        data = .dict entries ∧ entries.map Prod.fst = names.map Value.str ∧
        Identifier.table t.tablePrefix table = .ok tableSql ∧
        c.sql = append (.text "UPDATE " :: tableSql ++ .text " SET " ::
          Sql.join ", " (sides.map assigns)) tail ∧
        List.Forall₂ (IsColumn t) names (sides.map Prod.fst) ∧
        (((sides.map Prod.fst).map Sql.text).Nodup ↔ (names.map stem).Nodup) := by
  constructor
  · intro table rows hrun
    obtain ⟨u, hyields, -⟩ := yields_of_run hrun
    obtain ⟨dicts, names, tableSql, columns, tuples, hrows, hnames, htable, hsql, -, hcolumns, -⟩ :=
      yields_insert hyields
    exact ⟨dicts, names, tableSql, columns, tuples, hrows, hnames, htable, hsql, hcolumns,
      nodup_columns_iff hcolumns⟩
  · intro table data wheres hrun
    obtain ⟨u, hyields, -⟩ := yields_of_run hrun
    obtain ⟨entries, names, tableSql, sides, tail, hdata, hnames, htable, hsql, hcolumns⟩ :=
      yields_update hyields
    exact ⟨entries, names, tableSql, sides, tail, hdata, hnames, htable, hsql, hcolumns,
      nodup_columns_iff hcolumns⟩

/-- Rows of which each lacks a key of the other, and an update of two columns. -/
theorem written_columns_distinct_iff_of_stems :
    (∃ c last, run (insert ⟨.sqlite, ""⟩ (.str "t") (.list (unevenRows.map .dict))) 0 = (.ok c, last) ∧
      ∃ (dicts : List Dict) (names : List String) (tableSql : Sql) (columns : List Sql)
          (tuples : List (List Sql)),
        IsRows (.list (unevenRows.map .dict)) dicts ∧
        (dicts.flatMap fun row => row.map Prod.fst) = names.map Value.str ∧
        Identifier.table "" (.str "t") = .ok tableSql ∧
        c.sql = insertion tableSql columns tuples ∧
        List.Forall₂ (IsColumn ⟨.sqlite, ""⟩) names.eraseDups columns ∧
        ((columns.map Sql.text).Nodup ↔ (names.eraseDups.map stem).Nodup)) ∧
    ∃ c last, run (update ⟨.sqlite, ""⟩ (.str "t")
        (.dict [(.str "n[+]", .int 1), (.str " u.m ", .int 2)]) .null) 0 = (.ok c, last) ∧
      c.text = "UPDATE \"t\" SET \"n\" = \"n\" + :param_0, \"u\".\"m\" = :param_1" ∧
      ∃ (entries : Dict) (names : List String) (tableSql : Sql) (sides : List (Sql × Sql)) (tail : Sql),
        .dict [(.str "n[+]", .int 1), (.str " u.m ", .int 2)] = Value.dict entries ∧
        entries.map Prod.fst = names.map Value.str ∧
        Identifier.table "" (.str "t") = .ok tableSql ∧
        c.sql = append (.text "UPDATE " :: tableSql ++ .text " SET " ::
          Sql.join ", " (sides.map assigns)) tail ∧
        List.Forall₂ (IsColumn ⟨.sqlite, ""⟩) names (sides.map Prod.fst) ∧
        (((sides.map Prod.fst).map Sql.text).Nodup ↔ (names.map stem).Nodup) := by
  constructor
  · have hparams : (run (insert ⟨.sqlite, ""⟩ (.str "t") (.list (unevenRows.map .dict)))
        0).1.toOption.map (fun c => c.sql.params.length) = some 5 := by
      decide +kernel
    obtain ⟨c, last, hrun, -⟩ := exists_run_of_map hparams
    exact ⟨c, last, hrun, (written_columns_distinct_iff _ _ _ _).1 _ _ hrun⟩
  · generalize hdata : Value.dict [(.str "n[+]", .int 1), (.str " u.m ", .int 2)] = data
    have htext : (run (update ⟨.sqlite, ""⟩ (.str "t") data .null) 0).1.toOption.map Compiled.text =
        some "UPDATE \"t\" SET \"n\" = \"n\" + :param_0, \"u\".\"m\" = :param_1" := by
      subst hdata
      decide +kernel
    obtain ⟨c, last, hrun, htext⟩ := exists_run_of_map htext
    exact ⟨c, last, hrun, htext, (written_columns_distinct_iff _ _ _ _).2 _ _ _ hrun⟩

/-- One column in two spellings, in the rows of an insertion and in the data of an update. -/
theorem column_written_twice :
    (∃ c last, run (insert ⟨.sqlite, ""⟩ (.str "t")
        (.list [.dict [(.str "meta", .int 1)], .dict [(.str "meta [JSON]", .int 2)]])) 0 =
        (.ok c, last) ∧
      c.text = "INSERT INTO \"t\" (\"meta\", \"meta\") VALUES " ++
        "(:param_0, :param_1), (:param_2, :param_3)") ∧
    ∃ c last, run (update ⟨.sqlite, ""⟩ (.str "t")
        (.dict [(.str "n[+]", .int 1), (.str "n", .int 2)]) .null) 0 = (.ok c, last) ∧
      c.text = "UPDATE \"t\" SET \"n\" = \"n\" + :param_0, \"n\" = :param_1" := by
  constructor
  · exact exists_run_of_map (by decide +kernel)
  · exact exists_run_of_map (by decide +kernel)

end QueryLoom.Statement
