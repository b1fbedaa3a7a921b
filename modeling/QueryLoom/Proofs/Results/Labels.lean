import QueryLoom.Proofs.Results.Inverse
import QueryLoom.Proofs.Statement.Reads
import QueryLoom.Proofs.Values.Keys

/-!
What a row keeps of the columns that a selection asks for. A row that is read into a dictionary has one
entry for each label, which holds the value of the last column with that label, and the type under the
label is the one that this column declares. So no column is lost exactly if the labels are distinct. Two
columns that differ by their tables only have one label, and a selection of both compiles.
-/

namespace QueryLoom

/-! Rows. -/

/-- The row that a database reports for the values of labelled columns. -/
def reportedRow (cells : List (String × Value)) : Row :=
  rowOfColumns (cells.map fun cell => .str cell.1) (cells.map Prod.snd)

theorem reportedRow_eq (cells : List (String × Value)) :
    reportedRow cells = Assoc.merge [] (Statement.namedValues cells) := by
  have hzip : (cells.map fun cell => Value.str cell.1).zip (cells.map Prod.snd) =
      Statement.namedValues cells := by
    rw [List.zip_map']
    rfl
  rw [reportedRow, rowOfColumns, hzip]
  rfl

/-- Of columns with one label the last one has its value in the row. -/
theorem get?_reportedRow {before after : List (String × Value)} {label : String} {v : Value}
    (hafter : ∀ cell ∈ after, cell.1 ≠ label) :
    Dict.get? (reportedRow (before ++ (label, v) :: after)) label = some v := by
  rw [reportedRow_eq, Statement.namedValues, List.map_append, List.map_cons]
  refine (Assoc.plain_str label).get?_merge_last ?_
  intro entry hentry
  obtain ⟨cell, hcell, rfl⟩ := List.mem_map.mp hentry
  exact fun heq => hafter cell hcell (Value.str.inj heq)

/-- Columns with distinct labels all have their values in the row. -/
theorem get?_reportedRow_of_nodup {cells : List (String × Value)}
    (hnodup : (cells.map Prod.fst).Nodup) {cell : String × Value} (hcell : cell ∈ cells) :
    Dict.get? (reportedRow cells) cell.1 = some cell.2 := by
  obtain ⟨before, after, rfl⟩ := List.append_of_mem hcell
  refine get?_reportedRow fun other hother heq => ?_
  rw [List.map_append, List.map_cons, List.nodup_append, List.nodup_cons] at hnodup
  exact hnodup.2.1.1 (List.mem_map.mpr ⟨other, hother, heq⟩)

/-- Rows keep every column exactly if the labels are distinct. -/
theorem nodup_iff_reported (names : List String) :
    names.Nodup ↔ ∀ cells : List (String × Value), cells.map Prod.fst = names →
      ∀ cell ∈ cells, Dict.get? (reportedRow cells) cell.1 = some cell.2 := by
  constructor
  · rintro hnodup cells rfl cell hcell
    exact get?_reportedRow_of_nodup hnodup hcell
  · intro h
    -- numbers that tell the places apart
    let cells : List (String × Value) := names.zipIdx.map fun (name, i) => (name, .int i)
    have hcells := h cells (by simp [cells, Function.comp_def])
    have hplace : ∀ k (hk : k < names.length),
        Dict.get? (reportedRow cells) names[k] = some (.int k) := by
      intro k hk
      refine hcells (names[k], .int k) (List.mem_map.mpr ⟨(names[k], k), ?_, rfl⟩)
      rw [List.mk_mem_zipIdx_iff_getElem?]
      exact List.getElem?_eq_getElem hk
    rw [List.Nodup, List.pairwise_iff_getElem]
    intro i j hi hj hlt heq
    have hsame := hplace i hi
    rw [heq, hplace j hj] at hsame
    have hint : (j : Int) = i := Value.int.inj (Option.some.inj hsame)
    omega

namespace ColumnTree

variable {tree : ColumnTree}

/-- Of columns with one label the last one declares the type. -/
theorem get?_labels_last {before after : List ColumnRef} {ref : ColumnRef}
    (hrefs : tree.labelledRefs = before ++ ref :: after)
    (hafter : ∀ other ∈ after, other.outputName ≠ ref.outputName) :
    Assoc.get? ref.outputName tree.labels = some ref.resultType := by
  rw [labels, hrefs, List.map_append, List.map_cons]
  refine (Assoc.plain_string _).get?_merge_last ?_
  intro entry hentry
  obtain ⟨other, hother, rfl⟩ := List.mem_map.mp hentry
  exact hafter other hother

end ColumnTree

/-! Selections. -/

namespace Statement

open Compile

variable {t : Target} {s u : Parameters} {table wheres join : Value} {head sql : Sql}

/-- A selection that compiles selects the projection of its column tree. -/
theorem projection_select {columns : Value} {c : Compiled}
    (h : (select t table columns wheres join).Yields s c u) :
    ∃ tree projection w rest, ColumnSpec.parse columns = .ok tree ∧
      (Projection.compile t join.truthy tree).Yields s projection w ∧ c.columns = some tree ∧
      c.sql = .text "SELECT " :: projection ++ .text " FROM " :: rest := by
  simp only [select, finish, yields_bind, yields_lift, yields_get, yields_pure] at h
  obtain ⟨tree, _, ⟨hparse, rfl⟩, projection, w, hprojection, sql, _, hsql, _, _, ⟨rfl, rfl⟩, rfl,
    rfl⟩ := h
  obtain ⟨rest, rfl⟩ := from_selectFrom hsql
  exact ⟨tree, projection, w, rest, hparse, hprojection, rfl, rfl⟩

/-- For every target, every counter and every selection that compiles, with joins or without: if the
columns are named without wildcards, the labels of the projection are the output names of the
specification, the index column first. The row that is read under these labels holds under each of them
the value of the last column with it, and the type found under it is the one that this column declares;
so every row keeps every column exactly if the output names are distinct. -/
theorem select_keeps_columns_iff {columns : Value} {next last : Nat} {c : Compiled}
    (hrun : run (select t table columns wheres join) next = (.ok c, last)) :
    ∃ tree projection rest, ColumnSpec.parse columns = .ok tree ∧ c.columns = some tree ∧
      c.sql = .text "SELECT " :: projection ++ .text " FROM " :: rest ∧
      (tree.isExplicit = true →
        Projection.labels projection = tree.outputNames ∧
        (tree.outputNames.Nodup ↔ ∀ cells : List (String × Value),
          cells.map Prod.fst = Projection.labels projection →
            ∀ cell ∈ cells, Dict.get? (reportedRow cells) cell.1 = some cell.2) ∧
        (∀ before label v after,
          (before ++ (label, v) :: after).map Prod.fst = Projection.labels projection →
          (∀ cell ∈ after, cell.1 ≠ label) →
            Dict.get? (reportedRow (before ++ (label, v) :: after)) label = some v) ∧
        ∀ before ref after, tree.refs = before ++ ref :: after →
          (∀ other ∈ after, other.outputName ≠ ref.outputName) →
            Assoc.get? ref.outputName tree.labels = some ref.resultType) := by
  obtain ⟨u, hyields, -⟩ := yields_of_run hrun
  obtain ⟨tree, projection, w, rest, hparse, hprojection, hcolumns, hsql⟩ := projection_select hyields
  refine ⟨tree, projection, rest, hparse, hcolumns, hsql, fun hexplicit => ?_⟩
  have hread : ColumnNode.AreRead (fun _ => True) tree.nodes :=
    ColumnSpec.areRead_parse .true trivial hparse
  have hlabels := Projection.labels_compile hread hexplicit hprojection
  rw [hlabels]
  refine ⟨rfl, nodup_iff_reported _, ?_, ?_⟩
  · intro before label v after _ hafter
    exact get?_reportedRow hafter
  · intro before ref after hrefs hafter
    exact ColumnTree.get?_labels_last ((ColumnTree.labelledRefs_eq hexplicit).trans hrefs) hafter

/-- Two columns of joined tables, one of them with an alias, are both in every row. -/
theorem select_keeps_columns_iff_of_alias :
    ∃ c last projection,
      run (select ⟨.sqlite, ""⟩ (.str "posts") (.list [.str "posts.name", .str "users.name(author)"])
        .null (.dict [(.str "[>]users", .dict [(.str "user_id", .str "id")])])) 0 = (.ok c, last) ∧
      c.text = "SELECT \"posts\".\"name\", \"users\".\"name\" AS \"author\" FROM \"posts\" " ++
        "LEFT JOIN \"users\" ON \"posts\".\"user_id\" = \"users\".\"id\"" ∧
      Projection.labels projection = ["name", "author"] ∧
      ∀ post author : Value,
        Dict.get? (reportedRow [("name", post), ("author", author)]) "name" = some post ∧
        Dict.get? (reportedRow [("name", post), ("author", author)]) "author" = some author := by
  generalize hjoin : Value.dict [(.str "[>]users", .dict [(.str "user_id", .str "id")])] = join
  generalize hspec : Value.list [.str "posts.name", .str "users.name(author)"] = columns
  generalize htree : ColumnTree.columns [.field ⟨some "posts", "name", none, none⟩,
    .field ⟨some "users", "name", some "author", none⟩] = tree
  have htext : (run (select ⟨.sqlite, ""⟩ (.str "posts") columns .null join)
      0).1.toOption.map Compiled.text =
      some ("SELECT \"posts\".\"name\", \"users\".\"name\" AS \"author\" FROM \"posts\" " ++
        "LEFT JOIN \"users\" ON \"posts\".\"user_id\" = \"users\".\"id\"") := by
    subst hjoin hspec
    decide +kernel
  have hparse : ColumnSpec.parse columns = .ok tree := by
    subst hspec htree
    rfl
  rcases hrun : run (select ⟨.sqlite, ""⟩ (.str "posts") columns .null join) 0 with ⟨_ | c, last⟩
  · simp [hrun, Except.toOption] at htext
  simp only [hrun, Except.toOption, Option.map_some, Option.some.injEq] at htext
  obtain ⟨parsed, projection, rest, hparsed, -, -, hkeeps⟩ := select_keeps_columns_iff hrun
  obtain rfl : tree = parsed := Except.ok.inj (hparse.symm.trans hparsed)
  have hnames : tree.outputNames = ["name", "author"] := by
    subst htree
    rfl
  obtain ⟨hlabels, hall, -⟩ := hkeeps (by subst htree; rfl)
  rw [hlabels, hnames] at hall
  refine ⟨c, last, projection, rfl, htext, hlabels.trans hnames, fun post author => ?_⟩
  have hrow := hall.mp (by decide) [("name", post), ("author", author)] rfl
  exact ⟨hrow ("name", post) (by simp), hrow ("author", author) (by simp)⟩

/-- Of two columns that differ by their tables only, a row keeps one. -/
theorem equal_labels_lose_column :
    ∃ c last projection rest,
      run (select ⟨.sqlite, ""⟩ (.str "posts") (.list [.str "users.name", .str "posts.name"])
        .null (.dict [(.str "[>]users", .dict [(.str "user_id", .str "id")])])) 0 = (.ok c, last) ∧
      c.columns.map ColumnTree.isExplicit = some true ∧
      c.sql = .text "SELECT " :: projection ++ .text " FROM " :: rest ∧
      Projection.labels projection = ["name", "name"] ∧
      Dict.get? (reportedRow [("name", .str "Ann"), ("name", .str "First")]) "name" =
        some (.str "First") := by
  have hcompiled : (run (select ⟨.sqlite, ""⟩ (.str "posts")
      (.list [.str "users.name", .str "posts.name"]) .null
      (.dict [(.str "[>]users", .dict [(.str "user_id", .str "id")])])) 0).1.toOption.map
        (fun c => (c.columns.map ColumnTree.isExplicit, c.sql)) =
      some (some true, .text "SELECT " ::
        [.name "users", .text ".", .name "name", .text ", ", .name "posts", .text ".", .name "name"] ++
        .text " FROM " :: [.name "posts", .text " ", .text "LEFT JOIN ", .name "users", .text " ",
          .text "ON ", .name "posts", .text ".", .name "user_id", .text " = ", .name "users",
          .text ".", .name "id"]) := by
    decide +kernel
  rcases hrun : run (select ⟨.sqlite, ""⟩ (.str "posts")
    (.list [.str "users.name", .str "posts.name"]) .null
    (.dict [(.str "[>]users", .dict [(.str "user_id", .str "id")])])) 0 with ⟨_ | c, last⟩
  · simp [hrun, Except.toOption] at hcompiled
  · simp only [hrun, Except.toOption, Option.map_some, Option.some.injEq, Prod.mk.injEq] at hcompiled
    exact ⟨c, last, _, _, rfl, hcompiled.1, hcompiled.2, rfl, rfl⟩

end Statement

end QueryLoom
