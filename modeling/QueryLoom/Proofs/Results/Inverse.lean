import QueryLoom.Execution.Executor
import QueryLoom.Proofs.Columns.Projected
import QueryLoom.Proofs.Results.Outcome
import QueryLoom.Proofs.Statement.Alignment

/-!
Mapping undoes the projection. A database reports the values of a row under the labels of the compiled
projection. If no two labels are the same, mapping the rows puts every value where the specification
has its column, coerced to the type that this column is declared to have: the nesting and the order of
the keys are those of the specification, and the place of a value is that of its column among all
selected ones.
-/

namespace QueryLoom

open List (Forall₂)

/-! What a specification asks for. -/

/-- The value that a column holds for a value that the database reports. -/
def ColumnRef.coerced (nesting : Nat) (ref : ColumnRef) (v : Value) : Except Fault Value :=
  (Shape.run (Coercion.coerce nesting ref.resultType ref.outputName v)).1

namespace ColumnNode

/-- The key that a node has among its siblings. -/
def key : ColumnNode → String
  | .group key _ => key
  | .raw ref _ _ => ref.outputName
  | .field ref => ref.outputName

/-- The columns of a node, in order. -/
def refs (n : ColumnNode) : List ColumnRef := n.leaves.filterMap ref?

mutual

/-- Whether the keys in each object below a node are distinct. -/
def distinctKeys : ColumnNode → Bool
  | .group _ children => distinctKeysOf children
  | .field _ | .raw _ _ _ => true
termination_by structural n => n

def distinctKeysOf : List ColumnNode → Bool
  | [] => true
  | n :: rest => !(rest.map key).contains n.key && n.distinctKeys && distinctKeysOf rest
termination_by structural ns => ns

end

mutual

/-- What stands for a node in its object, given the values of its columns. -/
def content : ColumnNode → List Value → Value
  | .group _ children, cells => .dict (objectOf children cells)
  | .raw _ _ _, cells => cells.headD .null
  | .field _, cells => cells.headD .null
termination_by structural n => n

/-- The object that nodes ask for: each has its key, in order, and takes as many values as it has
columns. -/
def objectOf : List ColumnNode → List Value → Dict
  | [], _ => []
  | n :: rest, cells =>
      (.str n.key, n.content (cells.take n.refs.length)) ::
        objectOf rest (cells.drop n.refs.length)
termination_by structural ns => ns

end

theorem refsOf_cons (n : ColumnNode) (rest : List ColumnNode) :
    refsOf (n :: rest) = n.refs ++ refsOf rest := by
  simp [refsOf, refs, leavesOf]

end ColumnNode

namespace ColumnTree

/-- How many values of a row come before those of the columns: one for an index. -/
def indexWidth (tree : ColumnTree) : Nat := tree.indexColumn?.toList.length

/-- The values of a row without that of the index column. -/
def cells (tree : ColumnTree) (values : List Value) : List Value := values.drop tree.indexWidth

/-- A row as the database reports it, and the values of its columns after coercion. A row may be
longer than the projection; what it has more has no label. The value of an index column has to be
one that can be a key. -/
structure Coerced (nesting : Nat) (tree : ColumnTree) (values found : List Value) : Prop where
  length : tree.outputNames.length ≤ values.length
  index : tree.indexKey?.isSome = true → (values.headD .null).isHashable = true
  cells : Forall₂ (fun cell v => cell.1.coerced nesting cell.2 = .ok v)
    (tree.refs.zip (tree.cells values)) found

/-- The result that a tree asks for, given the values of each row before and after coercion: the
values themselves for a single column, objects under the values of the index column for an index, and
otherwise one object for each row. -/
def result (tree : ColumnTree) (rows : List (List Value × List Value)) : Value :=
  match tree with
  | .everything => .list []
  | .single _ => .list (rows.map fun row => row.2.headD .null)
  | .indexed _ children =>
      .dict (Assoc.ofList (rows.map fun row =>
        (row.1.headD .null, .dict (ColumnNode.objectOf children row.2))))
  | .columns nodes => .list (rows.map fun row => .dict (ColumnNode.objectOf nodes row.2))

end ColumnTree

/-! Maps with distinct keys. -/

namespace Assoc

variable {ν : Type}

theorem get?_of_mem {entries : List (String × ν)} (h : (entries.map Prod.fst).Nodup) {key : String}
    {v : ν} (hmem : (key, v) ∈ entries) : get? key entries = some v := by
  induction entries with
  | nil => cases hmem
  | cons entry rest ih =>
      obtain ⟨first, w⟩ := entry
      rw [List.map_cons, List.nodup_cons] at h
      rw [get?]
      rcases List.mem_cons.mp hmem with heq | hrest
      · cases heq
        simp
      · have hne : first ≠ key := by
          rintro rfl
          exact h.1 (List.mem_map.mpr ⟨(first, v), hrest, rfl⟩)
        rw [if_neg (by simpa using hne)]
        exact ih h.2 hrest

theorem merge_of_nodup (entries : List (String × ν)) {more : List (String × ν)}
    (h : ((entries ++ more).map Prod.fst).Nodup) : merge entries more = entries ++ more := by
  induction more generalizing entries with
  | nil => rw [List.append_nil, merge, List.foldl_nil]
  | cons entry rest ih =>
      obtain ⟨key, v⟩ := entry
      have hnew : key ∉ entries.map Prod.fst := by
        rw [List.map_append, List.map_cons] at h
        intro hmem
        exact (List.nodup_append.mp h).2.2 key hmem key (by simp) rfl
      have hnext := ih (entries ++ [(key, v)]) (by simpa using h)
      rw [List.append_assoc, List.singleton_append] at hnext
      rw [← hnext, ← insert_of_not_mem hnew]
      rfl

end Assoc

theorem Dict.insert_new {object : Dict} {key : String} (v : Value)
    (h : Value.str key ∉ object.map Prod.fst) :
    Assoc.insert (Value.str key) v object = object ++ [(.str key, v)] := by
  induction object with
  | nil => rfl
  | cons entry rest ih =>
      obtain ⟨first, w⟩ := entry
      rw [List.map_cons, List.mem_cons, not_or] at h
      have hne : (first == Value.str key) = false := by
        cases hbeq : first == Value.str key with
        | false => rfl
        | true => exact absurd (Value.eq_str_of_beq hbeq).symm h.1
      rw [Assoc.insert, hne, if_neg Bool.false_ne_true, ih h.2, List.cons_append]

/-! Objects. -/

namespace Shape

variable {nesting : Nat} {labels : ColumnLabels} {row : Row}

/-- Reading a column from a row gives a value. -/
def Reads (nesting : Nat) (labels : ColumnLabels) (row : Row) (ref : ColumnRef) (v : Value) : Prop :=
  (readLabel nesting labels row ref.outputName).EndsIn (.ok v)

/-- Nodes whose columns are read one after the other add their object to what stands there. -/
theorem endsIn_addNodes :
    (∀ n : ColumnNode, n.distinctKeys = true → (∀ ref ∈ n.refs, ref.isWildcard = false) →
      ∀ (object : Dict) (found : List Value), Value.str n.key ∉ object.map Prod.fst →
        Forall₂ (Reads nesting labels row) n.refs found →
        (addNode nesting labels row object n).EndsIn
          (.ok (object ++ [(.str n.key, n.content found)]))) ∧
    (∀ ns : List ColumnNode, ColumnNode.distinctKeysOf ns = true →
      (∀ ref ∈ ColumnNode.refsOf ns, ref.isWildcard = false) →
      ∀ (object : Dict) (found : List Value),
        (∀ n ∈ ns, Value.str n.key ∉ object.map Prod.fst) →
        Forall₂ (Reads nesting labels row) (ColumnNode.refsOf ns) found →
        (addNodes nesting labels row object ns).EndsIn
          (.ok (object ++ ColumnNode.objectOf ns found))) := by
  apply ColumnNode.leaves.mutual_induct
  · intro ref _ hexplicit object found hnew hreads
    obtain _ | ⟨hread, hrest⟩ := hreads
    cases hrest
    have hwildcard := hexplicit ref (by simp [ColumnNode.refs, ColumnNode.leaves, ColumnNode.ref?])
    rw [addNode, if_neg (by simp [hwildcard])]
    refine hread.bind_ok ?_
    have hname : Value.str ref.outputName ∉ object.map Prod.fst := hnew
    rw [Dict.insert_new _ hname]
    exact Mapping.EndsIn.pure _
  · intro ref sql parameters _ _ object found hnew hreads
    obtain _ | ⟨hread, hrest⟩ := hreads
    cases hrest
    refine hread.bind_ok ?_
    have hname : Value.str ref.outputName ∉ object.map Prod.fst := hnew
    rw [Dict.insert_new _ hname]
    exact Mapping.EndsIn.pure _
  · intro key children ih hdistinct hexplicit object found hnew hreads
    have hinner := ih hdistinct hexplicit [] found (by simp) hreads
    rw [List.nil_append] at hinner
    refine hinner.bind_ok ?_
    have hname : Value.str key ∉ object.map Prod.fst := hnew
    rw [Dict.insert_new _ hname]
    exact Mapping.EndsIn.pure _
  · intro _ _ object found _ _
    rw [ColumnNode.objectOf, List.append_nil]
    exact Mapping.EndsIn.pure object
  · intro n rest ih ihrest hdistinct hexplicit object found hnew hreads
    simp only [ColumnNode.distinctKeysOf, Bool.and_eq_true, Bool.not_eq_true',
      List.contains_eq_mem, decide_eq_false_iff_not] at hdistinct
    obtain ⟨⟨hkey, hn⟩, hrest⟩ := hdistinct
    rw [ColumnNode.refsOf_cons, List.forall_mem_append] at hexplicit
    rw [List.forall_mem_cons] at hnew
    rw [ColumnNode.refsOf_cons] at hreads
    have hfirst := List.forall₂_take n.refs.length hreads
    have hmore := List.forall₂_drop n.refs.length hreads
    rw [List.take_left] at hfirst
    rw [List.drop_left] at hmore
    refine (ih hn hexplicit.1 object _ hnew.1 hfirst).bind_ok ?_
    -- the key that was added differs from those of the siblings that follow
    have hfresh : ∀ m ∈ rest, Value.str m.key ∉
        (object ++ [(Value.str n.key, n.content (found.take n.refs.length))]).map Prod.fst := by
      intro m hm
      rw [List.map_append, List.mem_append, not_or]
      refine ⟨hnew.2 m hm, ?_⟩
      simp only [List.map_cons, List.map_nil, List.mem_singleton, Value.str.injEq]
      exact fun heq => hkey (heq ▸ List.mem_map_of_mem hm)
    have hends := ihrest hrest hexplicit.2 _ _ hfresh hmore
    rw [List.append_assoc] at hends
    exact hends

end Shape

/-! Rows. -/

theorem getD_rowOfColumns {names : List String} {values : List Value}
    (hlength : names.length ≤ values.length) (hnodup : names.Nodup) {name : String} {v : Value}
    (hmem : (name, v) ∈ names.zip values) :
    Dict.getD (rowOfColumns (names.map .str) values) name = v := by
  have hnames : (names.zip values).map Prod.fst = names := List.map_fst_zip hlength
  have hrow : rowOfColumns (names.map .str) values = Statement.namedValues (names.zip values) := by
    rw [rowOfColumns, List.zip_map_left]
    exact Statement.ofList_namedValues (by rwa [hnames])
  rw [hrow, Dict.getD, Statement.get?_namedValues (by rwa [hnames]) hmem, Option.getD_some]

namespace ColumnTree

variable {nesting : Nat} {tree : ColumnTree} {values found : List Value}

theorem labelledRefs_eq (hexplicit : tree.isExplicit = true) : tree.labelledRefs = tree.refs :=
  filterMap_named? hexplicit

/-- If no two labels are the same, each of them has the type that its own column declares. -/
theorem get?_labels (hexplicit : tree.isExplicit = true) (hnodup : tree.outputNames.Nodup)
    {ref : ColumnRef} (href : ref ∈ tree.refs) :
    Assoc.get? ref.outputName tree.labels = some ref.resultType := by
  let index : ColumnLabels := (tree.indexColumn?.map fun name => (name, .string)).toList
  let columns : ColumnLabels := tree.refs.map fun ref => (ref.outputName, ref.resultType)
  have hnames : (index ++ columns).map Prod.fst = tree.outputNames := by
    have hindex : index.map Prod.fst = tree.indexColumn?.toList := by
      cases hcolumn : tree.indexColumn? <;> simp [index, hcolumn]
    rw [outputNames, List.map_append, hindex, List.map_map]
    rfl
  have hdistinct : ((index ++ columns).map Prod.fst).Nodup := by rwa [hnames]
  have hlabels : tree.labels = index ++ columns := by
    rw [labels, labelledRefs_eq hexplicit]
    exact Assoc.merge_of_nodup index hdistinct
  rw [hlabels]
  exact Assoc.get?_of_mem hdistinct (List.mem_append_right _ (List.mem_map_of_mem href))

/-- Labels and values correspond: those of the index first, then those of the columns. -/
theorem zip_outputNames (hlength : tree.outputNames.length ≤ values.length) :
    tree.outputNames.zip values =
      tree.indexColumn?.toList.zip (values.take tree.indexWidth) ++
        (tree.refs.map ColumnRef.outputName).zip (tree.cells values) := by
  have hwidth : tree.indexColumn?.toList.length = (values.take tree.indexWidth).length := by
    rw [outputNames, List.length_append] at hlength
    rw [List.length_take, indexWidth]
    omega
  rw [outputNames, cells, ← List.zip_append hwidth, List.take_append_drop]

/-- The value of the index column stands first in a row. -/
theorem getD_index (hrow : tree.Coerced nesting values found) (hnodup : tree.outputNames.Nodup)
    {column : String} (hcolumn : tree.indexColumn? = some column) :
    Dict.getD (rowOfColumns (tree.outputNames.map .str) values) column = values.headD .null := by
  refine getD_rowOfColumns hrow.length hnodup ?_
  have hlength := hrow.length
  cases values with
  | nil => simp [outputNames, hcolumn] at hlength
  | cons v rest => simp [outputNames, hcolumn]

variable (hexplicit : tree.isExplicit = true) (hnodup : tree.outputNames.Nodup)
  (hrow : tree.Coerced nesting values found)

include hexplicit hnodup hrow

/-- Each column is read from the row that the values make under the labels. -/
theorem reads_refs :
    Forall₂ (Shape.Reads nesting tree.labels (rowOfColumns (tree.outputNames.map .str) values))
      tree.refs found := by
  have hlength : tree.refs.length ≤ (tree.cells values).length := by
    have hle := hrow.length
    rw [outputNames, List.length_append, List.length_map] at hle
    rw [cells, List.length_drop, indexWidth]
    omega
  rw [← List.map_fst_zip hlength, List.forall₂_map_left_iff]
  obtain ⟨hsame, hcells⟩ := List.forall₂_iff_zip.mp hrow.cells
  refine List.forall₂_iff_zip.mpr ⟨hsame, fun {cell v} hmem => ?_⟩
  obtain ⟨ref, w⟩ := cell
  have hcoerced : ref.coerced nesting w = .ok v := hcells hmem
  have hcell : (ref, w) ∈ tree.refs.zip (tree.cells values) := (List.of_mem_zip hmem).1
  have hlabelled : (ref.outputName, w) ∈ tree.outputNames.zip values := by
    rw [zip_outputNames hrow.length, List.zip_map_left]
    exact List.mem_append_right _ (List.mem_map.mpr ⟨(ref, w), hcell, rfl⟩)
  have hdecided : Mapping.Decided (Coercion.coerce nesting ref.resultType ref.outputName w) :=
    Coercion.decided_coerce _ _ w
  rw [Mapping.Decided, ← ColumnRef.coerced, hcoerced] at hdecided
  rw [Shape.Reads, Shape.readLabel, getD_rowOfColumns hrow.length hnodup hlabelled,
    get?_labels hexplicit hnodup (List.of_mem_zip hcell).1, Option.getD_some]
  exact hdecided

theorem endsIn_addNodes (nodes : List ColumnNode) (hkeys : ColumnNode.distinctKeysOf nodes = true)
    (hnodes : ColumnNode.refsOf nodes = tree.refs) :
    (Shape.addNodes nesting tree.labels (rowOfColumns (tree.outputNames.map .str) values) []
      nodes).EndsIn (.ok (ColumnNode.objectOf nodes found)) := by
  have hnamed : ∀ ref ∈ ColumnNode.refsOf nodes, ref.isWildcard = false := by
    rw [hnodes]
    rw [isExplicit, Bool.and_eq_true, List.all_eq_true] at hexplicit
    simpa using hexplicit.2
  have hends := Shape.endsIn_addNodes.2 nodes hkeys hnamed [] found (by simp)
    (by rw [hnodes]; exact reads_refs hexplicit hnodup hrow)
  rwa [List.nil_append] at hends

end ColumnTree

namespace Shape

variable {nesting : Nat} {tree : ColumnTree} {rows : List (List Value × List Value)}

/-- The rows of a result under the labels of a tree. -/
def labelledRows (tree : ColumnTree) (rows : List (List Value × List Value)) : List Row :=
  rows.map fun row => rowOfColumns (tree.outputNames.map .str) row.1

theorem endsIn_mapRows (hexplicit : tree.isExplicit = true) (hnodup : tree.outputNames.Nodup)
    (hkeys : ColumnNode.distinctKeysOf tree.nodes = true)
    (hrows : ∀ row ∈ rows, tree.Coerced nesting row.1 row.2) :
    (mapRows nesting tree (labelledRows tree rows)).EndsIn (.ok (tree.result rows)) := by
  cases tree with
  | everything => cases hexplicit
  | single ref =>
      have hmapped : (labelledRows (.single ref) rows).mapM
          (fun row => (run (mapValue nesting (.single ref) row)).1) =
          .ok (rows.map fun row => row.2.headD .null) := by
        rw [labelledRows, List.mapM_map]
        refine Except.mapM_eq_ok fun row hrow => ?_
        have hreads := ColumnTree.reads_refs hexplicit hnodup (hrows row hrow)
        obtain ⟨v, rest, hread, _, hfound⟩ := List.forall₂_cons_left_iff.mp hreads
        rw [hfound]
        exact Mapping.EndsIn.run hread
      have hends : (mapEach (mapValue nesting (.single ref)) (labelledRows (.single ref) rows)).EndsIn
          _ := endsIn_mapEach (decided_mapValue _) _
      rw [hmapped] at hends
      exact hends.bind_ok (Mapping.EndsIn.pure _)
  | indexed key children =>
      have hmapped : (labelledRows (.indexed key children) rows).mapM
          (indexEntry nesting (.indexed key children) (ColumnTree.lastSegment key)) =
          .ok (rows.map fun row =>
            (row.1.headD .null, .dict (ColumnNode.objectOf children row.2))) := by
        rw [labelledRows, List.mapM_map]
        refine Except.mapM_eq_ok fun row hrow => ?_
        have hcoerced := hrows row hrow
        dsimp only [Function.comp_apply]
        have hindex := ColumnTree.getD_index hcoerced hnodup rfl
        have hobject := ColumnTree.endsIn_addNodes hexplicit hnodup hcoerced children
          (by simpa [ColumnTree.nodes, ColumnNode.distinctKeysOf, ColumnNode.distinctKeys] using hkeys)
          (by simp [ColumnTree.refs, ColumnTree.nodes, ColumnNode.refsOf, ColumnNode.leavesOf,
            ColumnNode.leaves])
        have hmap : (mapRow nesting (.indexed key children)
            (rowOfColumns ((ColumnTree.indexed key children).outputNames.map .str) row.1)).EndsIn
              (.ok (.dict (ColumnNode.objectOf children row.2))) :=
          hobject.bind_ok (Mapping.EndsIn.pure _)
        rw [indexEntry, hmap.run, hindex]
        exact if_pos (hcoerced.index rfl)
      have hends : (mapIndexed nesting (.indexed key children) (ColumnTree.lastSegment key) []
          (labelledRows (.indexed key children) rows)).EndsIn _ := endsIn_mapIndexed _ _ _ _
      rw [hmapped] at hends
      exact hends.bind_ok (Mapping.EndsIn.pure _)
  | columns nodes =>
      have hmapped : (labelledRows (.columns nodes) rows).mapM
          (fun row => (run (mapRow nesting (.columns nodes) row)).1) =
          .ok (rows.map fun row => .dict (ColumnNode.objectOf nodes row.2)) := by
        rw [labelledRows, List.mapM_map]
        refine Except.mapM_eq_ok fun row hrow => ?_
        have hobject := ColumnTree.endsIn_addNodes hexplicit hnodup (hrows row hrow) nodes hkeys rfl
        exact Mapping.EndsIn.run (hobject.bind_ok (Mapping.EndsIn.pure _))
      have hends : (mapEach (mapRow nesting (.columns nodes)) (labelledRows (.columns nodes)
          rows)).EndsIn _ := endsIn_mapEach (decided_mapRow _) _
      rw [hmapped] at hends
      exact hends.bind_ok (Mapping.EndsIn.pure _)

/-- For every column specification without wildcards, every target and every list of rows: if the
labels of the compiled projection are distinct, and the keys in each object of the specification are,
then mapping the rows that a database reports under these labels gives what the specification asks
for. Each column holds the value at its own place in the row, coerced to its own type. -/
theorem mapRows_inverts_projection {spec : Value} {tree : ColumnTree} {t : Target} {joins : Bool}
    {s u : Parameters} {sql : Sql} {rows : List (List Value × List Value)}
    (hparse : ColumnSpec.parse spec = .ok tree) (hexplicit : tree.isExplicit = true)
    (hcompile : (Projection.compile t joins tree).Yields s sql u)
    (hlabels : (Projection.labels sql).Nodup)
    (hkeys : ColumnNode.distinctKeysOf tree.nodes = true)
    (hrows : ∀ row ∈ rows, tree.Coerced nesting row.1 row.2) :
    Projection.labels sql = tree.outputNames ∧
      (run (mapRows nesting tree (rows.map fun row =>
        rowOfColumns ((Projection.labels sql).map .str) row.1))).1 = .ok (tree.result rows) := by
  have hread : ColumnNode.AreRead (fun _ => True) tree.nodes :=
    ColumnSpec.areRead_parse .true trivial hparse
  have hnames := Projection.labels_compile hread hexplicit hcompile
  rw [hnames] at hlabels ⊢
  exact ⟨rfl, (endsIn_mapRows hexplicit hlabels hkeys hrows).run⟩

/-- Users under their identifiers, with a group, an alias, types and a raw column. -/
theorem mapRows_inverts_projection_of_nested :
    ∃ (tree : ColumnTree) (sql : Sql) (u : Parameters),
      ColumnSpec.parse (.dict [(.str "users.id", .list [.str "name(title)",
        .dict [(.str "contact", .list [.str "age[Int]", .str "tags[JSON]"]),
          (.str "total[Number]", .raw "SUM(points) + :extra" [(.str "extra", .int 3)])]])]) =
        .ok tree ∧
      (Projection.compile ⟨.mysql, "app_"⟩ false tree).Yields (Parameters.start 0) sql u ∧
      Projection.labels sql = ["id", "title", "age", "tags", "total"] ∧
      (run (mapRows 1 tree ([[.int 7, .str "Ann", .str "41", .str "[1]", .int 2],
          [.int 8, .str "Bo", .null, .str "\x7b", .int 5],
          [.int 7, .str "Cy", .str " 5 ", .null, .bool true]].map
        fun values => rowOfColumns ((Projection.labels sql).map .str) values))).1 =
        .ok (.dict [
          (.int 7, .dict [(.str "title", .str "Cy"),
            (.str "contact", .dict [(.str "age", .int 5), (.str "tags", .null)]),
            (.str "total", .float (.ofInt 1))]),
          (.int 8, .dict [(.str "title", .str "Bo"),
            (.str "contact", .dict [(.str "age", .null), (.str "tags", .str "\x7b")]),
            (.str "total", .float (.ofInt 5))])]) := by
  generalize hspec : Value.dict [(.str "users.id", .list [.str "name(title)",
    .dict [(.str "contact", .list [.str "age[Int]", .str "tags[JSON]"]),
      (.str "total[Number]", .raw "SUM(points) + :extra" [(.str "extra", .int 3)])]])] = spec
  generalize htree : ColumnTree.indexed "users.id" [.field ⟨none, "name", some "title", none⟩,
    .group "contact" [.field ⟨none, "age", none, some .int⟩, .field ⟨none, "tags", none, some .json⟩],
    .raw ⟨none, "total", some "total", some .number⟩ "SUM(points) + :extra"
      [(.str "extra", .int 3)]] = tree
  have hparse : ColumnSpec.parse spec = .ok tree := by
    subst hspec htree
    rfl
  have hcompiled : (Statement.run (Projection.compile ⟨.mysql, "app_"⟩ false tree) 0).1.toOption.map
      Projection.labels = some ["id", "title", "age", "tags", "total"] := by
    subst htree
    decide +kernel
  rcases hrun : Statement.run (Projection.compile ⟨.mysql, "app_"⟩ false tree) 0 with ⟨_ | sql, last⟩
  · simp [hrun, Except.toOption] at hcompiled
  simp only [hrun, Except.toOption, Option.map_some, Option.some.injEq] at hcompiled
  obtain ⟨u, hyields, -⟩ := Statement.yields_of_run hrun
  refine ⟨tree, sql, u, hparse, hyields, hcompiled, ?_⟩
  have hrows : ∀ row ∈ ([
      ([.int 7, .str "Ann", .str "41", .str "[1]", .int 2],
        [.str "Ann", .int 41, .list [.int 1], .float (.ofInt 2)]),
      ([.int 8, .str "Bo", .null, .str "\x7b", .int 5],
        [.str "Bo", .null, .str "\x7b", .float (.ofInt 5)]),
      ([.int 7, .str "Cy", .str " 5 ", .null, .bool true],
        [.str "Cy", .int 5, .null, .float (.ofInt 1)])] : List (List Value × List Value)),
      tree.Coerced 1 row.1 row.2 := by
    subst htree
    intro row hrow
    simp only [List.mem_cons, List.not_mem_nil, or_false] at hrow
    obtain rfl | rfl | rfl := hrow <;>
      exact ⟨by decide, fun _ => rfl, .cons rfl (.cons rfl (.cons rfl (.cons rfl .nil)))⟩
  have hresult := (mapRows_inverts_projection hparse (by subst htree; rfl) hyields
    (by rw [hcompiled]; decide) (by subst htree; rfl) hrows).2
  subst htree
  exact hresult

end Shape

end QueryLoom
