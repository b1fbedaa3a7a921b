import Mathlib.Data.List.Forall2
import QueryLoom.Proofs.Columns.Leaves

/-!
The labels under which a compiled projection selects its columns. They are read off the SQL itself: an
item of a projection ends with a name, which is its alias if it has one and otherwise the name of its
column. A projection has one item for the index column, if there is one, and then one for each leaf in
order, so the labels are the index column and the output names of the leaves that are no wildcards.
-/

namespace QueryLoom

/-- The columns below some nodes, in order. -/
def ColumnNode.refsOf (ns : List ColumnNode) : List ColumnRef :=
  (ColumnNode.leavesOf ns).filterMap ColumnNode.ref?

/-- The columns that a tree selects, in order, the index column apart. -/
def ColumnTree.refs (tree : ColumnTree) : List ColumnRef := ColumnNode.refsOf tree.nodes

/-- Whether a tree names every column that it selects. -/
def ColumnTree.isExplicit (tree : ColumnTree) : Bool :=
  !tree.isEverything && tree.refs.all fun ref => !ref.isWildcard

/-- The labels of a tree, the index column first. -/
def ColumnTree.outputNames (tree : ColumnTree) : List String :=
  tree.indexColumn?.toList ++ tree.refs.map ColumnRef.outputName

/-- The column that is selected under a name; a wildcard selects none. -/
def ColumnNode.named? : ColumnNode → Option ColumnRef
  | .field ref => if ref.isWildcard then none else some ref
  | .raw ref _ _ => some ref
  | .group _ _ => none

theorem ColumnTree.filterMap_named? {tree : ColumnTree} (hexplicit : tree.isExplicit = true) :
    tree.leaves.filterMap ColumnNode.named? = tree.refs := by
  rw [isExplicit, Bool.and_eq_true, List.all_eq_true] at hexplicit
  refine List.filterMap_congr fun leaf hleaf => ?_
  cases leaf with
  | field ref =>
      have href : ref ∈ tree.refs := List.mem_filterMap.mpr ⟨.field ref, hleaf, rfl⟩
      have hnamed : ref.isWildcard = false := by simpa using hexplicit.2 ref href
      exact if_neg (by simp [hnamed])
  | raw ref sql parameters => rfl
  | group key children => rfl

namespace Projection

/-- Whether a row of pieces ends here, or an item of a list. -/
def endsItem (sql : Sql) : Bool := sql.head?.all (· == .text ", ")

/-- The labels of a compiled projection: the names that end its items. -/
def labels : Sql → List String
  | [] => []
  | .name label :: rest => if endsItem rest then label :: labels rest else labels rest
  | _ :: rest => labels rest

/-- An item of a projection with its label. -/
def Labelled (item : Sql) (label : String) : Prop :=
  ∀ rest, endsItem rest = true → labels (item ++ rest) = label :: labels rest

theorem labelled_name (label : String) : Labelled [.name label] label := by
  intro rest hrest
  rw [List.singleton_append, labels, if_pos hrest]

theorem labelled_qualified (table label : String) :
    Labelled [.name table, .text ".", .name label] label := by
  intro rest hrest
  have hdot : endsItem (.text "." :: .name label :: rest) = false := rfl
  simp only [List.cons_append, List.nil_append, labels, hdot, Bool.false_eq_true, ↓reduceIte, hrest]

/-- A part of an item that is no label as long as the item goes on. -/
def Unlabelled (part : Sql) : Prop :=
  ∀ rest, endsItem rest = false → labels (part ++ rest) = labels rest

theorem unlabelled_name (name : String) : Unlabelled [.name name] := by
  intro rest hrest
  rw [List.singleton_append, labels, if_neg (by simp [hrest])]

theorem unlabelled_qualified (table name : String) :
    Unlabelled [.name table, .text ".", .name name] := by
  intro rest hrest
  have hdot : endsItem (.text "." :: .name name :: rest) = false := rfl
  simp only [List.cons_append, List.nil_append, labels, hdot, Bool.false_eq_true, ↓reduceIte, hrest]

theorem unlabelled_fragment (sql : String) : Unlabelled [.fragment sql] := fun _ _ => rfl

/-- The alias behind a part is the label of the item. -/
theorem Unlabelled.alias {part : Sql} (h : Unlabelled part) (label : String) :
    Labelled (part ++ .text " AS " :: [.name label]) label := by
  intro rest hrest
  rw [List.append_assoc, h _ rfl]
  simp only [List.cons_append, List.nil_append, labels, hrest, ↓reduceIte]

/-- The names under which an item is found: one, or none for a wildcard. -/
def FoundUnder (item : Sql) (names : List String) : Prop :=
  ∀ rest, endsItem rest = true → labels (item ++ rest) = names ++ labels rest

theorem labels_join_foundUnder {names : List (List String)}
    (h : List.Forall₂ FoundUnder items names) : labels (Sql.join ", " items) = names.flatten := by
  induction h with
  | nil => rfl
  | @cons item first rest more hitem hrest ih =>
      cases rest with
      | nil =>
          cases hrest
          have hlast := hitem [] rfl
          rwa [List.append_nil] at hlast
      | cons second rest =>
          have hjoin : Sql.join ", " (item :: second :: rest) =
              item ++ .text ", " :: Sql.join ", " (second :: rest) := rfl
          rw [hjoin, hitem _ rfl, labels, ih, List.flatten_cons]
          simp

end Projection

/-! Columns. -/

theorem takeWhile_before_dot {cs : List Char} (h : '.' ∉ cs) (rest : List Char) :
    (cs.reverse ++ rest).takeWhile (· != '.') = cs.reverse ++ rest.takeWhile (· != '.') := by
  refine List.takeWhile_append_of_pos fun c hc => ?_
  rw [List.mem_reverse] at hc
  simpa using fun heq : c = '.' => h (heq ▸ hc)

theorem ColumnTree.lastSegment_of_not_mem {name : String} (h : '.' ∉ name.toList) :
    lastSegment name = name := by
  have hall := takeWhile_before_dot h []
  rw [List.append_nil, List.takeWhile_nil, List.append_nil] at hall
  rw [lastSegment, hall, List.reverse_reverse, String.ofList_toList]

theorem ColumnTree.lastSegment_qualified {qualifier name : String} (h : '.' ∉ name.toList) :
    lastSegment (qualifier ++ "." ++ name) = name := by
  have hdot : ".".toList = ['.'] := rfl
  have hlast := takeWhile_before_dot h ('.' :: qualifier.toList.reverse)
  rw [List.takeWhile_cons_of_neg (by simp), List.append_nil] at hlast
  rw [lastSegment, String.toList_append, String.toList_append, hdot, List.append_assoc,
    List.reverse_append, List.reverse_append, List.reverse_singleton, List.append_assoc,
    List.singleton_append, hlast, List.reverse_reverse, String.ofList_toList]

/-- The label of a column reference is the part of its path behind the table. -/
theorem ColumnRef.lastSegment_path {ref : ColumnRef} (h : '.' ∉ ref.column.toList) :
    ColumnTree.lastSegment ref.path = ref.column := by
  unfold ColumnRef.path
  cases ref.table with
  | none => exact ColumnTree.lastSegment_of_not_mem h
  | some table => exact ColumnTree.lastSegment_qualified h

theorem Identifier.bare_str {name : String} {sql : Sql} (h : Identifier.bare (.str name) = .ok sql) :
    sql = [.name name] := by
  simp only [Identifier.bare, Identifier.check, Except.bind_eq_ok, Except.pure_eq_ok] at h
  obtain ⟨checked, hcheck, rfl⟩ := h
  split_ifs at hcheck
  cases hcheck
  rfl

/-- How a column is written: its name, behind its table if it has one. -/
theorem Identifier.column_str {tablePrefix path : String} {sql : Sql}
    (h : Identifier.column tablePrefix (.str path) = .ok sql) :
    sql = [.name (ColumnTree.lastSegment path)] ∨
      ∃ table, sql = [.name table, .text ".", .name (ColumnTree.lastSegment path)] := by
  rw [Identifier.column] at h
  split at h
  · rename_i dot rest hrest
    split_ifs at h with hdots
    have hnone : '.' ∉ rest := by simpa using hdots
    simp only [Except.bind_eq_ok, Except.pure_eq_ok] at h
    obtain ⟨tableSql, htable, columnSql, hcolumn, rfl⟩ := h
    obtain ⟨table, _, rfl⟩ := Identifier.table_eq htable
    rw [Identifier.bare_str hcolumn]
    have hpath : path = String.ofList (path.toList.takeWhile (· != '.')) ++ "." ++
        String.ofList rest := by
      have hdot : dot = '.' := by
        have hhead := List.head?_dropWhile_not (· != '.') path.toList
        rw [hrest] at hhead
        simpa using hhead
      have hsplit := List.takeWhile_append_dropWhile (p := (· != '.')) (l := path.toList)
      rw [hrest, hdot] at hsplit
      apply String.toList_injective
      simpa using hsplit.symm
    have hlast : ColumnTree.lastSegment path = String.ofList rest := by
      rw [hpath]
      exact ColumnTree.lastSegment_qualified (by simpa using hnone)
    rw [hlast]
    exact .inr ⟨_, rfl⟩
  · rename_i hrest
    rw [Identifier.bare_str h, ColumnTree.lastSegment_of_not_mem]
    · exact .inl rfl
    · intro hmem
      have hsplit := List.takeWhile_append_dropWhile (p := (· != '.')) (l := path.toList)
      rw [hrest, List.append_nil] at hsplit
      rw [← hsplit] at hmem
      have hdot := List.all_eq_true.mp List.all_takeWhile _ hmem
      exact absurd hdot (by decide)

namespace Projection

variable {t : Target} {joins : Bool} {s u : Parameters} {sql item : Sql} {items : List Sql}
  {n : ColumnNode} {ns : List ColumnNode} {Q : Value → Prop}

theorem labelled_column {path : String} (h : Identifier.column t.tablePrefix (.str path) = .ok sql) :
    Labelled sql (ColumnTree.lastSegment path) ∧ Unlabelled sql := by
  obtain rfl | ⟨table, rfl⟩ := Identifier.column_str h
  · exact ⟨labelled_name _, unlabelled_name _⟩
  · exact ⟨labelled_qualified _ _, unlabelled_qualified _ _⟩

theorem labelled_fieldItem {ref : ColumnRef} (hdot : '.' ∉ ref.column.toList)
    (hwildcard : ref.isWildcard = false) (h : (fieldItem t joins ref).Yields s sql u) :
    Labelled sql ref.outputName := by
  simp only [fieldItem, hwildcard, Bool.false_eq_true, ↓reduceIte, Compile.yields_bind,
    Target.column, Compile.yields_lift] at h
  obtain ⟨column, _, ⟨hcolumn, rfl⟩, h⟩ := h
  obtain ⟨hlabelled, hunlabelled⟩ := labelled_column hcolumn
  unfold ColumnRef.outputName
  cases hlabel : ref.label with
  | none =>
      rw [hlabel, Compile.yields_pure] at h
      obtain ⟨rfl, rfl⟩ := h
      rw [ColumnRef.lastSegment_path hdot] at hlabelled
      exact hlabelled
  | some label =>
      simp only [hlabel, Compile.yields_bind, Compile.yields_pure, Compile.bareName,
        Compile.yields_lift] at h
      obtain ⟨labelSql, _, ⟨hbare, rfl⟩, rfl, rfl⟩ := h
      rw [Identifier.bare_str hbare]
      exact hunlabelled.alias label

theorem labelled_rawItem {ref : ColumnRef} {raw : String} {parameters : Dict}
    (h : (rawItem t ref raw parameters).Yields s sql u) : Labelled sql ref.outputName := by
  simp only [rawItem, Target.splice, Compile.splice, Compile.yields_bind, Compile.yields_pure,
    Compile.bareName, Compile.yields_lift] at h
  obtain ⟨_, _, ⟨_, _, _, rfl, rfl⟩, name, _, ⟨hbare, rfl⟩, rfl, rfl⟩ := h
  rw [Identifier.bare_str hbare]
  exact (unlabelled_fragment _).alias ref.outputName

theorem fieldItem_wildcard_joins {ref : ColumnRef} (h : ref.isWildcard = true) :
    fieldItem t true ref = throw (.ambiguousWildcard ref.text) := by
  rw [fieldItem, if_pos h]
  rfl

/-- A wildcard is found under no name. -/
theorem labels_wildcard {ref : ColumnRef} (hwildcard : ref.isWildcard = true)
    (h : (fieldItem t joins ref).Yields s sql u) (rest : Sql) : labels (sql ++ rest) = labels rest := by
  cases joins with
  | true =>
      rw [fieldItem_wildcard_joins hwildcard, Compile.yields_throw] at h
      exact h.elim
  | false =>
      rw [fieldItem, if_pos hwildcard] at h
      cases htable : ref.table with
      | none =>
          simp only [htable, Bool.false_eq_true, ↓reduceIte, Compile.yields_pure] at h
          rw [h.1]
          rfl
      | some name =>
          simp only [htable, Target.table, Bool.false_eq_true, ↓reduceIte,
            Compile.yields_bind, Compile.yields_lift, Compile.yields_pure] at h
          obtain ⟨_, _, ⟨hname, rfl⟩, rfl, rfl⟩ := h
          obtain ⟨table, -, rfl⟩ := Identifier.table_eq hname
          rfl

/-! Items. -/

theorem listItems_append (t : Target) (joins : Bool) (first rest : List ColumnNode) :
    listItems t joins (first ++ rest) = (do
      let items ← listItems t joins first
      return items ++ (← listItems t joins rest)) := by
  induction first with
  | nil => simp [listItems]
  | cons n more ih =>
      simp only [List.cons_append, listItems, ih, bind_assoc, pure_bind, List.append_assoc]

/-- Nodes are compiled as their leaves are. -/
theorem listItems_leaves (t : Target) (joins : Bool) :
    (∀ n : ColumnNode, listItems t joins n.leaves = nodeItems t joins n) ∧
      ∀ ns : List ColumnNode, listItems t joins (ColumnNode.leavesOf ns) = listItems t joins ns := by
  apply nodeItems.mutual_induct
  · intro key children ih
    exact ih
  · intro ref raw parameters
    simp [ColumnNode.leaves, listItems]
  · intro ref
    simp [ColumnNode.leaves, listItems]
  · rfl
  · intro n rest ih ihrest
    rw [ColumnNode.leavesOf, listItems_append, ih, ihrest, listItems]

/-- Nodes that are compiled one after the other, each to one item. -/
inductive Lists (t : Target) (joins : Bool) :
    Parameters → List ColumnNode → List Sql → Parameters → Prop
  | nil (s : Parameters) : Lists t joins s [] [] s
  | cons {s v u : Parameters} {n : ColumnNode} {rest : List ColumnNode} {item : Sql}
      {items : List Sql} (hitem : (nodeItems t joins n).Yields s [item] v)
      (hrest : Lists t joins v rest items u) : Lists t joins s (n :: rest) (item :: items) u

/-- A leaf gives one item. -/
theorem exists_item (hread : n.IsRead Q) (h : (nodeItems t joins n).Yields s items u) :
    ∃ item, items = [item] := by
  cases n with
  | group key children => exact hread.elim
  | field ref =>
      simp only [nodeItems, Compile.yields_bind, Compile.yields_pure] at h
      obtain ⟨item, _, _, hitems, -⟩ := h
      exact ⟨item, hitems⟩
  | raw ref raw parameters =>
      simp only [nodeItems, Compile.yields_bind, Compile.yields_pure] at h
      obtain ⟨item, _, _, hitems, -⟩ := h
      exact ⟨item, hitems⟩

theorem lists_of_yields (hread : ∀ n ∈ ns, n.IsRead Q)
    (h : (listItems t joins ns).Yields s items u) : Lists t joins s ns items u := by
  induction ns generalizing s items with
  | nil =>
      rw [listItems, Compile.yields_pure] at h
      obtain ⟨rfl, rfl⟩ := h
      exact .nil _
  | cons n rest ih =>
      rw [List.forall_mem_cons] at hread
      simp only [listItems, Compile.yields_bind, Compile.yields_pure] at h
      obtain ⟨first, v, hfirst, more, _, hmore, rfl, rfl⟩ := h
      obtain ⟨item, rfl⟩ := exists_item hread.1 hfirst
      exact .cons hfirst (ih hread.2 hmore)

theorem foundUnder_item (hread : n.IsRead Q) (h : (nodeItems t joins n).Yields s [item] u) :
    FoundUnder item (n.named?.map ColumnRef.outputName).toList := by
  cases n with
  | group key children => exact hread.elim
  | raw ref raw parameters =>
      simp only [nodeItems, Compile.yields_bind, Compile.yields_pure, List.cons.injEq, and_true] at h
      obtain ⟨_, _, hitem, rfl, rfl⟩ := h
      exact labelled_rawItem hitem
  | field ref =>
      simp only [nodeItems, Compile.yields_bind, Compile.yields_pure, List.cons.injEq, and_true] at h
      obtain ⟨_, _, hitem, rfl, rfl⟩ := h
      cases hwildcard : ref.isWildcard with
      | false =>
          have hnamed : (ColumnNode.field ref).named? = some ref := by
            simp [ColumnNode.named?, hwildcard]
          rw [hnamed]
          exact labelled_fieldItem hread hwildcard hitem
      | true =>
          have hnamed : (ColumnNode.field ref).named? = none := by
            simp [ColumnNode.named?, hwildcard]
          rw [hnamed]
          exact fun rest _ => labels_wildcard hwildcard hitem rest

theorem Lists.foundUnder (h : Lists t joins s ns items u) (hread : ∀ n ∈ ns, n.IsRead Q) :
    List.Forall₂ FoundUnder items
      (ns.map fun n => (n.named?.map ColumnRef.outputName).toList) := by
  induction h with
  | nil => exact .nil
  | cons hitem _ ih =>
      rw [List.forall_mem_cons] at hread
      exact .cons (foundUnder_item hread.1 hitem) (ih hread.2)

/-! Projections. -/

/-- The item of the index column, if there is one. -/
def indexItems (t : Target) (tree : ColumnTree) : Compile (List Sql) :=
  match tree.indexKey? with
  | none => pure []
  | some key => do return [← t.column key]

variable {tree : ColumnTree} {index : List Sql}

theorem compile_eq (hnames : tree.isEverything = false) (t : Target) (joins : Bool) :
    compile t joins tree = (do
      let index ← indexItems t tree
      let items ← listItems t joins tree.leaves
      if (index ++ items).isEmpty then throw (.emptyProjection tree)
      return Sql.join ", " (index ++ items)) := by
  rw [ColumnTree.leaves, (listItems_leaves t joins).2]
  cases tree with
  | everything => cases hnames
  | _ => simp [compile, indexItems, ColumnTree.indexKey?]

theorem foundUnder_index (h : (indexItems t tree).Yields s index u) :
    List.Forall₂ FoundUnder index (tree.indexColumn?.toList.map fun name => [name]) := by
  unfold indexItems at h
  unfold ColumnTree.indexColumn?
  split at h
  · next hkey =>
      rw [Compile.yields_pure] at h
      rw [h.1, hkey]
      exact .nil
  · next key hkey =>
      simp only [Target.column, Compile.yields_bind, Compile.yields_lift, Compile.yields_pure] at h
      obtain ⟨column, _, ⟨hcolumn, rfl⟩, rfl, rfl⟩ := h
      rw [hkey]
      exact .cons (labelled_column hcolumn).1 .nil

/-- A compiled projection: the index column, and one item for each leaf. -/
theorem lists_leaves (hread : ColumnNode.AreRead Q tree.nodes) (hnames : tree.isEverything = false)
    (h : (compile t joins tree).Yields s sql u) :
    ∃ index v items, (indexItems t tree).Yields s index v ∧ Lists t joins v tree.leaves items u ∧
      sql = Sql.join ", " (index ++ items) ∧
      labels sql = tree.indexColumn?.toList ++
        (tree.leaves.filterMap ColumnNode.named?).map ColumnRef.outputName := by
  rw [compile_eq hnames] at h
  simp only [Compile.yields_bind] at h
  obtain ⟨index, v, hindex, items, w, hitems, h⟩ := h
  split_ifs at h
  · simp at h
  · rw [Compile.yields_pure] at h
    obtain ⟨rfl, rfl⟩ := h
    have hlists := lists_of_yields hread hitems
    refine ⟨index, v, items, hindex, hlists, rfl, ?_⟩
    have hfound := List.rel_append (foundUnder_index hindex) (hlists.foundUnder hread)
    have hindexed : (tree.indexColumn?.toList.map fun name => [name]).flatten =
        tree.indexColumn?.toList := by
      cases tree.indexColumn? <;> rfl
    rw [labels_join_foundUnder hfound, List.flatten_append, hindexed, List.map_filterMap,
      List.filterMap_eq_flatMap_toList, List.flatMap, ColumnTree.leaves]

/-- A compiled projection selects the columns of its tree in order, the index column first. -/
theorem labels_compile (hread : ColumnNode.AreRead Q tree.nodes)
    (hexplicit : tree.isExplicit = true) (h : (compile t joins tree).Yields s sql u) :
    labels sql = tree.outputNames := by
  have hnames : tree.isEverything = false := by
    rw [ColumnTree.isExplicit, Bool.and_eq_true, Bool.not_eq_true'] at hexplicit
    exact hexplicit.1
  obtain ⟨_, _, _, -, -, -, hlabels⟩ := lists_leaves hread hnames h
  rw [hlabels, ColumnTree.filterMap_named? hexplicit, ColumnTree.outputNames]

end Projection

end QueryLoom
