import QueryLoom.Proofs.Results.Wildcards

/-!
The projection, the walk and the labels of a tree go through the same columns. The walk with a stack finds
the leaves in the order of the recursion. A compiled projection has one item for each of them, behind the
index column, and the labels are those of the items that are no wildcards. A join changes nothing but that
the first wildcard is refused.
-/

namespace QueryLoom

/-! The walk. -/

namespace ColumnNode

/-- What a stack is visited for are the leaves below its nodes, the last node first. -/
theorem toList_visit (stack found : Array ColumnNode) :
    (visit stack found).toList = found.toList ++ leavesOf stack.toList.reverse := by
  fun_induction visit stack found with
  | case1 stack found h =>
      rw [Array.back?_eq_none_iff.mp h]
      simp [leavesOf]
  | case2 stack found key children h ih =>
      rw [ih, toList_of_back? h, Array.toList_appendList, List.reverse_append, List.reverse_append,
        List.reverse_reverse, leavesOf_append, List.reverse_singleton, List.singleton_append, leavesOf,
        leaves]
  | case3 stack found leaf hleaf h ih =>
      have hleaves : leaf.leaves = [leaf] := by
        cases leaf with
        | group key children => exact (hleaf key children rfl).elim
        | _ => rfl
      rw [ih, toList_of_back? h, Array.toList_push, List.reverse_append, List.reverse_singleton,
        List.singleton_append, leavesOf, hleaves, List.append_assoc]

end ColumnNode

/-- The names under which entries are found after others were written. -/
theorem Assoc.mem_map_fst_merge {ν : Type} {name : String} (found more : List (String × ν)) :
    name ∈ (Assoc.merge found more).map Prod.fst ↔
      name ∈ found.map Prod.fst ∨ name ∈ more.map Prod.fst := by
  induction more generalizing found with
  | nil => simp [Assoc.merge]
  | cons entry rest ih =>
      have hstep : Assoc.merge found (entry :: rest) =
          Assoc.merge (Assoc.insert entry.1 entry.2 found) rest :=
        rfl
      rw [hstep, ih, Assoc.map_fst_insert]
      split_ifs with hfound
      · simp only [List.map_cons, List.mem_cons]
        constructor
        · exact Or.imp_right .inr
        · rintro (hold | rfl | hrest)
          · exact .inl hold
          · exact .inl hfound
          · exact .inr hrest
      · simp [or_assoc]

namespace ColumnTree

variable {tree : ColumnTree}

theorem walk_eq_leaves (tree : ColumnTree) : tree.walk = tree.leaves := by
  rw [walk, ColumnNode.toList_visit]
  simp [leaves]

/-- The columns that are selected under names, in the order of the walk. -/
def named (tree : ColumnTree) : List ColumnRef := tree.walk.filterMap ColumnNode.named?

/-- Whether a tree has a wildcard, at any depth. -/
def hasWildcard (tree : ColumnTree) : Bool :=
  tree.isEverything || tree.walk.any ColumnNode.isWildcard

/-- What stands before the first wildcard of a tree, and how this wildcard is written. -/
inductive FirstWildcard : ColumnTree → List ColumnNode → String → Prop
  | everything : FirstWildcard .everything [] "*"
  | node {tree : ColumnTree} {before after : List ColumnNode} {ref : ColumnRef}
      (hwalk : tree.walk = before ++ .field ref :: after) (hwildcard : ref.isWildcard = true)
      (hbefore : ∀ n ∈ before, n.isWildcard = false) : FirstWildcard tree before ref.text

theorem exists_firstWildcard (h : tree.hasWildcard = true) :
    ∃ before text, FirstWildcard tree before text := by
  rw [hasWildcard, Bool.or_eq_true] at h
  rcases h with hnames | hany
  · cases tree with
    | everything => exact ⟨_, _, .everything⟩
    | _ => cases hnames
  · obtain ⟨n, hfind⟩ := Option.isSome_iff_exists.mp
      (List.find?_isSome.mpr (List.any_eq_true.mp hany))
    obtain ⟨hn, before, after, hwalk, hbefore⟩ := List.find?_eq_some_iff_append.mp hfind
    cases n with
    | field ref => exact ⟨_, _, .node hwalk hn fun n hn => by simpa using hbefore n hn⟩
    | _ => cases hn

theorem labelledRefs_eq_named (tree : ColumnTree) : tree.labelledRefs = tree.named := by
  rw [named, walk_eq_leaves, labelledRefs]
  rfl

/-- The type that is declared for a name: that of the last column with the name, or text if only the
index column has it. -/
def declared? (tree : ColumnTree) (name : String) : Option ValueType :=
  match tree.named.findRev? (·.outputName == name) with
  | some ref => some ref.resultType
  | none => if tree.indexColumn? = some name then some .string else none

theorem get?_labels_eq_declared? (tree : ColumnTree) (name : String) :
    Assoc.get? name tree.labels = tree.declared? name := by
  unfold declared?
  split
  · next ref hlast =>
      obtain ⟨hname, before, after, hsplit, hafter⟩ := split_of_findRev? hlast
      obtain rfl := beq_iff_eq.mp hname
      refine get?_labels_last ((labelledRefs_eq_named tree).trans hsplit) fun other hother => ?_
      simpa using hafter other hother
  · next hnone =>
      have hother : ∀ entry ∈ tree.labelledRefs.map fun ref => (ref.outputName, ref.resultType),
          entry.1 ≠ name := by
        rw [labelledRefs_eq_named, List.forall_mem_map]
        rintro ref href rfl
        obtain ⟨last, hlast⟩ := exists_findRev? (p := (·.outputName == ref.outputName)) href
          (beq_self_eq_true ref.outputName)
        rw [hlast] at hnone
        cases hnone
      rw [labels, (Assoc.plain_string name).get?_merge_other hother]
      cases tree.indexColumn? with
      | none => rfl
      | some column => simp [Assoc.get?]

theorem mem_labels_iff (tree : ColumnTree) (name : String) :
    name ∈ tree.labels.map Prod.fst ↔
      name ∈ tree.indexColumn?.toList ++ tree.named.map ColumnRef.outputName := by
  rw [labels, Assoc.mem_map_fst_merge, labelledRefs_eq_named, List.mem_append, List.map_map]
  cases tree.indexColumn? <;> rfl

theorem nodup_labels (tree : ColumnTree) : (tree.labels.map Prod.fst).Nodup := by
  have hindex : Assoc.Distinct (tree.indexColumn?.map fun name => (name, ValueType.string)).toList := by
    cases tree.indexColumn? <;> simp [Assoc.Distinct]
  have hdistinct := Assoc.distinct_merge hindex
    (tree.labelledRefs.map fun ref => (ref.outputName, ref.resultType))
  rw [List.Nodup, List.pairwise_map]
  exact hdistinct.imp fun hne heq => hne (beq_iff_eq.mpr heq)

end ColumnTree

/-! Joins. -/

namespace Projection

variable {t : Target} {tree : ColumnTree} {s u : Parameters} {sql : Sql} {n : ColumnNode}
  {ns before : List ColumnNode} {Q : Value → Prop}

theorem isEverything_of_mem_walk (h : n ∈ tree.walk) : tree.isEverything = false := by
  cases tree with
  | everything =>
      rw [ColumnTree.walk_eq_leaves] at h
      cases h
  | _ => rfl

theorem isRead_walk (hread : ColumnNode.AreRead Q tree.nodes) : ∀ n ∈ tree.walk, n.IsRead Q := by
  rw [ColumnTree.walk_eq_leaves]
  exact hread

theorem listItems_joins (t : Target) (hread : ∀ n ∈ ns, n.IsRead Q)
    (h : ∀ n ∈ ns, n.isWildcard = false) : listItems t true ns = listItems t false ns := by
  induction ns with
  | nil => rfl
  | cons n rest ih =>
      rw [List.forall_mem_cons] at hread h
      have hnode : nodeItems t true n = nodeItems t false n := by
        cases n with
        | group key children => exact hread.1.elim
        | raw ref raw parameters => rfl
        | field ref =>
            have hwildcard : ref.isWildcard = false := h.1
            simp [nodeItems, fieldItem, hwildcard]
      rw [listItems, listItems, hnode, ih hread.2 h.2]

theorem compile_joins (hread : ColumnNode.AreRead Q tree.nodes) (t : Target)
    (h : tree.hasWildcard = false) : compile t true tree = compile t false tree := by
  rw [ColumnTree.hasWildcard, Bool.or_eq_false_iff, List.any_eq_false] at h
  obtain ⟨hnames, hwalk⟩ := h
  rw [compile_eq hnames, compile_eq hnames, ← ColumnTree.walk_eq_leaves,
    listItems_joins t (isRead_walk hread)]
  exact fun n hn => Bool.eq_false_iff.mpr (hwalk n hn)

/-- For a join the nodes before the first wildcard are compiled as without one, and then it is refused. -/
theorem compile_firstWildcard {text : String} (hread : ColumnNode.AreRead Q tree.nodes) (t : Target)
    (h : tree.FirstWildcard before text) :
    compile t true tree = (do
      let _ ← indexItems t tree
      let _ ← listItems t false before
      throw (.ambiguousWildcard text)) := by
  cases h with
  | everything => rfl
  | @node _ _ after ref hwalk hwildcard hbefore =>
      have hnames := isEverything_of_mem_walk (hwalk ▸ List.mem_append_right _ List.mem_cons_self)
      have hread := isRead_walk hread
      rw [hwalk, List.forall_mem_append] at hread
      rw [compile_eq hnames, ← ColumnTree.walk_eq_leaves, hwalk, listItems_append,
        listItems_joins t hread.1 hbefore, listItems, nodeItems, fieldItem_wildcard_joins hwildcard]
      simp only [bind_assoc, Compile.throw_bind]

/-- What compiles without a join fails with its first wildcard in one. -/
theorem run_firstWildcard {text : String} (hread : ColumnNode.AreRead Q tree.nodes)
    (h : tree.FirstWildcard before text) (hyields : (compile t false tree).Yields s sql u) :
    ∃ w, (ExceptT.run (compile t true tree)).run s = (.error (.ambiguousWildcard text), w) := by
  rw [compile_firstWildcard hread t h]
  cases h with
  | everything => exact ⟨s, rfl⟩
  | @node _ _ after ref hwalk hwildcard hbefore =>
      have hnames := isEverything_of_mem_walk (hwalk ▸ List.mem_append_right _ List.mem_cons_self)
      rw [compile_eq hnames, ← ColumnTree.walk_eq_leaves, hwalk, listItems_append] at hyields
      simp only [Compile.yields_bind] at hyields
      obtain ⟨index, v, hindex, _, _, ⟨items, w, hitems, -⟩, -⟩ := hyields
      refine ⟨w, ?_⟩
      rw [hindex.run_bind, hitems.run_bind]
      rfl

/-- For every parsed tree the walk with a stack finds the leaves in the order of the recursion. Whenever
the projection of a tree compiles, unless all columns are selected, it consists of the index column, if
there is one, and then of one item for each node of the walk. The names found in it are those of the
labels: the label of a name has the type of the last column with it, or is text if only the index column
has it. A join changes nothing if there is no wildcard at any depth; otherwise what stands before the
first wildcard is compiled as without a join, and then the wildcard is refused. -/
theorem projection_follows_walk {spec : Value} {tree : ColumnTree}
    (hparse : ColumnSpec.parse spec = .ok tree) (t : Target) :
    tree.walk = tree.leaves ∧
    (tree.isEverything = false → ∀ joins s sql u, (compile t joins tree).Yields s sql u →
      ∃ index v items, (indexItems t tree).Yields s index v ∧ Lists t joins v tree.walk items u ∧
        sql = Sql.join ", " (index ++ items) ∧
        labels sql = tree.indexColumn?.toList ++ tree.named.map ColumnRef.outputName) ∧
    (tree.labels.map Prod.fst).Nodup ∧
    (∀ name, name ∈ tree.labels.map Prod.fst ↔
      name ∈ tree.indexColumn?.toList ++ tree.named.map ColumnRef.outputName) ∧
    (∀ name, Assoc.get? name tree.labels = tree.declared? name) ∧
    (tree.hasWildcard = false → compile t true tree = compile t false tree) ∧
    (tree.hasWildcard = true → ∃ before text, tree.FirstWildcard before text ∧
      compile t true tree = (do
        let _ ← indexItems t tree
        let _ ← listItems t false before
        throw (.ambiguousWildcard text)) ∧
      ∀ s sql u, (compile t false tree).Yields s sql u →
        ∃ w, (ExceptT.run (compile t true tree)).run s = (.error (.ambiguousWildcard text), w)) := by
  have hread : ColumnNode.AreRead (fun _ => True) tree.nodes :=
    ColumnSpec.areRead_parse .true trivial hparse
  refine ⟨tree.walk_eq_leaves, ?_, tree.nodup_labels, tree.mem_labels_iff,
    tree.get?_labels_eq_declared?, compile_joins hread t, fun hwildcard => ?_⟩
  · intro hnames joins s sql u h
    rw [ColumnTree.named, tree.walk_eq_leaves]
    exact lists_leaves hread hnames h
  · obtain ⟨before, text, hfirst⟩ := ColumnTree.exists_firstWildcard hwildcard
    exact ⟨before, text, hfirst, compile_firstWildcard hread t hfirst,
      fun s sql u h => run_firstWildcard hread hfirst h⟩

/-- An index whose column two fields repeat, with an empty group and a wildcard further down. -/
theorem projection_follows_walk_of_nested :
    ∃ tree, ColumnSpec.parse (.dict [(.str "users.id", .list [.str "id [Int]",
        .dict [(.str "none", .list []), (.str "posts", .list [.str "posts.*",
          .dict [(.str "total [Number]", .raw "COUNT(*)" [])]])],
        .str "active(id)[Bool]"])]) = .ok tree ∧
      (∃ sql u, (compile ⟨.sqlite, ""⟩ false tree).Yields (.start 0) sql u ∧
        labels sql = ["id", "id", "total", "id"]) ∧
      Assoc.get? "id" tree.labels = some .bool ∧ Assoc.get? "total" tree.labels = some .number ∧
      ∃ text w, (ExceptT.run (compile ⟨.sqlite, ""⟩ true tree)).run (.start 0) =
        (.error (.ambiguousWildcard text), w) := by
  let tree : ColumnTree := .indexed "users.id" [.field ⟨none, "id", none, some .int⟩,
    .group "none" [], .group "posts" [.field ⟨some "posts", "*", none, none⟩,
      .raw ⟨none, "total", some "total", some .number⟩ "COUNT(*)" []],
    .field ⟨none, "active", some "id", some .bool⟩]
  have hparse : ColumnSpec.parse (.dict [(.str "users.id", .list [.str "id [Int]",
      .dict [(.str "none", .list []), (.str "posts", .list [.str "posts.*",
        .dict [(.str "total [Number]", .raw "COUNT(*)" [])]])],
      .str "active(id)[Bool]"])]) = .ok tree := rfl
  obtain ⟨hwalk, hcompiled, -, -, htypes, -, hjoins⟩ := projection_follows_walk hparse ⟨.sqlite, ""⟩
  have hnamed : tree.named = [⟨none, "id", none, some .int⟩,
      ⟨none, "total", some "total", some .number⟩, ⟨none, "active", some "id", some .bool⟩] := by
    rw [ColumnTree.named, hwalk]
    rfl
  have hwildcard : tree.hasWildcard = true := by
    rw [ColumnTree.hasWildcard, hwalk]
    rfl
  have hsome : ((ExceptT.run (compile ⟨.sqlite, ""⟩ false tree)).run (.start 0)).1.isOk = true := by
    decide +kernel
  rcases hrun : (ExceptT.run (compile ⟨.sqlite, ""⟩ false tree)).run (.start 0) with ⟨_ | sql, u⟩
  · rw [hrun] at hsome
    cases hsome
  · have hyields : (compile ⟨.sqlite, ""⟩ false tree).Yields (.start 0) sql u := ⟨hrun⟩
    obtain ⟨_, _, _, -, -, -, hlabels⟩ := hcompiled rfl false _ sql u hyields
    obtain ⟨_, text, -, -, hrefused⟩ := hjoins hwildcard
    rw [hnamed] at hlabels
    refine ⟨tree, hparse, ⟨sql, u, hyields, hlabels⟩, ?_, ?_, text, hrefused _ sql u hyields⟩
    · rw [htypes, ColumnTree.declared?, hnamed]
      rfl
    · rw [htypes, ColumnTree.declared?, hnamed]
      rfl

end Projection

end QueryLoom
