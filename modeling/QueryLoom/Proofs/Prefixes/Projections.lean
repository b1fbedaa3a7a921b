import QueryLoom.Proofs.Prefixes.Clauses

/-!
Column specifications that a prefix was written into. They are read as the same tree with the prefix
before its tables, and what that tree projects repeats, without a prefix, what the tree projects with
it.
-/

namespace QueryLoom

open Compile Prefixed

variable {p : List Char} {t : Target}

/-! Trees. -/

mutual

/-- A node with the prefix before its tables. The names of groups stay, and so do raw expressions. -/
def ColumnNode.marked (p : List Char) : ColumnNode → ColumnNode
  | .field ref => .field (ref.marked p)
  | .raw ref sql parameters => .raw ref sql parameters
  | .group key children => .group key (ColumnNode.markedList p children)
termination_by structural n => n

def ColumnNode.markedList (p : List Char) : List ColumnNode → List ColumnNode
  | [] => []
  | n :: rest => n.marked p :: ColumnNode.markedList p rest
termination_by structural ns => ns

end

/-- A tree with the prefix before its tables, the one in the key of an index included. -/
def ColumnTree.marked (p : List Char) : ColumnTree → ColumnTree
  | .everything => .everything
  | .single ref => .single (ref.marked p)
  | .indexed key children =>
      .indexed (String.ofList (path p key.toList)) (ColumnNode.markedList p children)
  | .columns nodes => .columns (ColumnNode.markedList p nodes)

/-- A reference as a text names it: its table is a name, and that of its column holds no dot. -/
def ColumnRef.IsPath (ref : ColumnRef) : Prop :=
  (∀ table ∈ ref.table, IsIdentifier table) ∧ '.' ∉ ref.column.toList

mutual

/-- Whether all leaves of a node are references as texts name them. -/
def ColumnNode.Refers : ColumnNode → Prop
  | .field ref => ref.IsPath
  | .raw _ _ _ => False
  | .group _ children => ColumnNode.RefersList children
termination_by structural n => n

def ColumnNode.RefersList : List ColumnNode → Prop
  | [] => True
  | n :: rest => n.Refers ∧ ColumnNode.RefersList rest
termination_by structural ns => ns

end

namespace ColumnNode

theorem markedList_append (first rest : List ColumnNode) :
    markedList p (first ++ rest) = markedList p first ++ markedList p rest := by
  induction first with
  | nil => rfl
  | cons n more ih => simp [markedList, ih]

theorem RefersList.append {first rest : List ColumnNode} (hfirst : RefersList first)
    (hrest : RefersList rest) : RefersList (first ++ rest) := by
  induction first with
  | nil => exact hrest
  | cons n more ih => exact ⟨hfirst.1, ih hfirst.2⟩

end ColumnNode

/-! Specifications. -/

namespace ColumnSpec

open ColumnNode (markedList RefersList)
open Tail (map_octets)

/-- Nodes are read from one specification as they are, and from another one with the prefix. -/
def ReadsMarked (p : List Char) (x y : Except Fault (List ColumnNode)) : Prop :=
  ∀ ns, x = .ok ns → y = .ok (markedList p ns) ∧ RefersList ns

/-- An item of any kind, followed by the others. -/
theorem ReadsMarked.cons {v w : Value} {rest others : List Value}
    (hfirst : ReadsMarked p (listItem v) (listItem w))
    (hrest : ReadsMarked p (listNodes rest) (listNodes others)) :
    ReadsMarked p (listNodes (v :: rest)) (listNodes (w :: others)) := by
  intro ns h
  simp only [listNodes_cons, Except.bind_eq_ok, Except.pure_eq_ok] at h ⊢
  obtain ⟨first, hitem, more, hmore, rfl⟩ := h
  obtain ⟨hitem', hfirst⟩ := hfirst first hitem
  obtain ⟨hmore', hrest⟩ := hrest more hmore
  refine ⟨⟨_, hitem', _, hmore', ?_⟩, hfirst.append hrest⟩
  rw [ColumnNode.markedList_append]

theorem columnRef_isPath (hp : IsNamePart p) {text : String} {ref : ColumnRef}
    (h : Key.columnRef text = .ok ref) :
    Key.columnRef (String.ofList (path p text.toList)) = .ok (ref.marked p) ∧ ref.IsPath := by
  obtain ⟨hmarked, htables⟩ := columnRef_path hp h
  exact ⟨hmarked, htables, Key.dot_not_mem_columnRef h⟩

/-- Values under keys, entries and items of lists are read with the prefix before the tables. -/
theorem nodes_columns (hp : IsNamePart p) :
    (∀ (key v : Value), v.rawFree = true → ∀ n, mappedNode key v = .ok n →
      mappedNode key (columns p v) = .ok (n.marked p) ∧ n.Refers) ∧
    (∀ entries : List (Value × Value), Value.rawFreeEntries entries = true →
      ReadsMarked p (mappedNodes entries) (mappedNodes (columnEntries p entries))) ∧
    (∀ items : List Value, Value.rawFreeItems items = true →
      ReadsMarked p (listNodes items) (listNodes (columnItems p items))) := by
  apply mappedNode.mutual_induct
  · intro sql parameters key hfree
    cases hfree
  · intro sql parameters key _ hfree
    cases hfree
  · intro key items ih hfree n h
    simp only [mappedNode, columns, Except.bind_eq_ok, Except.pure_eq_ok] at h ⊢
    obtain ⟨name, hname, children, hchildren, rfl⟩ := h
    obtain ⟨hmarked, hrefers⟩ := ih hfree children hchildren
    exact ⟨⟨name, hname, _, hmarked, rfl⟩, hrefers⟩
  · intro key entries ih hfree n h
    simp only [mappedNode, columns, Except.bind_eq_ok, Except.pure_eq_ok] at h ⊢
    obtain ⟨name, hname, children, hchildren, rfl⟩ := h
    obtain ⟨hmarked, hrefers⟩ := ih hfree children hchildren
    exact ⟨⟨name, hname, _, hmarked, rfl⟩, hrefers⟩
  · intro key v hraw hlist hdict _ n h
    cases v with
    | raw sql parameters => exact absurd rfl (hraw sql parameters)
    | list items => exact absurd rfl (hlist items)
    | dict entries => exact absurd rfl (hdict entries)
    | _ => simp [mappedNode, malformed] at h
  · intro _ ns h
    cases h
    exact ⟨rfl, trivial⟩
  · intro rest text ihrest hfree
    rw [Value.rawFreeItems, Bool.and_eq_true] at hfree
    refine .cons (fun ns h => ?_) (ihrest hfree.2)
    simp only [listItem, Except.bind_eq_ok, Except.pure_eq_ok] at h
    obtain ⟨ref, href, rfl⟩ := h
    obtain ⟨hmarked, hpath⟩ := columnRef_isPath hp href
    simp only [columns, column, onText, listItem, hmarked]
    exact ⟨rfl, hpath, trivial⟩
  · intro rest entries ihrest ih hfree
    rw [Value.rawFreeItems, Bool.and_eq_true] at hfree
    exact .cons (v := .dict entries) (w := .dict (columnEntries p entries)) (ih hfree.1)
      (ihrest hfree.2)
  · intro rest sql parameters _ hfree
    cases hfree
  · intro rest v hstr hdict hraw ihrest hfree
    rw [Value.rawFreeItems, Bool.and_eq_true] at hfree
    refine .cons (fun ns h => ?_) (ihrest hfree.2)
    cases v with
    | str text => exact absurd rfl (hstr text)
    | dict entries => exact absurd rfl (hdict entries)
    | raw sql parameters => exact absurd rfl (hraw sql parameters)
    | _ => simp [listItem, malformed] at h
  · intro _ ns h
    cases h
    exact ⟨rfl, trivial⟩
  · intro key v rest ih ihrest hfree ns h
    rw [Value.rawFreeEntries, Bool.and_eq_true] at hfree
    simp only [mappedNodes, columnEntries, Except.bind_eq_ok, Except.pure_eq_ok] at h ⊢
    obtain ⟨first, hfirst, more, hmore, rfl⟩ := h
    obtain ⟨hmarked, hrefers⟩ := ih hfree.1 first hfirst
    obtain ⟨hmarkedMore, hrefersMore⟩ := ihrest hfree.2 more hmore
    exact ⟨⟨_, hmarked, _, hmarkedMore, rfl⟩, hrefers, hrefersMore⟩

/-- A dictionary that is no index: it is not a single group. -/
theorem parse_dict {entries : Dict} (hlist : ∀ key items, entries ≠ [(key, .list items)])
    (hdict : ∀ key others, entries ≠ [(key, .dict others)]) :
    parse (.dict entries) = (do return .columns (← mappedNodes entries)) ∧
      specification p (.dict entries) = .dict (columnEntries p entries) := by
  cases entries with
  | nil => exact ⟨rfl, rfl⟩
  | cons entry rest =>
      obtain ⟨key, v⟩ := entry
      cases rest with
      | cons second rest => exact ⟨by simp only [parse], by simp only [specification, columns]⟩
      | nil =>
          cases v with
          | list items => exact absurd rfl (hlist key items)
          | dict others => exact absurd rfl (hdict key others)
          | _ => exact ⟨rfl, rfl⟩

theorem columnEntries_eq (entries : Dict) :
    columnEntries p entries = entries.map fun entry => (entry.1, columns p entry.2) := by
  induction entries with
  | nil => rfl
  | cons entry rest ih => rw [columnEntries, ih, List.map_cons]

/-- What is written into a dictionary makes no index of it. -/
theorem columnEntries_ne {entries : Dict} (hlist : ∀ key items, entries ≠ [(key, .list items)])
    (hdict : ∀ key others, entries ≠ [(key, .dict others)]) :
    (∀ key items, columnEntries p entries ≠ [(key, .list items)]) ∧
      ∀ key others, columnEntries p entries ≠ [(key, .dict others)] := by
  simp only [columnEntries_eq, ne_eq, List.map_eq_singleton_iff, Prod.mk.injEq]
  constructor
  · rintro key items ⟨⟨_, v⟩, rfl, -, hv⟩
    cases v with
    | list others => exact hlist _ others rfl
    | _ => cases hv
  · rintro key others ⟨⟨_, v⟩, rfl, -, hv⟩
    cases v with
    | dict others => exact hdict _ others rfl
    | _ => cases hv

theorem columnItems_eq (items : List Value) : columnItems p items = items.map (columns p) := by
  induction items with
  | nil => rfl
  | cons v rest ih => rw [columnItems, ih, List.map_cons]

theorem rawFreeItems_octets (octets : List UInt8) :
    Value.rawFreeItems (octets.map fun o => .int o.toNat) = true := by
  rw [Value.rawFreeItems_eq, List.all_eq_true]
  exact Value.rawFree_octets octets

/-- A specification without raw values is read with the prefix before the tables. -/
theorem parse_specification (hp : IsNamePart p) {v : Value} (hv : v.rawFree = true)
    {tree : ColumnTree} (h : parse v = .ok tree) :
    parse (specification p v) = .ok (tree.marked p) ∧ RefersList tree.nodes := by
  obtain ⟨_, hentries, hitems⟩ := nodes_columns hp
  cases v with
  | null =>
      cases h
      exact ⟨rfl, trivial⟩
  | str text =>
      simp only [parse] at h
      simp only [specification, columns, column, onText, parse, path_beq_star hp]
      split_ifs at h ⊢ with hstar
      · cases h
        exact ⟨rfl, trivial⟩
      · simp only [Except.bind_eq_ok, Except.pure_eq_ok] at h
        obtain ⟨ref, href, rfl⟩ := h
        obtain ⟨hmarked, hpath⟩ := columnRef_isPath hp href
        rw [hmarked]
        exact ⟨rfl, hpath, trivial⟩
  | list items =>
      simp only [parse, Except.bind_eq_ok, Except.pure_eq_ok] at h
      obtain ⟨nodes, hnodes, rfl⟩ := h
      obtain ⟨hmarked, hrefers⟩ := hitems items hv nodes hnodes
      simp only [specification, columns, parse, hmarked]
      exact ⟨rfl, hrefers⟩
  | bytes octets =>
      simp only [parse, Except.bind_eq_ok, Except.pure_eq_ok] at h
      obtain ⟨nodes, hnodes, rfl⟩ := h
      obtain ⟨hmarked, hrefers⟩ := hitems _ (rawFreeItems_octets octets) nodes hnodes
      rw [columnItems_eq, map_octets fun _ => rfl] at hmarked
      simp only [specification, columns, parse, hmarked]
      exact ⟨rfl, hrefers⟩
  | dict entries =>
      by_cases hindex : (∃ key items, entries = [(key, Value.list items)]) ∨
          ∃ key others, entries = [(key, Value.dict others)]
      · rcases hindex with ⟨key, items, rfl⟩ | ⟨key, others, rfl⟩
        · simp only [parse, Except.bind_eq_ok, Except.pure_eq_ok] at h
          obtain ⟨name, hname, children, hchildren, rfl⟩ := h
          obtain ⟨hmarked, hrefers⟩ := hitems items
            (Value.rawFree_dict.mp hv (key, .list items) List.mem_cons_self) children hchildren
          simp only [specification, columns, parse, groupKey_column hp hname, hmarked]
          exact ⟨rfl, hrefers, trivial⟩
        · simp only [parse, Except.bind_eq_ok, Except.pure_eq_ok] at h
          obtain ⟨name, hname, children, hchildren, rfl⟩ := h
          obtain ⟨hmarked, hrefers⟩ := hentries others
            (Value.rawFree_dict.mp hv (key, .dict others) List.mem_cons_self) children hchildren
          simp only [specification, columns, parse, groupKey_column hp hname, hmarked]
          exact ⟨rfl, hrefers, trivial⟩
      · simp only [not_or, not_exists] at hindex
        obtain ⟨hparse, hwritten⟩ := parse_dict (p := p) hindex.1 hindex.2
        obtain ⟨hlist, hdict⟩ := columnEntries_ne (p := p) hindex.1 hindex.2
        rw [hparse] at h
        simp only [Except.bind_eq_ok, Except.pure_eq_ok] at h
        obtain ⟨nodes, hnodes, rfl⟩ := h
        obtain ⟨hmarked, hrefers⟩ := hentries entries hv nodes hnodes
        rw [hwritten, (parse_dict (p := p) hlist hdict).1, hmarked]
        exact ⟨rfl, hrefers⟩
  | _ => cases h

end ColumnSpec

/-! Projections. -/

namespace Projection

open ColumnNode (markedList RefersList)

theorem path_marked {ref : ColumnRef} (h : ref.IsPath) :
    (ref.marked p).path = String.ofList (Prefixed.path p ref.path.toList) := by
  obtain ⟨table, column, label, type⟩ := ref
  have htext := text_marked (p := p) h.1 h.2
  cases table with
  | none => exact htext
  | some table => exact htext

theorem repeats_fieldItem (ht : IsNamePart t.mark) (joins : Bool) {ref : ColumnRef}
    (href : ref.IsPath) :
    Repeats (fieldItem t.plain joins (ref.marked t.mark)) (fieldItem t joins ref) := by
  have hwildcard : (ref.marked t.mark).isWildcard = ref.isWildcard := rfl
  unfold fieldItem
  rw [hwildcard]
  split_ifs
  · exact .throw _ _
  · obtain ⟨table, column, label, type⟩ := ref
    cases table with
    | none => exact .refl _
    | some table =>
        have htable := Target.repeats_table ht table
        rw [← t.ofList_mark] at htable
        exact htable.map _
  · rw [path_marked href]
    refine (Target.repeats_column ht (.str ref.path)).bind fun sql => ?_
    exact .refl _

theorem repeats_listItems (ht : IsNamePart t.mark) (joins : Bool) :
    (∀ n : ColumnNode, n.Refers →
      Repeats (nodeItems t.plain joins (n.marked t.mark)) (nodeItems t joins n)) ∧
    (∀ ns : List ColumnNode, RefersList ns →
      Repeats (listItems t.plain joins (markedList t.mark ns)) (listItems t joins ns)) := by
  apply nodeItems.mutual_induct
  · intro key children ih hrefers
    exact ih hrefers
  · intro ref sql parameters hrefers
    cases hrefers
  · intro ref hrefers
    exact (repeats_fieldItem ht joins hrefers).map _
  · intro _
    exact .refl _
  · intro n rest ih ihrest hrefers
    exact (ih hrefers.1).bind fun first => (ihrest hrefers.2).map _

/-- The items after an index, of which there has to be one. -/
theorem repeats_items (ht : IsNamePart t.mark) (joins : Bool) (ns : List ColumnNode)
    (hns : RefersList ns) (index : List Sql) (tree other : ColumnTree) :
    Repeats
      (do
        let items ← listItems t.plain joins (markedList t.mark ns)
        if (index ++ items).isEmpty then throw (.emptyProjection other)
        return Sql.join ", " (index ++ items))
      (do
        let items ← listItems t joins ns
        if (index ++ items).isEmpty then throw (.emptyProjection tree)
        return Sql.join ", " (index ++ items)) := by
  refine ((repeats_listItems ht joins).2 ns hns).bind fun items => ?_
  split_ifs
  · exact .throw _ _
  · exact .refl _

theorem repeats_compile (ht : IsNamePart t.mark) (joins : Bool) {tree : ColumnTree}
    (htree : RefersList tree.nodes) :
    Repeats (compile t.plain joins (tree.marked t.mark)) (compile t joins tree) := by
  cases tree with
  | everything => exact .refl _
  | single ref => exact repeats_items ht joins [.field ref] htree [] _ _
  | columns nodes => exact repeats_items ht joins nodes htree [] _ _
  | indexed key children =>
      refine (Target.repeats_column ht (.str key)).bind fun index => ?_
      exact repeats_items ht joins [.group key children] htree [index] _ _

end Projection

end QueryLoom
