import QueryLoom.Proofs.Keys.Grammars
import QueryLoom.Proofs.Results.Labels

/-!
What wildcards put into objects. An object is written node by node: a field writes its coerced value, a
group the object of its children, and a wildcard every column of its row. Under each name stands what
was written there last. So an object whose specification has a wildcard has every column of the row, with
the value of the row unless a field or a group of that name follows the wildcard. A specification that is
a single text is the exception: its rows become values, and a wildcard is read like a column.
-/

namespace QueryLoom

/-! The last element with a property. -/

section Last

variable {α : Type} {p : α → Bool} {xs : List α} {x : α}

theorem split_of_findRev? (h : xs.findRev? p = some x) :
    p x = true ∧ ∃ before after, xs = before ++ x :: after ∧ ∀ y ∈ after, p y = false := by
  rw [List.findRev?_eq_find?_reverse, List.find?_eq_some_iff_append] at h
  obtain ⟨hx, after, before, hsplit, hafter⟩ := h
  refine ⟨hx, before.reverse, after.reverse, ?_, by simpa using hafter⟩
  rw [← List.reverse_reverse xs, hsplit]
  simp

theorem exists_findRev? (hx : x ∈ xs) (hp : p x = true) : ∃ y, xs.findRev? p = some y := by
  rw [List.findRev?_eq_find?_reverse]
  exact Option.isSome_iff_exists.mp (List.find?_isSome.mpr ⟨x, List.mem_reverse.mpr hx, hp⟩)

end Last

namespace ColumnNode

def isWildcard : ColumnNode → Bool
  | .field ref => ref.isWildcard
  | _ => false

/-- Whether a node writes under a name, given the row. -/
def writes (row : Row) (name : String) (n : ColumnNode) : Bool :=
  if n.isWildcard then (Dict.get? row name).isSome else n.key == name

end ColumnNode

/-! Wildcards of a specification. -/

/-- A text that selects all columns, or all of a table, with any blanks at its ends. -/
def Key.IsWildcardText (text : String) : Prop :=
  Text.trim text.toList = ['*'] ∨
    ∃ table, IsIdentifier table ∧ Text.trim text.toList = table.toList ++ ['.', '*']

theorem Key.isWildcard_iff {text : String} {ref : ColumnRef} (h : columnRef text = .ok ref) :
    ref.isWildcard = true ↔ IsWildcardText text := by
  have hread : ∀ {table : Option String} {path : List Char}, Text.trim text.toList = path →
      ColumnPathText path ⟨table, "*"⟩ → ref.isWildcard = true := by
    intro table path htext hpath
    have hspells : Spells (Text.trim text.toList) ⟨table, "*", none, none⟩ := by
      have hall : Spells _ ⟨table, "*", none, none⟩ := .intro hpath isBlankText_nil .none
        isBlankText_nil .none isBlankText_nil fun _ => ⟨rfl, rfl⟩
      simpa [htext] using hall
    rw [← columnRef_eq_ok_iff, h] at hspells
    rw [Except.ok.inj hspells]
    rfl
  refine ⟨fun hwildcard => ?_, ?_⟩
  · have htight := isTight_trim text.toList
    have hspells := columnRef_eq_ok_iff.mp h
    rw [IsWildcardText]
    generalize Text.trim text.toList = cs at hspells htight
    obtain ⟨hpath, hgap, hlabel, hgap', htype, hgap'', hplain⟩ := hspells
    obtain ⟨hnolabel, hnotype⟩ := hplain hwildcard
    rw [hnolabel] at hlabel
    rw [hnotype] at htype
    cases hlabel
    cases htype
    -- without a name and a type only blanks could follow the path, and the text ends with none
    have hblank := List.forall_mem_append.mpr ⟨hgap, List.forall_mem_append.mpr ⟨hgap', hgap''⟩⟩
    rw [List.nil_append, List.nil_append] at htight ⊢
    rw [htight.gap_eq_nil hblank, List.append_nil]
    have hstar : ref.column = "*" := beq_iff_eq.mp hwildcard
    rw [hstar] at hpath
    generalize ref.table = table at hpath
    cases hpath with
    | everything => exact .inl rfl
    | everythingOf htable => exact .inr ⟨_, htable, rfl⟩
    | column hcolumn => exact absurd rfl (hcolumn.ne_star [] [])
    | columnOf htable hcolumn => exact absurd rfl (hcolumn.ne_star [] [])
  · rintro (htext | ⟨table, htable, htext⟩)
    · exact hread htext .everything
    · exact hread htext (.everythingOf htable)

namespace ColumnSpec

/-- The nodes that a part of a specification becomes. -/
def nodesOf : Value → Except Fault (List ColumnNode)
  | .null => .ok [.field ⟨none, "*", none, none⟩]
  | .str text => do return [.field (← Key.columnRef text)]
  | .list items => listNodes items
  | .dict entries => mappedNodes entries
  | .bytes octets => listNodes (octets.map fun o => .int o.toNat)
  | v => malformed v (.unsupportedSpecification v.kindName)

/-- A specification without the key of its index. -/
def body : Value → Value
  | .dict [(_, .list items)] => .list items
  | .dict [(_, .dict entries)] => .dict entries
  | spec => spec

/-- A part of a specification opens a group under a key. The dictionaries of a list stand in it as if
their entries were its own. -/
inductive Opens : Value → String → Value → Prop
  | entry {entries : Dict} {key : String} {v : Value} (hmem : (.str key, v) ∈ entries) :
      Opens (.dict entries) (Text.trimmed key) v
  | item {items : List Value} {entries : Dict} {name : String} {v : Value}
      (hmem : .dict entries ∈ items) (h : Opens (.dict entries) name v) : Opens (.list items) name v

/-- What stands in a specification under the keys of groups. -/
inductive Stands : Value → List String → Value → Prop
  | here (v : Value) : Stands v [] v
  | inside {v w part : Value} {name : String} {path : List String} (hopens : Opens v name w)
      (h : Stands w path part) : Stands v (name :: path) part

/-- Whether all columns are selected at a place: by nothing at all, or by a text. -/
def HasWildcard : Value → Prop
  | .null => True
  | .str text => Key.IsWildcardText text
  | .list items => ∃ text, .str text ∈ items ∧ Key.IsWildcardText text
  | _ => False

variable {v : Value} {ns children : List ColumnNode} {items : List Value} {entries : Dict}
  {name : String}

theorem any_isWildcard_mappedNodes (h : mappedNodes entries = .ok ns) :
    ns.any ColumnNode.isWildcard = false := by
  induction entries generalizing ns with
  | nil =>
      cases h
      rfl
  | cons entry rest ih =>
      obtain ⟨key, v⟩ := entry
      simp only [mappedNodes, Except.bind_eq_ok, Except.pure_eq_ok] at h
      obtain ⟨first, hfirst, more, hmore, rfl⟩ := h
      rw [List.any_cons, ih hmore, Bool.or_false]
      cases v with
      | raw sql parameters =>
          cases key with
          | str key =>
              simp only [mappedNode, Except.bind_eq_ok, Except.pure_eq_ok] at hfirst
              obtain ⟨ref, -, rfl⟩ := hfirst
              rfl
          | _ => simp [mappedNode, malformed] at hfirst
      | list items | dict entries =>
          simp only [mappedNode, Except.bind_eq_ok, Except.pure_eq_ok] at hfirst
          obtain ⟨name, -, children, -, rfl⟩ := hfirst
          rfl
      | _ => simp [mappedNode, malformed] at hfirst

/-- The nodes of a list have a wildcard if one of its texts is one. -/
theorem any_isWildcard_listNodes (h : listNodes items = .ok ns) :
    ns.any ColumnNode.isWildcard = true ↔ HasWildcard (.list items) := by
  induction items generalizing ns with
  | nil =>
      cases h
      simp [HasWildcard]
  | cons v rest ih =>
      simp only [listNodes_cons, Except.bind_eq_ok, Except.pure_eq_ok] at h
      obtain ⟨first, hfirst, more, hmore, rfl⟩ := h
      rw [List.any_append, Bool.or_eq_true, ih hmore]
      cases v with
      | str text =>
          simp only [listItem, Except.bind_eq_ok, Except.pure_eq_ok] at hfirst
          obtain ⟨ref, href, rfl⟩ := hfirst
          simp [HasWildcard, ColumnNode.isWildcard, Key.isWildcard_iff href, or_and_right, exists_or]
      | dict entries =>
          rw [any_isWildcard_mappedNodes hfirst]
          simp [HasWildcard]
      | _ => simp [listItem, malformed] at hfirst

/-- The nodes of a part have a wildcard if the part has one. -/
theorem any_isWildcard_iff (h : nodesOf v = .ok ns) :
    ns.any ColumnNode.isWildcard = true ↔ HasWildcard v := by
  cases v with
  | null =>
      cases h
      simp [HasWildcard, ColumnNode.isWildcard, ColumnRef.isWildcard]
  | str text =>
      simp only [nodesOf, Except.bind_eq_ok, Except.pure_eq_ok] at h
      obtain ⟨ref, href, rfl⟩ := h
      simp [HasWildcard, ColumnNode.isWildcard, Key.isWildcard_iff href]
  | list items => exact any_isWildcard_listNodes h
  | dict entries => simp [any_isWildcard_mappedNodes h, HasWildcard]
  | bytes octets =>
      rw [any_isWildcard_listNodes h]
      simp [HasWildcard]
  | _ => simp [nodesOf, malformed] at h

/-- A group comes from a list or a dictionary under a text that names it. -/
theorem group_of_mappedNode {key : Value} (h : mappedNode key v = .ok (.group name children)) :
    ∃ text, key = .str text ∧ name = Text.trimmed text ∧ nodesOf v = .ok children := by
  have hname : ∀ {key : Value}, groupKey key = .ok name →
      ∃ text, key = .str text ∧ name = Text.trimmed text := by
    intro key hkey
    cases key with
    | str text =>
        simp only [groupKey] at hkey
        split_ifs at hkey
        · cases hkey
        · exact ⟨text, rfl, (Except.ok.inj hkey).symm⟩
    | _ => cases hkey
  cases v with
  | raw sql parameters =>
      cases key with
      | str key =>
          simp only [mappedNode, Except.bind_eq_ok, Except.pure_eq_ok] at h
          obtain ⟨_, -, h⟩ := h
          cases h
      | _ => simp [mappedNode, malformed] at h
  | list items | dict entries =>
      simp only [mappedNode, Except.bind_eq_ok, Except.pure_eq_ok, ColumnNode.group.injEq] at h
      obtain ⟨_, hkey, _, hchildren, rfl, rfl⟩ := h
      obtain ⟨text, rfl, rfl⟩ := hname hkey
      exact ⟨text, rfl, rfl, hchildren⟩
  | _ => simp [mappedNode, malformed] at h

theorem Opens.mono {more : Dict} {w : Value} (h : Opens (.dict entries) name w)
    (hsub : ∀ entry ∈ entries, entry ∈ more) : Opens (.dict more) name w := by
  cases h with
  | entry hmem => exact .entry (hsub _ hmem)

theorem opens_of_mem_mappedNodes (h : mappedNodes entries = .ok ns)
    (hmem : .group name children ∈ ns) :
    ∃ w, Opens (.dict entries) name w ∧ nodesOf w = .ok children := by
  induction entries generalizing ns with
  | nil =>
      cases h
      cases hmem
  | cons entry rest ih =>
      obtain ⟨key, v⟩ := entry
      simp only [mappedNodes, Except.bind_eq_ok, Except.pure_eq_ok] at h
      obtain ⟨first, hfirst, more, hmore, rfl⟩ := h
      rcases List.mem_cons.mp hmem with rfl | hmem
      · obtain ⟨text, rfl, rfl, hnodes⟩ := group_of_mappedNode hfirst
        exact ⟨v, .entry List.mem_cons_self, hnodes⟩
      · obtain ⟨w, hopens, hnodes⟩ := ih hmore hmem
        exact ⟨w, hopens.mono fun entry hentry => List.mem_cons_of_mem _ hentry, hnodes⟩

theorem opens_of_mem_listNodes (h : listNodes items = .ok ns)
    (hmem : .group name children ∈ ns) :
    ∃ w, Opens (.list items) name w ∧ nodesOf w = .ok children := by
  induction items generalizing ns with
  | nil =>
      cases h
      cases hmem
  | cons v rest ih =>
      simp only [listNodes_cons, Except.bind_eq_ok, Except.pure_eq_ok] at h
      obtain ⟨first, hfirst, more, hmore, rfl⟩ := h
      rcases List.mem_append.mp hmem with hmem | hmem
      · cases v with
        | str text =>
            simp only [listItem, Except.bind_eq_ok, Except.pure_eq_ok] at hfirst
            obtain ⟨ref, -, rfl⟩ := hfirst
            simp at hmem
        | dict entries =>
            obtain ⟨w, hopens, hnodes⟩ := opens_of_mem_mappedNodes hfirst hmem
            exact ⟨w, .item List.mem_cons_self hopens, hnodes⟩
        | _ => simp [listItem, malformed] at hfirst
      · obtain ⟨w, hopens, hnodes⟩ := ih hmore hmem
        cases hopens with
        | item hitem hopens => exact ⟨w, .item (List.mem_cons_of_mem _ hitem) hopens, hnodes⟩

theorem opens_of_mem (h : nodesOf v = .ok ns) (hmem : .group name children ∈ ns) :
    ∃ w, Opens v name w ∧ nodesOf w = .ok children := by
  cases v with
  | null =>
      cases h
      simp at hmem
  | str text =>
      simp only [nodesOf, Except.bind_eq_ok, Except.pure_eq_ok] at h
      obtain ⟨ref, -, rfl⟩ := h
      simp at hmem
  | list items => exact opens_of_mem_listNodes h hmem
  | dict entries => exact opens_of_mem_mappedNodes h hmem
  | bytes octets =>
      obtain ⟨w, hopens, -⟩ := opens_of_mem_listNodes h hmem
      cases hopens with
      | item hitem _ => simp at hitem
  | _ => simp [nodesOf, malformed] at h

end ColumnSpec

namespace Shape

open ColumnNode Mapping

variable {nesting : Nat} {labels : ColumnLabels} {row object result : Dict} {n : ColumnNode}
  {ns children level : List ColumnNode} {path : List String}

/-- What a node writes under a name. -/
def Written (nesting : Nat) (labels : ColumnLabels) (row : Row) (name : String) (n : ColumnNode)
    (w : Value) : Prop :=
  match n with
  | .group _ children =>
      ∃ inner, (addNodes nesting labels row [] children).EndsIn (.ok inner) ∧ w = .dict inner
  | .raw ref _ _ => Reads nesting labels row ref w
  | .field ref =>
      if ref.isWildcard then Dict.get? row name = some w else Reads nesting labels row ref w

/-- The node that writes last under a name. -/
def lastWriter (row : Row) (name : String) (ns : List ColumnNode) : Option ColumnNode :=
  ns.findRev? (writes row name)

/-- A value of a name after a new one was written under a key. -/
theorem get?_insert_str (key name : String) (v : Value) (object : Dict) :
    Dict.get? (Assoc.insert (.str key) v object) name =
      if key == name then some v else Dict.get? object name := by
  rw [Dict.get?, (Assoc.plain_str name).get?_insert, Value.str_beq_str]
  rfl

/-- A node that is no wildcard writes under its key only. -/
theorem get?_insert_key (name : String) {w : Value} (hn : n.isWildcard = false)
    (hw : Written nesting labels row name n w) :
    if n.writes row name then
      ∃ w', Written nesting labels row name n w' ∧
        Dict.get? (Assoc.insert (.str n.key) w object) name = some w'
    else Dict.get? (Assoc.insert (.str n.key) w object) name = Dict.get? object name := by
  rw [writes, hn, get?_insert_str]
  simp only [Bool.false_eq_true, ↓reduceIte]
  split_ifs
  · exact ⟨w, hw, rfl⟩
  · rfl

/-- One node: what it writes is found, and other names keep their values. -/
theorem get?_addNode (hrow : Assoc.Distinct row)
    (h : (addNode nesting labels row object n).EndsIn (.ok result)) (name : String) :
    if n.writes row name then ∃ w, Written nesting labels row name n w ∧ Dict.get? result name = some w
    else Dict.get? result name = Dict.get? object name := by
  cases n with
  | group key children =>
      obtain ⟨inner, hinner, h⟩ :=
        EndsIn.of_bind ((decided_addNodes nesting labels row).2 [] children) (fun _ => decided_pure _) h
      rw [h.of_pure]
      exact get?_insert_key name rfl ⟨inner, hinner, rfl⟩
  | raw ref sql parameters =>
      obtain ⟨w, hw, h⟩ :=
        EndsIn.of_bind (decided_readLabel labels row ref.outputName) (fun _ => decided_pure _) h
      rw [h.of_pure]
      exact get?_insert_key name rfl hw
  | field ref =>
      rw [addNode] at h
      split_ifs at h with hwildcard
      · have hmerge : Dict.get? result name = (Dict.get? row name).or (Dict.get? object name) := by
          rw [h.of_pure]
          exact (Assoc.plain_str name).get?_merge hrow
        rw [writes, show isWildcard (.field ref) = true from hwildcard, hmerge]
        cases hfound : Dict.get? row name with
        | none => simp
        | some v => simp [Written, hwildcard, hfound]
      · obtain ⟨w, hw, h⟩ :=
          EndsIn.of_bind (decided_readLabel labels row ref.outputName) (fun _ => decided_pure _) h
        rw [h.of_pure]
        refine get?_insert_key name (by simpa [isWildcard] using hwildcard) ?_
        rw [Written, if_neg hwildcard]
        exact hw

/-- A row of nodes: what was written last under a name is found. -/
theorem get?_addNodes (hrow : Assoc.Distinct row)
    (h : (addNodes nesting labels row object ns).EndsIn (.ok result)) (name : String) :
    match lastWriter row name ns with
    | some n => ∃ w, Written nesting labels row name n w ∧ Dict.get? result name = some w
    | none => Dict.get? result name = Dict.get? object name := by
  induction ns generalizing object with
  | nil =>
      rw [show result = object from h.of_pure]
      rfl
  | cons n rest ih =>
      obtain ⟨next, hnode, hrest⟩ := EndsIn.of_bind ((decided_addNodes nesting labels row).1 object n)
        (fun _ => (decided_addNodes nesting labels row).2 _ rest) h
      have hfirst := get?_addNode hrow hnode name
      have hmore := ih hrest
      unfold lastWriter at hmore ⊢
      rw [List.findRev?]
      cases hlast : rest.findRev? (writes row name) with
      | some m =>
          rw [hlast] at hmore
          exact hmore
      | none =>
          rw [hlast] at hmore
          dsimp only at hmore ⊢
          split_ifs at hfirst ⊢ <;> rw [hmore] <;> exact hfirst

/-! Levels. -/

/-- The nodes of a group, reached along the keys of the groups around it. No sibling that follows one of
these groups writes under its key. -/
inductive Level (row : Row) : List ColumnNode → List String → List ColumnNode → Prop
  | here (ns : List ColumnNode) : Level row ns [] ns
  | inside {ns children level : List ColumnNode} {key : String} {path : List String}
      (hlast : lastWriter row key ns = some (.group key children))
      (h : Level row children path level) : Level row ns (key :: path) level

/-- The object under some keys of an object. -/
def objectAt? : List String → Dict → Option Dict
  | [], object => some object
  | key :: path, object =>
      match Dict.get? object key with
      | some (.dict inner) => objectAt? path inner
      | _ => none

/-- The object of a level stands under the keys that lead to it. -/
theorem objectAt?_addNodes (hrow : Assoc.Distinct row) (hlevel : Level row ns path level)
    (h : (addNodes nesting labels row [] ns).EndsIn (.ok object)) :
    ∃ inner, objectAt? path object = some inner ∧
      (addNodes nesting labels row [] level).EndsIn (.ok inner) := by
  induction hlevel generalizing object with
  | here ns => exact ⟨object, rfl, h⟩
  | @inside ns children level key path hlast _ ih =>
      have hfound := get?_addNodes hrow h key
      rw [hlast] at hfound
      obtain ⟨w, ⟨inner, hinner, rfl⟩, hget⟩ := hfound
      rw [objectAt?, hget]
      exact ih hinner

/-- The columns of the nodes of a level are among those below the nodes that lead to it. -/
theorem leaves_subset_of_level (hlevel : Level row ns path level) :
    leavesOf level ⊆ leavesOf ns := by
  induction hlevel with
  | here ns => exact fun _ h => h
  | @inside ns children level key path hlast _ ih =>
      obtain ⟨-, before, after, rfl, -⟩ := split_of_findRev? hlast
      intro leaf hleaf
      rw [leavesOf_append, leavesOf, leaves]
      exact List.mem_append_right _ (List.mem_append_left _ (ih hleaf))

/-- A level comes from the part of the specification that stands under its keys. -/
theorem stands_of_level {v : Value} (hlevel : Level row ns path level)
    (h : ColumnSpec.nodesOf v = .ok ns) :
    ∃ part, ColumnSpec.Stands v path part ∧ ColumnSpec.nodesOf part = .ok level := by
  induction hlevel generalizing v with
  | here ns => exact ⟨v, .here v, h⟩
  | @inside ns children level key path hlast _ ih =>
      obtain ⟨-, before, after, rfl, -⟩ := split_of_findRev? hlast
      obtain ⟨w, hopens, hnodes⟩ := ColumnSpec.opens_of_mem h
        (List.mem_append_right before List.mem_cons_self)
      obtain ⟨part, hstands, hpart⟩ := ih hnodes
      exact ⟨part, .inside hopens hstands, hpart⟩

/-- The column that declares the type under a label: the last one with this label. -/
def typed? (tree : ColumnTree) (name : String) : Option ColumnRef :=
  tree.labelledRefs.findRev? fun ref => ref.outputName == name

/-- Whether a node leaves what stands under the name of a column. -/
def passes (name : String) (n : ColumnNode) : Bool := !n.isWildcard && n.key != name

/-- What stands under the name of a column of the row in the object of a level with a wildcard: the
value of the row, unless a node of that name follows the last wildcard. The last such node decides: a
field or a raw column gives the value coerced to the type that is declared for the name, a group the
object of its children. -/
inductive Holds (nesting : Nat) (tree : ColumnTree) (row : Row) (name : String) (v : Value) :
    List ColumnNode → Value → Prop
  | column {before after : List ColumnNode} {star : ColumnRef} (hstar : star.isWildcard = true)
      (hafter : ∀ n ∈ after, passes name n = true) :
      Holds nesting tree row name v (before ++ .field star :: after) v
  | field {before after : List ColumnNode} {n : ColumnNode} {ref typed : ColumnRef} {w : Value}
      (hn : n.isWildcard = false) (href : n.ref? = some ref) (hname : ref.outputName = name)
      (hafter : ∀ n ∈ after, passes name n = true) (htyped : typed? tree name = some typed)
      (hw : typed.coerced nesting v = .ok w) : Holds nesting tree row name v (before ++ n :: after) w
  | group {before after children : List ColumnNode} {inner : Dict}
      (hafter : ∀ n ∈ after, passes name n = true)
      (hinner : (addNodes nesting tree.labels row [] children).EndsIn (.ok inner)) :
      Holds nesting tree row name v (before ++ .group name children :: after) (.dict inner)

theorem passes_of_not_writes {name : String} {v : Value} (hget : Dict.get? row name = some v)
    (h : n.writes row name = false) : passes name n = true := by
  rw [writes, hget] at h
  rw [passes]
  cases hn : n.isWildcard <;> simp_all

/-- A value that is read under a label is coerced to the type declared for it. -/
theorem coerced_of_reads {tree : ColumnTree} {ref typed : ColumnRef} {v w : Value}
    (htyped : typed? tree ref.outputName = some typed)
    (hget : Dict.get? row ref.outputName = some v) (h : Reads nesting tree.labels row ref w) :
    typed.coerced nesting v = .ok w := by
  obtain ⟨hname, before, after, hsplit, hafter⟩ := split_of_findRev? htyped
  rw [beq_iff_eq] at hname
  have hlabel := ColumnTree.get?_labels_last hsplit fun other hother => by
    simpa [hname] using hafter other hother
  rw [hname] at hlabel
  have hvalue : Dict.getD row ref.outputName = v := by
    rw [Dict.getD, hget, Option.getD_some]
  rw [Reads, readLabel, hlabel, hvalue, Option.getD_some, ← hname] at h
  exact h.run

/-- Whether the named columns among some leaves are columns that the tree labels. -/
def Labels (tree : ColumnTree) (leaves : List ColumnNode) : Prop :=
  ∀ leaf ∈ leaves, leaf.isWildcard = false → ∀ ref, leaf.ref? = some ref → ref ∈ tree.labelledRefs

/-- A named column that writes last decides what stands under its name. -/
theorem holds_named {tree : ColumnTree} {name : String} {v w : Value} {ref : ColumnRef}
    {before after : List ColumnNode} (href : ref ∈ tree.labelledRefs) (hn : n.isWildcard = false)
    (hnode : n.ref? = some ref) (hname : ref.outputName = name)
    (hafter : ∀ m ∈ after, passes name m = true) (hget : Dict.get? row name = some v)
    (hw : Reads nesting tree.labels row ref w) : Holds nesting tree row name v (before ++ n :: after) w := by
  subst hname
  obtain ⟨typed, htyped⟩ := exists_findRev? (p := fun other => other.outputName == ref.outputName)
    href (beq_self_eq_true _)
  exact .field hn hnode rfl hafter htyped (coerced_of_reads htyped hget hw)

/-- The object of a level with a wildcard has every column of the row. -/
theorem holds_addNodes (hrow : Assoc.Distinct row) {tree : ColumnTree} {name : String} {v : Value}
    (hlabels : Labels tree (leavesOf level)) (hstar : level.any isWildcard = true)
    (h : (addNodes nesting tree.labels row [] level).EndsIn (.ok object))
    (hget : Dict.get? row name = some v) :
    ∃ w, Dict.get? object name = some w ∧ Holds nesting tree row name v level w := by
  obtain ⟨star, hmem, hwildcard⟩ := List.any_eq_true.mp hstar
  have hwrites : star.writes row name = true := by
    simp [writes, hwildcard, hget]
  obtain ⟨n, hlast⟩ := exists_findRev? hmem hwrites
  have hfound := get?_addNodes hrow h name
  rw [lastWriter, hlast] at hfound
  obtain ⟨w, hw, hw'⟩ := hfound
  refine ⟨w, hw', ?_⟩
  obtain ⟨hn, before, after, rfl, hafter⟩ := split_of_findRev? hlast
  replace hafter : ∀ m ∈ after, passes name m = true := fun m hm =>
    passes_of_not_writes hget (hafter m hm)
  have hkey : n.isWildcard = false → n.key = name := by
    intro hnot
    rw [writes, hnot] at hn
    exact beq_iff_eq.mp hn
  have hbelow : n.leaves ⊆ leavesOf (before ++ n :: after) := by
    intro leaf hleaf
    rw [leavesOf_append, leavesOf]
    exact List.mem_append_right _ (List.mem_append_left _ hleaf)
  cases n with
  | group key children =>
      obtain ⟨inner, hinner, rfl⟩ := hw
      obtain rfl : key = name := hkey rfl
      exact .group hafter hinner
  | raw ref sql parameters =>
      have hleaf := @hbelow (.raw ref sql parameters) (List.mem_singleton_self _)
      exact holds_named (hlabels _ hleaf rfl ref rfl) rfl rfl (hkey rfl) hafter hget hw
  | field ref =>
      rw [Written] at hw
      split_ifs at hw with href
      · obtain rfl : w = v := Option.some.inj (hw.symm.trans hget)
        exact .column href hafter
      · have hnot : isWildcard (.field ref) = false := by simpa [isWildcard] using href
        have hleaf := @hbelow (.field ref) (List.mem_singleton_self _)
        exact holds_named (hlabels _ hleaf hnot ref rfl) hnot rfl (hkey hnot) hafter hget hw

/-! Rows. -/

/-- The nodes of the object that a row becomes. -/
def objectNodes : ColumnTree → List ColumnNode
  | .everything => [.field ⟨none, "*", none, none⟩]
  | .single ref => [.field ref]
  | .indexed _ children => children
  | .columns nodes => nodes

variable {tree : ColumnTree} {value : Value}

theorem labels_objectNodes (tree : ColumnTree) : Labels tree (leavesOf (objectNodes tree)) := by
  intro leaf hleaf hnot ref href
  have hbelow : leaf ∈ tree.leaves := by
    cases tree with
    | everything =>
        rw [objectNodes, leavesOf, leavesOf, leaves, List.append_nil, List.mem_singleton] at hleaf
        subst hleaf
        cases hnot
    | single ref => exact hleaf
    | indexed key children =>
        rw [ColumnTree.leaves, ColumnTree.nodes, leavesOf, leavesOf, List.append_nil, leaves]
        exact hleaf
    | columns nodes => exact hleaf
  refine List.mem_filterMap.mpr ⟨leaf, hbelow, ?_⟩
  cases leaf with
  | field other =>
      obtain rfl := Option.some.inj href
      exact if_neg (by simpa [isWildcard] using hnot)
  | raw other sql parameters => exact href
  | group key children => cases href

theorem nodesOf_body {spec : Value} (h : ColumnSpec.parse spec = .ok tree) :
    ColumnSpec.nodesOf (ColumnSpec.body spec) = .ok (objectNodes tree) := by
  unfold ColumnSpec.parse at h
  split at h
  · cases h
    rfl
  · rename_i text
    split_ifs at h with hstar
    · cases h
      rw [beq_iff_eq.mp hstar]
      rfl
    · simp only [Except.bind_eq_ok, Except.pure_eq_ok] at h
      obtain ⟨ref, href, rfl⟩ := h
      simp only [ColumnSpec.body, ColumnSpec.nodesOf, href]
      rfl
  · simp only [Except.bind_eq_ok, Except.pure_eq_ok] at h
    obtain ⟨name, -, children, hchildren, rfl⟩ := h
    exact hchildren
  · simp only [Except.bind_eq_ok, Except.pure_eq_ok] at h
    obtain ⟨name, -, children, hchildren, rfl⟩ := h
    exact hchildren
  · rename_i entries hlist hdict
    simp only [Except.bind_eq_ok, Except.pure_eq_ok] at h
    obtain ⟨nodes, hnodes, rfl⟩ := h
    have hbody : ColumnSpec.body (.dict entries) = .dict entries := by
      unfold ColumnSpec.body
      split
      · next hspec => exact absurd (Value.dict.inj hspec) (hlist _ _)
      · next hspec => exact absurd (Value.dict.inj hspec) (hdict _ _)
      · rfl
    rw [hbody]
    exact hnodes
  · simp only [Except.bind_eq_ok, Except.pure_eq_ok] at h
    obtain ⟨nodes, hnodes, rfl⟩ := h
    exact hnodes
  · simp only [Except.bind_eq_ok, Except.pure_eq_ok] at h
    obtain ⟨nodes, hnodes, rfl⟩ := h
    exact hnodes
  · cases h

/-- A value is an object in which every level with a wildcard has every column of the row. -/
def KeepsColumns (nesting : Nat) (tree : ColumnTree) (row : Row) (value : Value) : Prop :=
  ∃ object, value = .dict object ∧ ∀ path level, Level row (objectNodes tree) path level →
    ∃ inner, objectAt? path object = some inner ∧
      (level.any isWildcard = true → ∀ name v, Dict.get? row name = some v →
        ∃ w, Dict.get? inner name = some w ∧ Holds nesting tree row name v level w)

theorem keepsColumns_addNodes (hrow : Assoc.Distinct row)
    (h : (addNodes nesting tree.labels row [] (objectNodes tree)).EndsIn (.ok object)) :
    KeepsColumns nesting tree row (.dict object) := by
  refine ⟨object, rfl, fun path level hlevel => ?_⟩
  obtain ⟨inner, hat, hinner⟩ := objectAt?_addNodes hrow hlevel h
  refine ⟨inner, hat, fun hstar name v hget => holds_addNodes hrow ?_ hstar hinner hget⟩
  exact fun leaf hleaf => labels_objectNodes tree leaf (leaves_subset_of_level hlevel hleaf)

theorem mapRow_eq (h : tree.isEverything = false) (row : Row) :
    mapRow nesting tree row = do
      return .dict (← addNodes nesting tree.labels row [] (objectNodes tree)) := by
  cases tree with
  | everything => cases h
  | _ => rfl

/-- A row under everything keeps its columns as they are. -/
theorem keepsColumns_everything (row : Row) : KeepsColumns nesting .everything row (.dict row) := by
  refine ⟨row, rfl, fun path level hlevel => ?_⟩
  cases hlevel with
  | here =>
      refine ⟨row, rfl, fun _ name v hget => ⟨v, hget, ?_⟩⟩
      exact @Holds.column nesting .everything row name v [] [] _ rfl (by simp)
  | @inside _ children _ key path hlast _ =>
      obtain ⟨-, before, after, hsplit, -⟩ := split_of_findRev? hlast
      have hmem : ColumnNode.group key children ∈ objectNodes .everything := by
        rw [hsplit]
        simp
      simp [objectNodes] at hmem

theorem keepsColumns_mapRow (hrow : Assoc.Distinct row)
    (h : (run (mapRow nesting tree row)).1 = .ok value) :
    KeepsColumns nesting tree row value := by
  have hends := (decided_mapRow tree row).endsIn_ok h
  cases heverything : tree.isEverything with
  | true =>
      cases tree with
      | everything =>
          rw [show value = .dict row from hends.of_pure]
          exact keepsColumns_everything row
      | _ => cases heverything
  | false =>
      rw [mapRow_eq heverything] at hends
      obtain ⟨object, hobject, hends⟩ :=
        EndsIn.of_bind ((decided_addNodes nesting tree.labels row).2 [] _) (fun _ => decided_pure _) hends
      rw [hends.of_pure]
      exact keepsColumns_addNodes hrow hobject

/-- Whether every named column of a tree can be read from a row. -/
def Readable (nesting : Nat) (tree : ColumnTree) (row : Row) : Prop :=
  ∀ ref ∈ tree.labelledRefs, ∃ w, Reads nesting tree.labels row ref w

/-- Nodes whose columns can be read make an object. -/
theorem exists_addNodes (hread : Readable nesting tree row) :
    (∀ (object : Dict) (n : ColumnNode), Labels tree n.leaves →
      ∃ result, (addNode nesting tree.labels row object n).EndsIn (.ok result)) ∧
    ∀ (object : Dict) (ns : List ColumnNode), Labels tree (leavesOf ns) →
      ∃ result, (addNodes nesting tree.labels row object ns).EndsIn (.ok result) := by
  apply addNode.mutual_induct
  · intro object key children ih hlabels
    obtain ⟨inner, hinner⟩ := ih hlabels
    exact ⟨_, hinner.bind_ok (EndsIn.pure _)⟩
  · intro object ref sql parameters hlabels
    obtain ⟨w, hw⟩ := hread ref (hlabels (.raw ref sql parameters) (by simp [leaves]) rfl ref rfl)
    exact ⟨_, hw.bind_ok (EndsIn.pure _)⟩
  · intro object ref hwildcard _
    rw [addNode, if_pos hwildcard]
    exact ⟨_, EndsIn.pure _⟩
  · intro object ref hwildcard hlabels
    obtain ⟨w, hw⟩ := hread ref (hlabels (.field ref) (by simp [leaves])
      (by simpa [isWildcard] using hwildcard) ref rfl)
    rw [addNode, if_neg hwildcard]
    exact ⟨_, hw.bind_ok (EndsIn.pure _)⟩
  · intro object _
    exact ⟨object, EndsIn.pure object⟩
  · intro object n rest ih ihrest hlabels
    rw [leavesOf, Labels, List.forall_mem_append] at hlabels
    obtain ⟨next, hnext⟩ := ih hlabels.1
    obtain ⟨result, hresult⟩ := ihrest next hlabels.2
    exact ⟨result, hnext.bind_ok hresult⟩

theorem exists_mapRow (hread : Readable nesting tree row) :
    ∃ value, (run (mapRow nesting tree row)).1 = .ok value := by
  cases heverything : tree.isEverything with
  | true =>
      cases tree with
      | everything => exact ⟨.dict row, rfl⟩
      | _ => cases heverything
  | false =>
      obtain ⟨object, hobject⟩ := (exists_addNodes hread).2 [] _ (labels_objectNodes tree)
      rw [mapRow_eq heverything]
      refine ⟨.dict object, EndsIn.run (hobject.bind_ok ?_)⟩
      exact EndsIn.pure _

/-! Results. -/

/-- A result holds what each row became: under the values of the index column if there is one, in the
order of the rows otherwise. -/
def Gathers (nesting : Nat) (tree : ColumnTree) (rows : List Row) (result : Value) : Prop :=
  match tree.indexColumn? with
  | none => ∃ values, result = .list values ∧ List.Forall₂ (KeepsColumns nesting tree) rows values
  | some column => ∃ entries : Dict, result = .dict (Assoc.ofList entries) ∧
      List.Forall₂ (fun row entry => entry.1 = Dict.getD row column ∧ KeepsColumns nesting tree row entry.2)
        rows entries

/-- Whether a row can be mapped: its columns can be read, and its index value can be a key. -/
structure Mappable (nesting : Nat) (tree : ColumnTree) (row : Row) : Prop where
  readable : Readable nesting tree row
  index : ∀ column, tree.indexColumn? = some column → (Dict.getD row column).isHashable = true

end Shape

/-- What holds of each element and what it gives holds of the elements and results of a list. -/
theorem Except.forall₂_of_mapM {ε α β : Type} {f : α → Except ε β} {R : α → β → Prop} {xs : List α}
    {ys : List β} (h : xs.mapM f = .ok ys) (hR : ∀ x ∈ xs, ∀ y, f x = .ok y → R x y) :
    List.Forall₂ R xs ys := by
  induction xs generalizing ys with
  | nil =>
      cases h
      exact .nil
  | cons x rest ih =>
      simp only [List.mapM_cons, Except.bind_eq_ok, Except.pure_eq_ok] at h
      obtain ⟨y, hy, more, hmore, rfl⟩ := h
      rw [List.forall_mem_cons] at hR
      exact .cons (hR.1 y hy) (ih hmore hR.2)

theorem Except.exists_mapM {ε α β : Type} {f : α → Except ε β} {xs : List α}
    (h : ∀ x ∈ xs, ∃ y, f x = .ok y) : ∃ ys, xs.mapM f = .ok ys := by
  induction xs with
  | nil => exact ⟨[], rfl⟩
  | cons x rest ih =>
      rw [List.forall_mem_cons] at h
      obtain ⟨y, hy⟩ := h.1
      obtain ⟨ys, hys⟩ := ih h.2
      refine ⟨y :: ys, ?_⟩
      rw [List.mapM_cons, hy, hys]
      rfl

namespace Shape

open Mapping

variable {nesting : Nat} {tree : ColumnTree} {rows : List Row} {result : Value}

theorem run_mapRows_columns (nodes : List ColumnNode) (rows : List Row) :
    (run (mapRows nesting (.columns nodes) rows)).1 =
      (rows.mapM fun row => (run (mapRow nesting (.columns nodes) row)).1).map .list :=
  (endsIn_mapEach (decided_mapRow _) rows).map.run

theorem run_mapRows_indexed (key : String) (children : List ColumnNode) (rows : List Row) :
    (run (mapRows nesting (.indexed key children) rows)).1 =
      ((rows.mapM (indexEntry nesting (.indexed key children) (ColumnTree.lastSegment key))).map
        (Assoc.merge [])).map .dict :=
  (endsIn_mapIndexed _ _ [] rows).map.run

theorem gathers_mapRows (hsingle : tree.isSingle = false) (hrows : ∀ row ∈ rows, Assoc.Distinct row)
    (h : (run (mapRows nesting tree rows)).1 = .ok result) : Gathers nesting tree rows result := by
  cases tree with
  | everything =>
      obtain rfl := Except.ok.inj h
      refine ⟨rows.map .dict, rfl, ?_⟩
      rw [List.forall₂_map_right_iff, List.forall₂_same]
      exact fun row _ => keepsColumns_everything row
  | single ref => cases hsingle
  | columns nodes =>
      rw [run_mapRows_columns] at h
      cases hvalues : rows.mapM fun row => (run (mapRow nesting (.columns nodes) row)).1 with
      | error fault =>
          rw [hvalues] at h
          cases h
      | ok values =>
          rw [hvalues] at h
          obtain rfl := Except.ok.inj h
          exact ⟨values, rfl, Except.forall₂_of_mapM hvalues fun row hrow value hvalue =>
            keepsColumns_mapRow (hrows row hrow) hvalue⟩
  | indexed key children =>
      rw [run_mapRows_indexed] at h
      cases hentries : rows.mapM
          (indexEntry nesting (.indexed key children) (ColumnTree.lastSegment key)) with
      | error fault =>
          rw [hentries] at h
          cases h
      | ok entries =>
          rw [hentries] at h
          obtain rfl := Except.ok.inj h
          refine ⟨entries, rfl, Except.forall₂_of_mapM hentries fun row hrow entry hentry => ?_⟩
          simp only [indexEntry, Except.bind_eq_ok] at hentry
          obtain ⟨value, hvalue, hentry⟩ := hentry
          split_ifs at hentry
          obtain rfl := Except.ok.inj hentry
          exact ⟨rfl, keepsColumns_mapRow (hrows row hrow) hvalue⟩

theorem exists_mapRows (hsingle : tree.isSingle = false) (hrows : ∀ row ∈ rows, Mappable nesting tree row) :
    ∃ result, (run (mapRows nesting tree rows)).1 = .ok result := by
  cases tree with
  | everything => exact ⟨_, rfl⟩
  | single ref => cases hsingle
  | columns nodes =>
      obtain ⟨values, hvalues⟩ := Except.exists_mapM
        (f := fun row => (run (mapRow nesting (.columns nodes) row)).1) fun row hrow =>
          exists_mapRow (hrows row hrow).readable
      rw [run_mapRows_columns, hvalues]
      exact ⟨_, rfl⟩
  | indexed key children =>
      have hentry : ∀ row ∈ rows, ∃ entry,
          indexEntry nesting (.indexed key children) (ColumnTree.lastSegment key) row = .ok entry := by
        intro row hrow
        obtain ⟨value, hvalue⟩ := exists_mapRow (hrows row hrow).readable
        refine ⟨(Dict.getD row (ColumnTree.lastSegment key), value), ?_⟩
        rw [indexEntry, hvalue]
        exact if_pos ((hrows row hrow).index _ rfl)
      obtain ⟨entries, hentries⟩ := Except.exists_mapM hentry
      rw [run_mapRows_indexed, hentries]
      exact ⟨_, rfl⟩

/-- For every column specification: the groups of its tree stand where it has them, and a level has a
wildcard exactly if the specification has a wildcard text there: `*` or `table.*`, with any blanks at its
ends. A row whose named columns can be read becomes an object, and in the object of every level that has
a wildcard, at any depth, every column of the row is found. It has the value of the row unless a node of
its name follows the last wildcard: a field or a raw column gives the value coerced to the type that is
declared for this name, a group its object. The same holds of all rows of a result, in a list or under
their index values, unless the specification is a single text. -/
theorem wildcards_keep_columns {spec : Value} {tree : ColumnTree}
    (hparse : ColumnSpec.parse spec = .ok tree) :
    (∀ row path level, Level row (objectNodes tree) path level →
      ∃ part, ColumnSpec.Stands (ColumnSpec.body spec) path part ∧
        ColumnSpec.nodesOf part = .ok level ∧
        (level.any ColumnNode.isWildcard = true ↔ ColumnSpec.HasWildcard part)) ∧
    (∀ row, (Readable nesting tree row → ∃ value, (run (mapRow nesting tree row)).1 = .ok value) ∧
      (Assoc.Distinct row → ∀ value, (run (mapRow nesting tree row)).1 = .ok value →
        KeepsColumns nesting tree row value)) ∧
    (tree.isSingle = false → ∀ rows,
      ((∀ row ∈ rows, Mappable nesting tree row) →
        ∃ result, (run (mapRows nesting tree rows)).1 = .ok result) ∧
      ((∀ row ∈ rows, Assoc.Distinct row) → ∀ result,
        (run (mapRows nesting tree rows)).1 = .ok result → Gathers nesting tree rows result)) := by
  refine ⟨fun row path level hlevel => ?_,
    fun row => ⟨exists_mapRow, fun hrow value => keepsColumns_mapRow hrow⟩, ?_⟩
  · obtain ⟨part, hstands, hnodes⟩ := stands_of_level hlevel (nodesOf_body hparse)
    exact ⟨part, hstands, hnodes, ColumnSpec.any_isWildcard_iff hnodes⟩
  · exact fun hsingle rows =>
      ⟨exists_mapRows hsingle, fun hrows result => gathers_mapRows hsingle hrows⟩

/-- A wildcard in a list and one in a group, each followed by a column with a type. -/
theorem wildcards_keep_columns_of_nested :
    ∃ (spec : Value) (tree : ColumnTree) (row : Row),
      spec = .list [.str " users.* ", .str "score [Number]",
        .dict [(.str "contact", .list [.str "*", .str "active [Bool]"])]] ∧
      ColumnSpec.parse spec = .ok tree ∧
      row = [(.str "id", .int 7), (.str "active", .int 1), (.str "score", .int 2)] ∧
      (∃ part, ColumnSpec.Stands spec ["contact"] part ∧ ColumnSpec.HasWildcard part) ∧
      (∃ value, (run (mapRow Json.usualNesting tree row)).1 = .ok value ∧
        KeepsColumns Json.usualNesting tree row value) ∧
      (∃ result, (run (mapRows Json.usualNesting tree [row])).1 = .ok result) ∧
      (run (mapRows Json.usualNesting tree [row])).1 =
        .ok (.list [.dict [(.str "id", .int 7), (.str "active", .int 1),
          (.str "score", .float (.ofInt 2)),
          (.str "contact", .dict [(.str "id", .int 7), (.str "active", .bool true),
            (.str "score", .int 2)])]]) ∧
      Gathers Json.usualNesting tree [row]
        (.list [.dict [(.str "id", .int 7), (.str "active", .int 1),
          (.str "score", .float (.ofInt 2)),
          (.str "contact", .dict [(.str "id", .int 7), (.str "active", .bool true),
            (.str "score", .int 2)])]]) := by
  let row : Row := [(.str "id", .int 7), (.str "active", .int 1), (.str "score", .int 2)]
  let contact : List ColumnNode :=
    [.field ⟨none, "*", none, none⟩, .field ⟨none, "active", none, some .bool⟩]
  let tree : ColumnTree := .columns [.field ⟨some "users", "*", none, none⟩,
    .field ⟨none, "score", none, some .number⟩, .group "contact" contact]
  have hdistinct : Assoc.Distinct row := by
    unfold Assoc.Distinct
    decide
  have hreadable : Readable Json.usualNesting tree row := by
    have hrefs : tree.labelledRefs =
        [⟨none, "score", none, some .number⟩, ⟨none, "active", none, some .bool⟩] := rfl
    rw [Readable, hrefs]
    simp only [List.forall_mem_cons, List.not_mem_nil, false_implies, implies_true, and_true]
    exact ⟨⟨.float (.ofInt 2), (decided_readLabel _ _ _).endsIn_ok rfl⟩,
      ⟨.bool true, (decided_readLabel _ _ _).endsIn_ok rfl⟩⟩
  have hrows : (run (mapRows Json.usualNesting tree [row])).1 =
      .ok (.list [.dict [(.str "id", .int 7), (.str "active", .int 1),
        (.str "score", .float (.ofInt 2)),
        (.str "contact", .dict [(.str "id", .int 7), (.str "active", .bool true),
          (.str "score", .int 2)])]]) :=
    rfl
  have hparse : ColumnSpec.parse (.list [.str " users.* ", .str "score [Number]",
      .dict [(.str "contact", .list [.str "*", .str "active [Bool]"])]]) = .ok tree := rfl
  obtain ⟨hlevels, hrow, hall⟩ := @wildcards_keep_columns Json.usualNesting _ _ hparse
  obtain ⟨part, hstands, -, hwildcard⟩ := hlevels row ["contact"] contact
    (.inside rfl (.here contact))
  obtain ⟨value, hvalue⟩ := (hrow row).1 hreadable
  obtain ⟨hsome, hgathers⟩ := hall rfl [row]
  refine ⟨_, tree, row, rfl, hparse, rfl, ⟨part, hstands, hwildcard.mp rfl⟩,
    ⟨value, hvalue, (hrow row).2 hdistinct value hvalue⟩, ?_, hrows, ?_⟩
  · refine hsome fun other hother => ?_
    rw [List.mem_singleton.mp hother]
    exact ⟨hreadable, fun column hcolumn => by cases hcolumn⟩
  · exact hgathers (by simpa using hdistinct) _ hrows

/-- A wildcard that is the whole specification is read like a column, and a type that is declared before
a wildcard is lost. -/
theorem wildcard_alone_reads_null :
    (∃ tree, ColumnSpec.parse (.str "users.*") = .ok tree ∧
      (run (mapRows Json.usualNesting tree [[(.str "id", .int 1), (.str "name", .str "a")]])).1 =
        .ok (.list [.null])) ∧
    ∃ tree, ColumnSpec.parse (.list [.str "active [Bool]", .str "*"]) = .ok tree ∧
      (run (mapRows Json.usualNesting tree [[(.str "active", .int 1)]])).1 =
        .ok (.list [.dict [(.str "active", .int 1)]]) := by
  constructor
  · exact ⟨.single ⟨some "users", "*", none, none⟩, rfl, rfl⟩
  · exact ⟨.columns [.field ⟨none, "active", none, some .bool⟩, .field ⟨none, "*", none, none⟩],
      rfl, rfl⟩

end Shape

end QueryLoom
