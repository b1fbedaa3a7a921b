import QueryLoom.Proofs.Statement.RawFree
import QueryLoom.Proofs.Statement.Written
import QueryLoom.Statement.Joins
import QueryLoom.Statement.Projection

/-!
What stands before the tails of statements: joins and projections. They bind nothing as long as no
column is raw.
-/

namespace QueryLoom

open Lexer

variable {backslash : Bool} {t : Target} {s u : Parameters} {sql : Sql} {rows : List Sql}

/-! Joins. -/

namespace Joins

@[simp] theorem yields_malformed {α : Type} {key : String} {reason : Reason} {a : α} :
    (malformed key reason : Compile α).Yields s a u ↔ False :=
  Compile.yields_throw _

theorem writtenAll_bareNames {names : List Value} (h : (bareNames names).Yields s rows u) :
    WrittenAll backslash s rows u := by
  induction names generalizing s rows with
  | nil =>
      simp only [bareNames, Compile.yields_pure] at h
      obtain ⟨rfl, rfl⟩ := h
      exact .nil
  | cons v rest ih =>
      simp only [bareNames, Compile.yields_bind, Compile.yields_pure] at h
      obtain ⟨first, _, hfirst, more, _, hmore, rfl, rfl⟩ := h
      exact .cons (written_bareName hfirst) (ih hmore)

/-- A column behind the name of its table. -/
def qualified (t : Target) (ref : TableRef) (column : Value) : Compile Sql := do
  let table ← t.table ref.qualifier
  return table ++ .text "." :: (← Compile.bareName column)

/-- The left side of an equation. -/
def leftSide (t : Target) (base : TableRef) (left : Value) : Compile Sql := do
  Compile.requireText left
  if left.plain.toList.contains '.' then t.column left else qualified t base left

theorem equations_cons (t : Target) (base joined : TableRef) (left right : Value)
    (rest : List (Value × Value)) :
    equations t base joined ((left, right) :: rest) = (do
      let leftSql ← leftSide t base left
      let rightSql ← qualified t joined right
      return (leftSql ++ Piece.text " = " :: rightSql) :: (← equations t base joined rest)) := by
  simp only [equations, leftSide, qualified, bind_assoc, pure_bind]
  split_ifs <;> simp only [bind_assoc, pure_bind]

theorem written_qualified (ht : t.PlainPrefix backslash) {ref : TableRef} {column : Value}
    (h : (qualified t ref column).Yields s sql u) : Written backslash s sql u := by
  simp only [qualified, Compile.yields_bind, Compile.yields_pure] at h
  obtain ⟨table, _, htable, name, _, hname, rfl, rfl⟩ := h
  exact (written_table ht htable).between (written_bareName hname) rfl

theorem written_leftSide (ht : t.PlainPrefix backslash) {base : TableRef} {left : Value}
    (h : (leftSide t base left).Yields s sql u) : Written backslash s sql u := by
  simp only [leftSide, Compile.yields_bind, Compile.yields_requireText] at h
  obtain ⟨_, _, ⟨_, rfl⟩, h⟩ := h
  split_ifs at h
  · exact written_column ht h
  · exact written_qualified ht h

theorem writtenAll_equations (ht : t.PlainPrefix backslash) {base joined : TableRef}
    {entries : List (Value × Value)} (h : (equations t base joined entries).Yields s rows u) :
    WrittenAll backslash s rows u := by
  induction entries generalizing s rows with
  | nil =>
      simp only [equations, Compile.yields_pure] at h
      obtain ⟨rfl, rfl⟩ := h
      exact .nil
  | cons entry rest ih =>
      obtain ⟨left, right⟩ := entry
      simp only [equations_cons, Compile.yields_bind, Compile.yields_pure] at h
      obtain ⟨leftSql, _, hleft, rightSql, _, hright, more, _, hmore, rfl, rfl⟩ := h
      have hleft' := written_leftSide ht hleft
      exact .cons (hleft'.between (written_qualified ht hright) rfl) (ih hmore)

theorem written_relation (ht : t.PlainPrefix backslash) {base joined : TableRef} {key : String}
    {v : Value} (h : (relation t base joined key v).Yields s sql u) :
    Written backslash s sql u := by
  unfold relation at h
  split at h
  · simp only [Compile.yields_bind, Compile.yields_pure] at h
    obtain ⟨name, _, hname, rfl, rfl⟩ := h
    exact ((written_bareName hname).front rfl).back rfl
  · simp at h
  · simp only [Compile.yields_bind, Compile.yields_pure] at h
    obtain ⟨rows, _, hrows, rfl, rfl⟩ := h
    exact ((writtenAll_equations ht hrows).join rfl).front rfl
  · simp at h
  · simp only [Compile.yields_bind, Compile.yields_pure] at h
    obtain ⟨rows, _, hrows, rfl, rfl⟩ := h
    exact (((writtenAll_bareNames hrows).join rfl).front rfl).back rfl
  · simp at h

theorem writtenAll_clauses (ht : t.PlainPrefix backslash) {base : TableRef}
    {entries : List (Value × Value)} (h : (clauses t base entries).Yields s rows u) :
    WrittenAll backslash s rows u := by
  induction entries generalizing s rows with
  | nil =>
      simp only [clauses, Compile.yields_pure] at h
      obtain ⟨rfl, rfl⟩ := h
      exact .nil
  | cons entry rest ih =>
      obtain ⟨key, v⟩ := entry
      cases key with
      | str key =>
          simp only [clauses, Compile.yields_bind, Compile.yields_lift, Compile.yields_pure] at h
          obtain ⟨parsed, _, ⟨_, rfl⟩, table, _, htable, condition, _, hcondition, more, _, hmore,
            rfl, rfl⟩ := h
          have htable' := written_tableRef ht htable
          have hcondition' := written_relation ht hcondition
          have hfirst : Written backslash _ (table ++ .text " " :: condition) _ :=
            htable'.between hcondition' rfl
          have hkeyword : isCode (parsed.direction.keyword ++ " JOIN ").toList = true := by
            cases parsed.direction <;> rfl
          exact .cons (hfirst.front hkeyword) (ih hmore)
      | _ => simp [clauses] at h

theorem written_compile (ht : t.PlainPrefix backslash) {base : TableRef} {v : Value}
    (h : (compile t base v).Yields s sql u) : Written backslash s sql u := by
  unfold compile at h
  split at h
  · simp only [Compile.yields_bind, Compile.yields_pure] at h
    obtain ⟨rows, _, hrows, rfl, rfl⟩ := h
    exact (writtenAll_clauses ht hrows).join rfl
  · simp at h

end Joins

/-! Projections. -/

mutual

/-- Whether no expression of a node is raw. -/
def ColumnNode.rawFree : ColumnNode → Bool
  | .field _ => true
  | .raw _ _ _ => false
  | .group _ children => ColumnNode.rawFreeList children
termination_by structural n => n

def ColumnNode.rawFreeList : List ColumnNode → Bool
  | [] => true
  | n :: rest => n.rawFree && ColumnNode.rawFreeList rest
termination_by structural ns => ns

end

theorem ColumnNode.rawFreeList_append (first rest : List ColumnNode) :
    ColumnNode.rawFreeList (first ++ rest) =
      (ColumnNode.rawFreeList first && ColumnNode.rawFreeList rest) := by
  induction first with
  | nil => rfl
  | cons n more ih => simp [ColumnNode.rawFreeList, ih, Bool.and_assoc]

namespace ColumnSpec

/-- The nodes for one item of a list. -/
def listItem : Value → Except Fault (List ColumnNode)
  | .str text => do return [.field (← Key.columnRef text)]
  | .dict entries => mappedNodes entries
  | .raw sql parameters => malformed (.raw sql parameters) .rawWithoutAlias
  | other => malformed other (.unsupportedEntry other.kindName)

theorem listNodes_cons (v : Value) (rest : List Value) :
    listNodes (v :: rest) = (do
      let first ← listItem v
      return first ++ (← listNodes rest)) := by
  cases v <;> simp [listNodes, listItem]

/-- An item of any kind, followed by the others. -/
theorem rawFree_listNodes_cons {v : Value} {rest : List Value}
    (hfirst : ∀ ns, listItem v = .ok ns → ColumnNode.rawFreeList ns = true)
    (hrest : ∀ ns, listNodes rest = .ok ns → ColumnNode.rawFreeList ns = true)
    {ns : List ColumnNode} (h : listNodes (v :: rest) = .ok ns) :
    ColumnNode.rawFreeList ns = true := by
  simp only [listNodes_cons, Except.bind_eq_ok, Except.pure_eq_ok] at h
  obtain ⟨first, hfirst', more, hmore, rfl⟩ := h
  rw [ColumnNode.rawFreeList_append, hfirst first hfirst', hrest more hmore]
  rfl

/-- Specifications without raw values are read as nodes without raw expressions. -/
theorem rawFree_nodes :
    (∀ (key v : Value), v.rawFree = true → ∀ n, mappedNode key v = .ok n → n.rawFree = true) ∧
    (∀ entries : List (Value × Value), Value.rawFreeEntries entries = true →
      ∀ ns, mappedNodes entries = .ok ns → ColumnNode.rawFreeList ns = true) ∧
    (∀ items : List Value, Value.rawFreeItems items = true →
      ∀ ns, listNodes items = .ok ns → ColumnNode.rawFreeList ns = true) := by
  apply mappedNode.mutual_induct
  · intro sql parameters key hfree
    cases hfree
  · intro sql parameters key _ hfree
    cases hfree
  · intro key items ih hfree n h
    simp only [mappedNode, Except.bind_eq_ok, Except.pure_eq_ok] at h
    obtain ⟨name, _, children, hchildren, rfl⟩ := h
    exact ih hfree children hchildren
  · intro key entries ih hfree n h
    simp only [mappedNode, Except.bind_eq_ok, Except.pure_eq_ok] at h
    obtain ⟨name, _, children, hchildren, rfl⟩ := h
    exact ih hfree children hchildren
  · intro key v hraw hlist hdict _ n h
    cases v with
    | raw sql parameters => exact absurd rfl (hraw sql parameters)
    | list items => exact absurd rfl (hlist items)
    | dict entries => exact absurd rfl (hdict entries)
    | _ => simp [mappedNode, malformed] at h
  · intro _ ns h
    cases h
    rfl
  · intro rest text ihrest hfree ns h
    rw [Value.rawFreeItems, Bool.and_eq_true] at hfree
    refine rawFree_listNodes_cons (fun ns h => ?_) (ihrest hfree.2) h
    simp only [listItem, Except.bind_eq_ok, Except.pure_eq_ok] at h
    obtain ⟨ref, _, rfl⟩ := h
    rfl
  · intro rest entries ihrest ih hfree ns h
    rw [Value.rawFreeItems, Bool.and_eq_true] at hfree
    have hfirst : ∀ ns, listItem (.dict entries) = .ok ns → ColumnNode.rawFreeList ns = true :=
      ih hfree.1
    exact rawFree_listNodes_cons hfirst (ihrest hfree.2) h
  · intro rest sql parameters _ hfree
    cases hfree
  · intro rest v hstr hdict hraw ihrest hfree ns h
    rw [Value.rawFreeItems, Bool.and_eq_true] at hfree
    refine rawFree_listNodes_cons (fun ns h => ?_) (ihrest hfree.2) h
    cases v with
    | str text => exact absurd rfl (hstr text)
    | dict entries => exact absurd rfl (hdict entries)
    | raw sql parameters => exact absurd rfl (hraw sql parameters)
    | _ => simp [listItem, malformed] at h
  · intro _ ns h
    cases h
    rfl
  · intro key v rest ih ihrest hfree ns h
    rw [Value.rawFreeEntries, Bool.and_eq_true] at hfree
    simp only [mappedNodes, Except.bind_eq_ok, Except.pure_eq_ok] at h
    obtain ⟨first, hfirst, more, hmore, rfl⟩ := h
    rw [ColumnNode.rawFreeList, ih hfree.1 first hfirst, ihrest hfree.2 more hmore]
    rfl

/-- A specification without raw values is read as a tree without raw expressions. -/
theorem rawFree_parse {v : Value} (hv : v.rawFree = true) {tree : ColumnTree}
    (h : parse v = .ok tree) : ColumnNode.rawFreeList tree.nodes = true := by
  obtain ⟨_, hentries, hitems⟩ := rawFree_nodes
  unfold parse at h
  split at h
  · cases h
    rfl
  · split_ifs at h
    · cases h
      rfl
    · simp only [Except.bind_eq_ok, Except.pure_eq_ok] at h
      obtain ⟨ref, _, rfl⟩ := h
      rfl
  · rename_i key items
    simp only [Except.bind_eq_ok, Except.pure_eq_ok] at h
    obtain ⟨name, _, children, hchildren, rfl⟩ := h
    have hfree := hitems items (Value.rawFree_dict.mp hv (key, .list items) (by simp)) _ hchildren
    simp [ColumnTree.nodes, ColumnNode.rawFreeList, ColumnNode.rawFree, hfree]
  · rename_i key entries
    simp only [Except.bind_eq_ok, Except.pure_eq_ok] at h
    obtain ⟨name, _, children, hchildren, rfl⟩ := h
    have hfree :=
      hentries entries (Value.rawFree_dict.mp hv (key, .dict entries) (by simp)) _ hchildren
    simp [ColumnTree.nodes, ColumnNode.rawFreeList, ColumnNode.rawFree, hfree]
  · simp only [Except.bind_eq_ok, Except.pure_eq_ok] at h
    obtain ⟨nodes, hnodes, rfl⟩ := h
    exact hentries _ hv nodes hnodes
  · simp only [Except.bind_eq_ok, Except.pure_eq_ok] at h
    obtain ⟨nodes, hnodes, rfl⟩ := h
    exact hitems _ hv nodes hnodes
  · rename_i octets
    simp only [Except.bind_eq_ok, Except.pure_eq_ok] at h
    obtain ⟨nodes, hnodes, rfl⟩ := h
    refine hitems _ ?_ nodes hnodes
    rw [Value.rawFreeItems_eq, List.all_eq_true]
    exact Value.rawFree_octets octets
  · simp [malformed] at h

end ColumnSpec

namespace Projection

theorem written_fieldItem (ht : t.PlainPrefix backslash) {joins : Bool} {ref : ColumnRef}
    (h : (fieldItem t joins ref).Yields s sql u) : Written backslash s sql u := by
  unfold fieldItem at h
  split_ifs at h
  · simp at h
  · cases htable : ref.table with
    | none =>
        simp only [htable, Compile.yields_pure] at h
        obtain ⟨rfl, rfl⟩ := h
        exact .of_aligned (.text rfl .nil) rfl
    | some table =>
        simp only [htable, Compile.yields_bind, Compile.yields_pure] at h
        obtain ⟨tableSql, _, htableSql, rfl, rfl⟩ := h
        exact (written_table ht htableSql).back rfl
  · simp only [Compile.yields_bind] at h
    obtain ⟨column, _, hcolumn, h⟩ := h
    have hcolumn' := written_column ht hcolumn
    cases hlabel : ref.label with
    | none =>
        simp only [hlabel, Compile.yields_pure] at h
        obtain ⟨rfl, rfl⟩ := h
        exact hcolumn'
    | some label =>
        simp only [hlabel, Compile.yields_bind, Compile.yields_pure] at h
        obtain ⟨labelSql, _, hlabelSql, rfl, rfl⟩ := h
        exact hcolumn'.between (written_bareName hlabelSql) rfl

theorem writtenAll_listItems (ht : t.PlainPrefix backslash) {joins : Bool} :
    (∀ n : ColumnNode, n.rawFree = true → ∀ {s rows u}, (nodeItems t joins n).Yields s rows u →
      WrittenAll backslash s rows u) ∧
    (∀ ns : List ColumnNode, ColumnNode.rawFreeList ns = true → ∀ {s rows u},
      (listItems t joins ns).Yields s rows u → WrittenAll backslash s rows u) := by
  apply nodeItems.mutual_induct
  · intro key children ih hfree s rows u h
    exact ih hfree h
  · intro ref sql parameters hfree
    cases hfree
  · intro ref _ s rows u h
    simp only [nodeItems, Compile.yields_bind, Compile.yields_pure] at h
    obtain ⟨row, _, hrow, rfl, rfl⟩ := h
    exact (written_fieldItem ht hrow).single
  · intro _ s rows u h
    simp only [listItems, Compile.yields_pure] at h
    obtain ⟨rfl, rfl⟩ := h
    exact .nil
  · intro n rest ih ihrest hfree s rows u h
    rw [ColumnNode.rawFreeList, Bool.and_eq_true] at hfree
    simp only [listItems, Compile.yields_bind, Compile.yields_pure] at h
    obtain ⟨first, _, hfirst, more, _, hmore, rfl, rfl⟩ := h
    exact (ih hfree.1 hfirst).append (ihrest hfree.2 hmore)

theorem written_compile (ht : t.PlainPrefix backslash) {joins : Bool} {tree : ColumnTree}
    (htree : ColumnNode.rawFreeList tree.nodes = true)
    (h : (compile t joins tree).Yields s sql u) : Written backslash s sql u := by
  -- the index column, or none, followed by the leaves
  have hitems : ∀ {index : List Sql} {w : Parameters}, WrittenAll backslash s index w →
      (do
        let items ← listItems t joins tree.nodes
        if (index ++ items).isEmpty then do
          throw (Fault.emptyProjection tree)
          pure (Sql.join ", " (index ++ items))
        else pure (Sql.join ", " (index ++ items))).Yields w sql u →
      Written backslash s sql u := by
    intro index w hindex hrest
    obtain ⟨items, _, hitems, hrest⟩ := (Compile.yields_bind _ _).mp hrest
    split_ifs at hrest
    · simp at hrest
    · rw [Compile.yields_pure] at hrest
      obtain ⟨rfl, rfl⟩ := hrest
      exact (hindex.append ((writtenAll_listItems ht).2 _ htree hitems)).join rfl
  unfold compile at h
  split at h
  · split_ifs at h
    · simp at h
    · simp only [Compile.yields_pure] at h
      obtain ⟨rfl, rfl⟩ := h
      exact .of_aligned (.text rfl .nil) rfl
  · dsimp only at h
    split at h
    · obtain ⟨_, _, hindex, hrest⟩ := (Compile.yields_bind _ _).mp h
      rw [Compile.yields_pure] at hindex
      obtain ⟨rfl, rfl⟩ := hindex
      exact hitems .nil hrest
    · simp only [pure_bind] at h
      obtain ⟨column, _, hcolumn, hrest⟩ := (Compile.yields_bind _ _).mp h
      exact hitems (written_column ht hcolumn).single hrest

end Projection

end QueryLoom
