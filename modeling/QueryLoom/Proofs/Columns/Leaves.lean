import QueryLoom.Proofs.Statement.Heads

/-!
The leaves of a parsed column specification: each is a column that a text refers to, or a raw
expression of the specification under a name that its key gives. Names of columns hold no dots, and
raw expressions bring no other parameters than the raw values they were written as.
-/

namespace QueryLoom

namespace Value

mutual

/-- The names of the parameters that raw values bring. -/
def rawNames : Value → List String
  | .raw _ parameters => parameters.map fun entry => Compile.parameterName entry.1
  | .list items => rawNamesOfItems items
  | .dict entries => rawNamesOfEntries entries
  | _ => []
termination_by structural v => v

def rawNamesOfItems : List Value → List String
  | [] => []
  | v :: rest => rawNames v ++ rawNamesOfItems rest
termination_by structural vs => vs

def rawNamesOfEntries : List (Value × Value) → List String
  | [] => []
  | (_, v) :: rest => rawNames v ++ rawNamesOfEntries rest
termination_by structural es => es

end

/-- Whether all parameters that raw values bring have names of a kind. -/
def BringsOnly (P : String → Prop) (v : Value) : Prop := ∀ name ∈ v.rawNames, P name

instance (P : String → Prop) [DecidablePred P] (v : Value) : Decidable (v.BringsOnly P) :=
  inferInstanceAs (Decidable (∀ name ∈ v.rawNames, P name))

variable {P : String → Prop}

theorem rawNamesOfItems_eq (items : List Value) : rawNamesOfItems items = items.flatMap rawNames := by
  induction items with
  | nil => rfl
  | cons v rest ih => rw [rawNamesOfItems, ih, List.flatMap_cons]

theorem rawNamesOfEntries_eq (entries : Dict) :
    rawNamesOfEntries entries = entries.flatMap fun entry => entry.2.rawNames := by
  induction entries with
  | nil => rfl
  | cons entry rest ih => rw [rawNamesOfEntries, ih, List.flatMap_cons]

theorem bringsOnly_list {items : List Value} :
    (Value.list items).BringsOnly P ↔ ∀ v ∈ items, v.BringsOnly P := by
  simp only [BringsOnly, rawNames, rawNamesOfItems_eq, List.forall_mem_flatMap]

theorem bringsOnly_dict {entries : Dict} :
    (Value.dict entries).BringsOnly P ↔ ∀ entry ∈ entries, entry.2.BringsOnly P := by
  simp only [BringsOnly, rawNames, rawNamesOfEntries_eq, List.forall_mem_flatMap]

theorem bringsOnly_raw {sql : String} {parameters : Dict} :
    (Value.raw sql parameters).BringsOnly P ↔
      ∀ entry ∈ parameters, P (Compile.parameterName entry.1) := by
  simp only [BringsOnly, rawNames, List.forall_mem_map]

/-- A property of values that passes on to the values in a container, and that octets have when they
are gone through as numbers. -/
structure Inherited (Q : Value → Prop) : Prop where
  items : ∀ {items : List Value}, Q (.list items) → ∀ v ∈ items, Q v
  entries : ∀ {entries : Dict}, Q (.dict entries) → ∀ entry ∈ entries, Q entry.2
  octets : ∀ octets : List UInt8, ∀ v ∈ octets.map fun o => Value.int o.toNat, Q v

theorem Inherited.true : Inherited fun _ => True :=
  ⟨fun _ _ _ => trivial, fun _ _ _ => trivial, fun _ _ _ => trivial⟩

/-- Octets that are gone through as numbers bring nothing. -/
theorem bringsOnly_octets (octets : List UInt8) :
    ∀ v ∈ octets.map fun o => Value.int o.toNat, v.BringsOnly P := by
  simp [BringsOnly, rawNames]

theorem Inherited.bringsOnly : Inherited (BringsOnly P) :=
  ⟨bringsOnly_list.mp, bringsOnly_dict.mp, bringsOnly_octets⟩

/-- Values without raw values bring nothing. -/
theorem rawNames_of_rawFree :
    (∀ v : Value, v.rawFree = true → v.rawNames = []) ∧
      (∀ entries : List (Value × Value), rawFreeEntries entries = true →
        rawNamesOfEntries entries = []) ∧
      ∀ items : List Value, rawFreeItems items = true → rawNamesOfItems items = [] := by
  apply rawFree.mutual_induct
  · intro sql parameters h
    cases h
  · intro items ih h
    exact ih h
  · intro entries ih h
    exact ih h
  · intro v hraw hlist hdict _
    cases v with
    | raw sql parameters => exact absurd rfl (hraw sql parameters)
    | list items => exact absurd rfl (hlist items)
    | dict entries => exact absurd rfl (hdict entries)
    | _ => rfl
  · intro _
    rfl
  · intro v rest ih ihrest h
    rw [rawFreeItems, Bool.and_eq_true] at h
    rw [rawNamesOfItems, ih h.1, ihrest h.2, List.append_nil]
  · intro _
    rfl
  · intro key v rest ih ihrest h
    rw [rawFreeEntries, Bool.and_eq_true] at h
    rw [rawNamesOfEntries, ih h.1, ihrest h.2, List.append_nil]

theorem BringsOnly.of_rawFree {v : Value} (h : v.rawFree = true) : v.BringsOnly P := by
  simp [BringsOnly, rawNames_of_rawFree.1 v h]

end Value

/-! Names of columns. -/

namespace Key

theorem dot_not_mem_takeName (cs : List Char) : '.' ∉ (takeName cs).1.toList := by
  rw [takeName, String.toList_ofList]
  intro h
  have hname := List.all_eq_true.mp List.all_takeWhile _ h
  exact absurd hname (by decide)

theorem dot_not_mem_takeColumnPath {cs rest : List Char} {path : Path}
    (h : takeColumnPath cs = .ok (path, rest)) : '.' ∉ path.column.toList := by
  unfold takeColumnPath at h
  split at h
  · cases h
    decide
  · dsimp only at h
    split_ifs at h
    split at h
    · cases h
      simp
    · split_ifs at h
      cases h
      exact dot_not_mem_takeName _
    · cases h
      exact dot_not_mem_takeName _

theorem dot_not_mem_takePath {cs rest : List Char} {path : Path}
    (h : takePath? cs = some (path, rest)) : '.' ∉ path.column.toList := by
  unfold takePath? at h
  dsimp only at h
  split_ifs at h
  split at h
  · split_ifs at h
    · cases h
      exact dot_not_mem_takeName _
    · cases h
      exact dot_not_mem_takeName _
  · cases h
    exact dot_not_mem_takeName _

theorem orFault_eq_ok {α : Type} {fault : Reason → Fault} {result : Except Reason α} {a : α} :
    orFault fault result = .ok a ↔ result = .ok a := by
  cases result <;> simp [orFault]

theorem dot_not_mem_columnRef {text : String} {ref : ColumnRef} (h : columnRef text = .ok ref) :
    '.' ∉ ref.column.toList := by
  rw [columnRef, orFault_eq_ok] at h
  simp only [readColumnRef, Except.bind_eq_ok] at h
  obtain ⟨⟨path, rest⟩, hpath, ⟨label, rest⟩, _, ⟨bracket, rest⟩, _, type, _, _, _, h⟩ := h
  dsimp only at h
  split_ifs at h
  cases h
  exact dot_not_mem_takeColumnPath hpath

theorem dot_not_mem_rawColumnKey {key : String} {ref : ColumnRef}
    (h : rawColumnKey key = .ok ref) : '.' ∉ ref.column.toList := by
  rw [rawColumnKey, orFault_eq_ok] at h
  unfold readRawColumnKey at h
  split at h
  · cases h
  · rename_i path rest hpath
    simp only [Except.bind_eq_ok] at h
    obtain ⟨⟨bracket, rest⟩, _, type, _, _, _, h⟩ := h
    cases h
    exact dot_not_mem_takePath hpath

end Key

/-! Leaves. -/

/-- What a leaf of a parsed specification is: a column without a dot in its name, or a raw expression
that has a property of the specification. -/
def ColumnNode.IsRead (Q : Value → Prop) : ColumnNode → Prop
  | .field ref => '.' ∉ ref.column.toList
  | .raw ref sql parameters =>
      '.' ∉ ref.column.toList ∧ Q (.raw sql parameters)
  | .group _ _ => False

/-- All leaves below some nodes are as a parsed specification has them. -/
def ColumnNode.AreRead (Q : Value → Prop) (ns : List ColumnNode) : Prop :=
  ∀ leaf ∈ ColumnNode.leavesOf ns, leaf.IsRead Q

theorem ColumnNode.leavesOf_append (first rest : List ColumnNode) :
    ColumnNode.leavesOf (first ++ rest) = ColumnNode.leavesOf first ++ ColumnNode.leavesOf rest := by
  induction first with
  | nil => rfl
  | cons n more ih => simp [ColumnNode.leavesOf, ih]

variable {Q : Value → Prop}

theorem ColumnNode.AreRead.append {first rest : List ColumnNode} (hfirst : AreRead Q first)
    (hrest : AreRead Q rest) : AreRead Q (first ++ rest) := by
  rw [AreRead, leavesOf_append, List.forall_mem_append]
  exact ⟨hfirst, hrest⟩

theorem ColumnNode.areRead_singleton {n : ColumnNode} :
    AreRead Q [n] ↔ ∀ leaf ∈ n.leaves, leaf.IsRead Q := by
  simp [AreRead, leavesOf]

namespace ColumnSpec

open ColumnNode (AreRead)

theorem areRead_field {text : String} {ref : ColumnRef} (h : Key.columnRef text = .ok ref) :
    AreRead Q [.field ref] := by
  rw [ColumnNode.areRead_singleton]
  simpa [ColumnNode.leaves, ColumnNode.IsRead] using Key.dot_not_mem_columnRef h

/-- An item of any kind, followed by the others. -/
theorem areRead_listNodes_cons {v : Value} {rest : List Value}
    (hfirst : ∀ ns, listItem v = .ok ns → AreRead Q ns)
    (hrest : ∀ ns, listNodes rest = .ok ns → AreRead Q ns) {ns : List ColumnNode}
    (h : listNodes (v :: rest) = .ok ns) : AreRead Q ns := by
  simp only [listNodes_cons, Except.bind_eq_ok, Except.pure_eq_ok] at h
  obtain ⟨first, hfirst', more, hmore, rfl⟩ := h
  exact (hfirst first hfirst').append (hrest more hmore)

theorem areRead_nodes (hQ : Value.Inherited Q) :
    (∀ (key v : Value), Q v → ∀ n, mappedNode key v = .ok n → AreRead Q [n]) ∧
    (∀ entries : List (Value × Value), (∀ entry ∈ entries, Q entry.2) →
      ∀ ns, mappedNodes entries = .ok ns → AreRead Q ns) ∧
    (∀ items : List Value, (∀ v ∈ items, Q v) →
      ∀ ns, listNodes items = .ok ns → AreRead Q ns) := by
  apply mappedNode.mutual_induct
  · intro sql parameters key hv n h
    simp only [mappedNode, Except.bind_eq_ok, Except.pure_eq_ok] at h
    obtain ⟨ref, href, rfl⟩ := h
    rw [ColumnNode.areRead_singleton]
    simpa [ColumnNode.leaves, ColumnNode.IsRead] using ⟨Key.dot_not_mem_rawColumnKey href, hv⟩
  · intro sql parameters key hkey _ n h
    cases key with
    | str key => exact absurd rfl (hkey key)
    | _ => simp [mappedNode, malformed] at h
  · intro key items ih hv n h
    simp only [mappedNode, Except.bind_eq_ok, Except.pure_eq_ok] at h
    obtain ⟨name, _, children, hchildren, rfl⟩ := h
    rw [ColumnNode.areRead_singleton]
    exact ih (hQ.items hv) children hchildren
  · intro key entries ih hv n h
    simp only [mappedNode, Except.bind_eq_ok, Except.pure_eq_ok] at h
    obtain ⟨name, _, children, hchildren, rfl⟩ := h
    rw [ColumnNode.areRead_singleton]
    exact ih (hQ.entries hv) children hchildren
  · intro key v hraw hlist hdict _ n h
    cases v with
    | raw sql parameters => exact absurd rfl (hraw sql parameters)
    | list items => exact absurd rfl (hlist items)
    | dict entries => exact absurd rfl (hdict entries)
    | _ => simp [mappedNode, malformed] at h
  · intro _ ns h
    cases h
    simp [AreRead, ColumnNode.leavesOf]
  · intro rest text ihrest hv ns h
    rw [List.forall_mem_cons] at hv
    refine areRead_listNodes_cons (fun ns h => ?_) (ihrest hv.2) h
    simp only [listItem, Except.bind_eq_ok, Except.pure_eq_ok] at h
    obtain ⟨ref, href, rfl⟩ := h
    exact areRead_field href
  · intro rest entries ihrest ih hv ns h
    rw [List.forall_mem_cons] at hv
    have hfirst : ∀ ns, listItem (.dict entries) = .ok ns → AreRead Q ns := ih (hQ.entries hv.1)
    exact areRead_listNodes_cons hfirst (ihrest hv.2) h
  · intro rest sql parameters _ _ ns h
    simp [listNodes_cons, listItem, malformed, Except.bind_eq_ok] at h
  · intro rest v hstr hdict hraw ihrest hv ns h
    rw [List.forall_mem_cons] at hv
    refine areRead_listNodes_cons (fun ns h => ?_) (ihrest hv.2) h
    cases v with
    | str text => exact absurd rfl (hstr text)
    | dict entries => exact absurd rfl (hdict entries)
    | raw sql parameters => exact absurd rfl (hraw sql parameters)
    | _ => simp [listItem, malformed] at h
  · intro _ ns h
    cases h
    simp [AreRead, ColumnNode.leavesOf]
  · intro key v rest ih ihrest hv ns h
    rw [List.forall_mem_cons] at hv
    simp only [mappedNodes, Except.bind_eq_ok, Except.pure_eq_ok] at h
    obtain ⟨first, hfirst, more, hmore, rfl⟩ := h
    have hn := ih hv.1 first hfirst
    exact hn.append (ihrest hv.2 more hmore)

/-- The leaves of a parsed specification have a property that it passes on. -/
theorem areRead_parse (hQ : Value.Inherited Q) {v : Value} (hv : Q v) {tree : ColumnTree}
    (h : parse v = .ok tree) : AreRead Q tree.nodes := by
  obtain ⟨_, hentries, hitems⟩ := areRead_nodes hQ
  have hgroup : ∀ {name : String} {children : List ColumnNode}, AreRead Q children →
      AreRead Q (ColumnTree.indexed name children).nodes := by
    intro name children hchildren
    rw [ColumnTree.nodes, ColumnNode.areRead_singleton]
    exact hchildren
  unfold parse at h
  split at h
  · cases h
    simp [AreRead, ColumnTree.nodes, ColumnNode.leavesOf]
  · split_ifs at h
    · cases h
      simp [AreRead, ColumnTree.nodes, ColumnNode.leavesOf]
    · simp only [Except.bind_eq_ok, Except.pure_eq_ok] at h
      obtain ⟨ref, href, rfl⟩ := h
      exact areRead_field href
  · rename_i key items
    simp only [Except.bind_eq_ok, Except.pure_eq_ok] at h
    obtain ⟨name, _, children, hchildren, rfl⟩ := h
    have hvalue := hQ.entries hv (key, .list items) (by simp)
    exact hgroup (hitems items (hQ.items hvalue) _ hchildren)
  · rename_i key entries
    simp only [Except.bind_eq_ok, Except.pure_eq_ok] at h
    obtain ⟨name, _, children, hchildren, rfl⟩ := h
    have hvalue := hQ.entries hv (key, .dict entries) (by simp)
    exact hgroup (hentries entries (hQ.entries hvalue) _ hchildren)
  · simp only [Except.bind_eq_ok, Except.pure_eq_ok] at h
    obtain ⟨nodes, hnodes, rfl⟩ := h
    exact hentries _ (hQ.entries hv) nodes hnodes
  · simp only [Except.bind_eq_ok, Except.pure_eq_ok] at h
    obtain ⟨nodes, hnodes, rfl⟩ := h
    exact hitems _ (hQ.items hv) nodes hnodes
  · rename_i octets
    simp only [Except.bind_eq_ok, Except.pure_eq_ok] at h
    obtain ⟨nodes, hnodes, rfl⟩ := h
    exact hitems _ (hQ.octets octets) nodes hnodes
  · simp [malformed] at h

end ColumnSpec

end QueryLoom
