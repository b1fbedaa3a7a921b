import QueryLoom.Proofs.Prefixes.Keys
import QueryLoom.Proofs.Statement.Tails

/-!
Clauses that a prefix was written into. A step of compilation repeats another one if it yields
whatever the other yields, from the same parameters to the same. The clauses of a call repeat, without
a prefix, what they yield with the prefix before it was written.
-/

namespace QueryLoom

open Compile Prefixed

namespace Compile

variable {α β γ δ : Type}

/-- The step yields, rewritten, whatever the other one yields. -/
def RepeatsAs (f : α → β) (n : Compile β) (m : Compile α) : Prop :=
  ∀ s a u, m.Yields s a u → n.Yields s (f a) u

/-- The step yields whatever the other one yields. -/
def Repeats (n m : Compile α) : Prop := RepeatsAs id n m

namespace RepeatsAs

variable {n : Compile β} {m : Compile α} {f : α → β}

theorem pure (f : α → β) (a : α) : RepeatsAs f (Pure.pure (f a)) (Pure.pure a) := by
  intro s b u hm
  obtain ⟨rfl, hu⟩ := (yields_pure a).mp hm
  exact (yields_pure (f b)).mpr ⟨rfl, hu⟩

theorem throw (f : α → β) (n : Compile β) (fault : Fault) :
    RepeatsAs f n (MonadExcept.throw fault) :=
  fun _ _ _ h => ((yields_throw fault).mp h).elim

theorem lift {x : Except Fault α} {y : Except Fault β} (h : ∀ {a}, x = .ok a → y = .ok (f a)) :
    RepeatsAs f (Compile.lift y) (Compile.lift x) := by
  intro s a u hm
  obtain ⟨ha, hu⟩ := (yields_lift x).mp hm
  exact (yields_lift y).mpr ⟨h ha, hu⟩

/-- What goes on from a step only has to be repeated for what the step can yield. -/
theorem bind_of_yields {g : γ → δ} {k : α → Compile γ} {l : β → Compile δ} (h : RepeatsAs f n m)
    (hk : ∀ a, (∃ s u, m.Yields s a u) → RepeatsAs g (l (f a)) (k a)) :
    RepeatsAs g (n >>= l) (m >>= k) := by
  intro s c u hm
  obtain ⟨a, w, ha, hc⟩ := (yields_bind m k).mp hm
  exact (yields_bind n l).mpr ⟨f a, w, h s a w ha, hk a ⟨s, w, ha⟩ w c u hc⟩

theorem bind {g : γ → δ} {k : α → Compile γ} {l : β → Compile δ} (h : RepeatsAs f n m)
    (hk : ∀ a, RepeatsAs g (l (f a)) (k a)) : RepeatsAs g (n >>= l) (m >>= k) :=
  h.bind_of_yields fun a _ => hk a

end RepeatsAs

namespace Repeats

variable {n m : Compile α}

theorem refl (m : Compile α) : Repeats m m := fun _ _ _ h => h

theorem throw (n : Compile α) (fault : Fault) : Repeats n (MonadExcept.throw fault) :=
  RepeatsAs.throw id n fault

theorem bind_of_yields {k l : α → Compile β} (h : Repeats n m)
    (hk : ∀ a, (∃ s u, m.Yields s a u) → Repeats (l a) (k a)) : Repeats (n >>= l) (m >>= k) :=
  RepeatsAs.bind_of_yields h hk

theorem bind {k l : α → Compile β} (h : Repeats n m) (hk : ∀ a, Repeats (l a) (k a)) :
    Repeats (n >>= l) (m >>= k) :=
  RepeatsAs.bind h hk

/-- What is yielded alike may be gone on from differently. -/
theorem bind_as {g : β → γ} {k : α → Compile β} {l : α → Compile γ} (h : Repeats n m)
    (hk : ∀ a, RepeatsAs g (l a) (k a)) : RepeatsAs g (n >>= l) (m >>= k) :=
  RepeatsAs.bind h hk

theorem map (h : Repeats n m) (f : α → β) :
    Repeats (do return f (← n)) (do return f (← m)) :=
  h.bind fun _ => refl _

theorem cons {k l : Compile (List β)} (h : Repeats n m) (hrest : Repeats l k) (f : α → β) :
    Repeats (do let first ← n; return f first :: (← l)) (do let first ← m; return f first :: (← k)) :=
  h.bind fun first => hrest.map (f first :: ·)

theorem lift {x y : Except Fault α} (h : ∀ {a}, x = .ok a → y = .ok a) :
    Repeats (Compile.lift y) (Compile.lift x) :=
  RepeatsAs.lift h

end Repeats

/-- What is read of a rewritten text is gone on from as what was read of the text. -/
theorem RepeatsAs.then {n : Compile β} {m : Compile α} {f : α → β} {k : α → Compile γ}
    {l : β → Compile γ} (h : RepeatsAs f n m) (hk : ∀ a, Repeats (l (f a)) (k a)) :
    Repeats (n >>= l) (m >>= k) :=
  h.bind hk

end Compile

namespace Target

/-- The target without its prefix. -/
def plain (t : Target) : Target := ⟨t.dialect, ""⟩

/-- The prefix of a target as characters. -/
def mark (t : Target) : List Char := t.tablePrefix.toList

theorem ofList_mark (t : Target) : String.ofList t.mark = t.tablePrefix := String.ofList_toList

variable {t : Target}

theorem repeats_column (ht : IsNamePart t.mark) (v : Value) :
    Repeats (t.plain.column (Prefixed.column t.mark v)) (t.column v) := by
  refine .lift fun h => ?_
  rw [← t.ofList_mark] at h
  exact column_marked ht h

theorem repeats_table (ht : IsNamePart t.mark) (name : String) :
    Repeats (t.plain.table (.str (t.tablePrefix ++ name))) (t.table (.str name)) := by
  refine .lift fun h => ?_
  rw [← t.ofList_mark] at h ⊢
  exact table_marked ht h

theorem repeats_tableRef (ht : IsNamePart t.mark) (ref : TableRef) :
    Repeats (t.plain.tableRef (ref.marked t.mark)) (t.tableRef ref) := by
  refine .lift fun h => ?_
  rw [← t.ofList_mark] at h
  exact tableRef_marked ht h

theorem repeats_written_table (ht : IsNamePart t.mark) (v : Value) :
    Repeats (t.plain.table (onText (Prefixed.table t.mark) v)) (t.table v) := by
  refine .lift fun h => ?_
  rw [← t.ofList_mark] at h
  exact table_table ht h

end Target

variable {t : Target}

/-! Joins. -/

namespace Joins

theorem repeats_qualified (ht : IsNamePart t.mark) (ref : TableRef) (v : Value) :
    Repeats (qualified t.plain (ref.marked t.mark) v) (qualified t ref v) := by
  have hqualifier : (ref.marked t.mark).qualifier = t.tablePrefix ++ ref.qualifier := by
    obtain ⟨table, label⟩ := ref
    cases label <;> simp [TableRef.marked, TableRef.qualifier, t.ofList_mark]
  unfold qualified
  rw [hqualifier]
  exact (Target.repeats_table ht _).bind fun tableSql => .refl _

theorem repeats_leftSide (ht : IsNamePart t.mark) (base : TableRef) (left : Value) :
    Repeats (leftSide t.plain (base.marked t.mark) (Prefixed.column t.mark left))
      (leftSide t base left) := by
  have htext : Repeats (requireText (Prefixed.column t.mark left)) (requireText left) := by
    cases left <;> exact .refl _
  by_cases hdot : left.plain.toList.contains '.' = true
  · have hdot' : (Prefixed.column t.mark left).plain.toList.contains '.' = true := by
      cases left with
      | str s =>
          rw [List.contains_iff_mem] at hdot ⊢
          change '.' ∈ (String.ofList (path t.mark s.toList)).toList
          rw [String.toList_ofList]
          exact subset_path _ hdot
      | _ => exact hdot
    unfold leftSide
    rw [if_pos hdot, if_pos hdot']
    exact htext.bind fun _ => Target.repeats_column ht left
  · have hsame : Prefixed.column t.mark left = left := by
      cases left with
      | str s =>
          rw [List.contains_iff_mem] at hdot
          change '.' ∉ s.toList at hdot
          change Value.str (String.ofList (path t.mark s.toList)) = .str s
          rw [path_of_not_mem hdot, String.ofList_toList]
      | _ => rfl
    unfold leftSide
    rw [hsame, if_neg hdot, if_neg hdot]
    exact (Repeats.refl _).bind fun _ => repeats_qualified ht base left

theorem repeats_equations (ht : IsNamePart t.mark) (base joined : TableRef)
    (entries : List (Value × Value)) :
    Repeats (equations t.plain (base.marked t.mark) (joined.marked t.mark)
        (entries.map fun (left, right) => (Prefixed.column t.mark left, right)))
      (equations t base joined entries) := by
  induction entries with
  | nil => exact .refl _
  | cons entry rest ih =>
      obtain ⟨left, right⟩ := entry
      rw [List.map_cons, equations_cons, equations_cons]
      refine (repeats_leftSide ht base left).bind fun leftSql => ?_
      refine (repeats_qualified ht joined right).bind fun rightSql => ?_
      exact ih.map _

theorem repeats_relation (ht : IsNamePart t.mark) (base joined : TableRef) (key key' : String)
    (v : Value) :
    Repeats (relation t.plain (base.marked t.mark) (joined.marked t.mark) key'
        (Prefixed.relation t.mark v))
      (relation t base joined key v) := by
  cases v with
  | dict entries =>
      cases entries with
      | nil => exact .throw _ _
      | cons entry rest => exact (repeats_equations ht base joined (entry :: rest)).map _
  | str name => exact .refl _
  | list names =>
      cases names with
      | nil => exact .throw _ _
      | cons name rest => exact .refl _
  | _ => exact .throw _ _

theorem repeats_clauses (ht : IsNamePart t.mark) (base : TableRef) (entries : List (Value × Value)) :
    Repeats (clauses t.plain (base.marked t.mark)
        (entries.map fun (key, v) =>
          (onText (Prefixed.joinKey t.mark) key, Prefixed.relation t.mark v)))
      (clauses t base entries) := by
  induction entries with
  | nil => exact .refl _
  | cons entry rest ih =>
      obtain ⟨key, v⟩ := entry
      cases key with
      | str key =>
          refine RepeatsAs.then (.lift fun h => joinKey_joinKey ht h) fun parsed => ?_
          refine (Target.repeats_tableRef ht parsed.target).bind fun tableSql => ?_
          refine (repeats_relation ht base parsed.target key _ v).bind fun condition => ?_
          exact ih.map _
      | _ => exact .throw _ _

theorem repeats_compile (ht : IsNamePart t.mark) (base : TableRef) (v : Value) :
    Repeats (compile t.plain (base.marked t.mark) (Prefixed.joins t.mark v))
      (compile t base v) := by
  cases v with
  | dict entries =>
      cases entries with
      | nil => exact .throw _ _
      | cons entry rest => exact (repeats_clauses ht base (entry :: rest)).map _
  | _ => exact .throw _ _

end Joins

/-! Orders and groups. -/

namespace Tail

theorem repeats_columnList (ht : IsNamePart t.mark) (items : List Value) :
    Repeats (columnList t.plain (items.map (Prefixed.column t.mark))) (columnList t items) := by
  induction items with
  | nil => exact .refl _
  | cons v rest ih => exact (Target.repeats_column ht v).bind fun first => ih.map _

/-- Numbers are no columns: what stands for the octets of a sequence is left as it is. -/
theorem map_octets {f : Value → Value} (h : ∀ i, f (.int i) = .int i) (octets : List UInt8) :
    (octets.map fun o => Value.int o.toNat).map f = octets.map fun o => .int o.toNat := by
  rw [List.map_map]
  exact List.map_congr_left fun o _ => h o.toNat

theorem repeats_group (ht : IsNamePart t.mark) {v : Value} (hv : v.rawFree = true) :
    Repeats (group t.plain (Prefixed.group t.mark v)) (group t v) := by
  cases v with
  | raw sql parameters => cases hv
  | str name => exact Target.repeats_column ht (.str name)
  | list items => exact (repeats_columnList ht items).map _
  | bytes octets =>
      have h := repeats_columnList ht (octets.map fun o => .int o.toNat)
      rw [map_octets fun _ => rfl] at h
      exact h.map _
  | _ => exact .throw _ _

theorem repeats_orderEntry (ht : IsNamePart t.mark) (key v : Value) :
    Repeats (orderEntry t.plain (Prefixed.orderEntry t.mark (key, v)).1
        (Prefixed.orderEntry t.mark (key, v)).2)
      (orderEntry t key v) := by
  by_cases hposition : ∃ i name, key.integer? = some i ∧ v = .str name
  · obtain ⟨i, name, hkey, rfl⟩ := hposition
    simp only [Prefixed.orderEntry, orderEntry, hkey]
    exact Target.repeats_column ht (.str name)
  · have hentry : Prefixed.orderEntry t.mark (key, v) = (Prefixed.column t.mark key, v) := by
      unfold Prefixed.orderEntry
      split
      · next i name hkey hname => exact absurd ⟨i, name, hkey, hname⟩ hposition
      · rfl
    have hinteger : (Prefixed.column t.mark key).integer? = key.integer? := by
      cases key <;> rfl
    rw [hentry]
    unfold orderEntry
    rw [hinteger]
    split
    · next i name hkey hname => exact absurd ⟨i, name, hkey, hname⟩ hposition
    · refine (Target.repeats_column ht key).bind fun column => ?_
      cases v with
      | str text =>
          dsimp only
          split
          · exact .refl _
          · exact .throw _ _
      | list items =>
          cases items with
          | nil => exact .throw _ _
          | cons first rest => exact .refl _
      | _ => exact .throw _ _

theorem repeats_orderEntries (ht : IsNamePart t.mark) (entries : List (Value × Value)) :
    Repeats (orderEntries t.plain (entries.map (Prefixed.orderEntry t.mark)))
      (orderEntries t entries) := by
  induction entries with
  | nil => exact .refl _
  | cons entry rest ih =>
      obtain ⟨key, v⟩ := entry
      exact (repeats_orderEntry ht key v).bind fun first => ih.map _

theorem repeats_orderItem (ht : IsNamePart t.mark) {v : Value} (hv : v.rawFree = true) :
    Repeats (orderItem t.plain (Prefixed.orderItem t.mark v)) (orderItem t v) := by
  cases v with
  | raw sql parameters => cases hv
  | str name => exact (Target.repeats_column ht (.str name)).map _
  | dict entries => exact repeats_orderEntries ht entries
  | _ => exact .throw _ _

theorem repeats_orderItems (ht : IsNamePart t.mark) {items : List Value}
    (hitems : ∀ v ∈ items, v.rawFree = true) :
    Repeats (orderItems t.plain (items.map (Prefixed.orderItem t.mark))) (orderItems t items) := by
  induction items with
  | nil => exact .refl _
  | cons v rest ih =>
      obtain ⟨hv, hrest⟩ := List.forall_mem_cons.mp hitems
      rw [List.map_cons, orderItems_cons, orderItems_cons]
      exact (repeats_orderItem ht hv).bind fun first => (ih hrest).map _

/-- A fragment without placeholders is the same with any prefix. -/
theorem repeats_splice {sql : String} (h : '<' ∉ sql.toList) (parameters : Dict) :
    Repeats (t.plain.splice sql parameters) (t.splice sql parameters) := by
  unfold Target.splice Compile.splice
  rw [Fragment.expand_of_not_mem h, Fragment.expand_of_not_mem h]
  exact .refl _

theorem repeats_order (ht : IsNamePart t.mark) {v : Value}
    (hv : v.rawFree = true ∨ v = .raw t.dialect.randomFunction []) :
    Repeats (order t.plain (Prefixed.order t.mark v)) (order t v) := by
  rcases hv with hv | rfl
  · cases v with
    | raw sql parameters => cases hv
    | str name => exact Target.repeats_column ht (.str name)
    | dict entries => exact (repeats_orderEntries ht entries).map _
    | list items => exact (repeats_orderItems ht (Value.rawFree_list hv)).map _
    | bytes octets =>
        have h := repeats_orderItems ht (Value.rawFree_octets octets)
        rw [map_octets fun _ => rfl] at h
        exact h.map _
    | _ => exact .throw _ _
  · exact repeats_splice (by cases t.dialect <;> decide) []

end Tail

end QueryLoom
