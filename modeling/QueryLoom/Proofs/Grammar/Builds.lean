import QueryLoom.Proofs.Grammar.Productions

/-!
What steps of compilation build. A step builds rows of a kind if all that it succeeds with is of
that kind; along the way it keeps the names of bound values such that they can be placeholders.
There is one rule for each way in which steps are put together.
-/

namespace QueryLoom

open Grammar

namespace Compile

variable {α β : Type}

/-- Whatever the step succeeds with has the property, and names that can be placeholders are left
behind. -/
def Builds (m : Compile α) (P : α → Prop) : Prop :=
  ∀ ⦃s a u⦄, Parameters.NamesTokens s → m.Yields s a u → P a ∧ Parameters.NamesTokens u

namespace Builds

variable {P Q : α → Prop} {R : β → Prop} {m : Compile α} {k : α → Compile β}

theorem pure {a : α} (h : P a) : Builds (Pure.pure a) P := by
  intro s b u hs hyields
  obtain ⟨rfl, rfl⟩ := (yields_pure a).mp hyields
  exact ⟨h, hs⟩

/-- A step that fails builds anything. -/
theorem throw (fault : Fault) : Builds (MonadExcept.throw fault : Compile α) P := by
  intro s a u _ hyields
  exact ((yields_throw fault).mp hyields).elim

theorem lift {x : Except Fault α} (h : ∀ a, x = .ok a → P a) : Builds (Compile.lift x) P := by
  intro s a u hs hyields
  obtain ⟨hx, rfl⟩ := (yields_lift x).mp hyields
  exact ⟨h a hx, hs⟩

theorem bind (h : Builds m P) (hk : ∀ a, P a → Builds (k a) R) : Builds (m >>= k) R := by
  intro s b u hs hyields
  obtain ⟨a, t, hm, hrest⟩ := (yields_bind m k).mp hyields
  obtain ⟨ha, ht⟩ := h hs hm
  exact hk a ha ht hrest

/-- What a step builds is of a wider kind, too. -/
theorem mono (h : Builds m P) (hPQ : ∀ a, P a → Q a) : Builds m Q := by
  intro s a u hs hyields
  obtain ⟨ha, hu⟩ := h hs hyields
  exact ⟨hPQ a ha, hu⟩

theorem map {f : α → β} (h : Builds m P) (hf : ∀ a, P a → R (f a)) :
    Builds (do return f (← m)) R :=
  h.bind fun a ha => .pure (hf a ha)

/-- A step that goes on only if a value has a text. -/
theorem requireText (v : Value) {k : Unit → Compile β} (h : Builds (k ()) R) :
    Builds (Compile.requireText v >>= k) R :=
  (lift (P := fun _ => True) fun _ _ => trivial).bind fun _ _ => h

theorem bindValue (v : Value) : Builds (Compile.bindValue v) Placeholder := by
  intro s sql u hs hyields
  simp only [Compile.bindValue, yields_bind, yields_pure] at hyields
  obtain ⟨name, w, hadd, rfl, rfl⟩ := hyields
  refine ⟨.mk ?_, (advances_addValue hadd).namesTokens hs⟩
  rw [(yields_addValue hadd).1]
  exact isToken_numbered hs _

end Builds

/-! Rows of one kind, one for each item. -/

/-- Rows of a kind, so many of them. -/
structure Rows (P : Sql → Prop) (count : Nat) (rows : List Sql) : Prop where
  all : ∀ row ∈ rows, P row
  length : rows.length = count

namespace Rows

variable {P Q : Sql → Prop} {count : Nat} {row : Sql} {rows : List Sql}

theorem nil : Rows P 0 [] := ⟨by simp, rfl⟩

theorem cons (hrow : P row) (hrows : Rows P count rows) : Rows P (count + 1) (row :: rows) :=
  ⟨List.forall_mem_cons.mpr ⟨hrow, hrows.all⟩, by rw [List.length_cons, hrows.length]⟩

theorem ne_nil (h : Rows P (count + 1) rows) : rows ≠ [] :=
  List.ne_nil_of_length_eq_add_one h.length

end Rows

/-- A row before the others. -/
theorem Builds.cons {P Q : Sql → Prop} {f : Sql → Sql} {m : Compile Sql} {k : Compile (List Sql)}
    {count : Nat} (h : Builds m P) (hrest : Builds k (Rows Q count))
    (hf : ∀ row, P row → Q (f row)) :
    Builds (do let row ← m; return f row :: (← k)) (Rows Q (count + 1)) :=
  h.bind fun row hrow => hrest.map fun _ hmore => .cons (hf row hrow) hmore

end Compile

/-! Names and columns. -/

section Identifiers

open Compile

variable {t : Target}

theorem Grammar.Column.of_columnRow {tablePrefix : String} {sql : Sql}
    (h : ColumnRow tablePrefix sql) : Column sql := by
  cases h with
  | bare _ => exact .bare _
  | qualified _ _ => exact .qualified _ _

theorem builds_column (v : Value) : Builds (t.column v) Column :=
  .lift fun _ h => .of_columnRow (.of_column h)

theorem builds_bareName (v : Value) : Builds (bareName v) Name := by
  refine .lift fun sql h => ?_
  obtain ⟨name, _, rfl⟩ := Identifier.bare_eq h
  exact .mk name

theorem builds_table (v : Value) : Builds (t.table v) Name := by
  refine .lift fun sql h => ?_
  obtain ⟨name, _, rfl⟩ := Identifier.table_eq h
  exact .mk _

theorem builds_tableRef (ref : TableRef) : Builds (t.tableRef ref) Table := by
  refine .lift fun sql h => ?_
  simp only [Identifier.tableRef, Except.bind_eq_ok] at h
  obtain ⟨tableSql, htable, h⟩ := h
  obtain ⟨name, _, rfl⟩ := Identifier.table_eq htable
  cases hlabel : ref.label with
  | none =>
      simp only [hlabel, Except.pure_eq_ok] at h
      rw [h]
      exact .plain _
  | some label =>
      simp only [hlabel, Except.bind_eq_ok, Except.pure_eq_ok] at h
      obtain ⟨labelSql, hlabelSql, rfl⟩ := h
      obtain ⟨labelName, _, rfl⟩ := Identifier.table_eq hlabelSql
      exact .labelled _ _

end Identifiers

end QueryLoom
