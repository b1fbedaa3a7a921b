import QueryLoom.Proofs.Bindings.Statements
import QueryLoom.Proofs.Statement.DataKeys
import QueryLoom.Proofs.Values.Keys

/-!
The keys of an insertion. They are collected over all rows, each one where it first appears, and a key
is collected once however many rows have it. Each key is a text that names a column.
-/

namespace QueryLoom.Statement

open Compile

variable {t : Target} {s u : Parameters} {keys found : InsertKeys} {seen names : List String}

/-! Names and what they are read as. -/

/-- A key with what its name is read as. -/
def Named (name : String) (entry : Value × DataKey) : Prop :=
  entry.1 = .str name ∧ Key.dataKey (.str name) = .ok entry.2

theorem parsed_of_named (h : List.Forall₂ Named names keys) : Parsed keys := by
  induction h with
  | nil => exact fun _ hentry => by cases hentry
  | cons hentry _ ih =>
      refine List.forall_mem_cons.mpr ⟨?_, ih⟩
      rw [hentry.1]
      exact hentry.2

theorem named_of_parsed (hparsed : Parsed keys)
    (h : keys.map Prod.fst = names.map Value.str) : List.Forall₂ Named names keys := by
  induction keys generalizing names with
  | nil =>
      cases names with
      | nil => exact .nil
      | cons name rest => cases h
  | cons entry rest ih =>
      cases names with
      | nil => cases h
      | cons name names =>
          obtain ⟨hentry, hrest⟩ := List.forall_mem_cons.mp hparsed
          obtain ⟨hname, hnames⟩ := List.cons.inj h
          refine .cons ⟨hname, ?_⟩ (ih hrest hnames)
          rw [← hname]
          exact hentry

/-! Keys that are collected. -/

theorem eraseDups_concat (seen : List String) (name : String) :
    (seen ++ [name]).eraseDups =
      if name ∈ seen then seen.eraseDups else seen.eraseDups ++ [name] := by
  rw [List.eraseDups_append, List.removeAll]
  split_ifs with h <;> simp [h, List.eraseDups_cons]

/-- The keys that have been collected are the names seen. -/
theorem has_iff {key : Value} (hkeys : keys.map Prod.fst = seen.eraseDups.map Value.str) :
    Assoc.has key keys = true ↔ ∃ name ∈ seen, key = .str name := by
  have hany : Assoc.has key keys = (keys.map Prod.fst).any fun k => k == key := by
    rw [List.any_map]
    rfl
  rw [hany, hkeys, List.any_map, List.any_eq_true]
  simp only [List.mem_eraseDups, Function.comp_apply, (Assoc.plain_str _).left]

theorem exists_names_addKeys {entries : Dict}
    (hkeys : keys.map Prod.fst = seen.eraseDups.map Value.str)
    (h : (addKeys keys entries).Yields s found u) :
    ∃ names : List String, entries.map Prod.fst = names.map Value.str ∧
      found.map Prod.fst = (seen ++ names).eraseDups.map Value.str := by
  induction entries generalizing keys seen s with
  | nil =>
      rw [addKeys, yields_pure] at h
      refine ⟨[], rfl, ?_⟩
      rw [h.1, List.append_nil]
      exact hkeys
  | cons entry rest ih =>
      obtain ⟨key, v⟩ := entry
      -- the names seen, with the one of this entry behind them
      have hnext : ∀ {more : InsertKeys} {w : Parameters} {name : String}, key = .str name →
          more.map Prod.fst = (seen ++ [name]).eraseDups.map Value.str →
          (addKeys more rest).Yields w found u →
          ∃ names : List String, ((key, v) :: rest).map Prod.fst = names.map Value.str ∧
            found.map Prod.fst = (seen ++ names).eraseDups.map Value.str := by
        intro more w name hkey hmore hrest
        obtain ⟨names, hnames, hfound⟩ := ih hmore hrest
        refine ⟨name :: names, by simp [hkey, hnames], ?_⟩
        rw [hfound, List.append_assoc, List.singleton_append]
      rw [addKeys] at h
      split_ifs at h with hhas
      · obtain ⟨name, hname, hkey⟩ := (has_iff hkeys).mp hhas
        refine hnext hkey ?_ h
        rw [eraseDups_concat, if_pos hname]
        exact hkeys
      · simp only [yields_bind, yields_lift] at h
        obtain ⟨parsed, _, ⟨hparsed, rfl⟩, h⟩ := h
        split_ifs at h
        · simp at h
        · obtain ⟨name, rfl⟩ := Key.exists_str_of_dataKey hparsed
          have hnew : name ∉ seen := fun hname => hhas ((has_iff hkeys).mpr ⟨name, hname, rfl⟩)
          refine hnext rfl ?_ h
          rw [eraseDups_concat, if_neg hnew, List.map_append, List.map_append, hkeys]
          rfl

/-- Rows whose keys are collected are dictionaries, and their keys are texts. -/
theorem exists_names_collectKeys {rows : List Value}
    (hkeys : keys.map Prod.fst = seen.eraseDups.map Value.str)
    (h : (collectKeys keys rows).Yields s found u) :
    ∃ (dicts : List Dict) (names : List String), rows = dicts.map Value.dict ∧
      (dicts.flatMap fun row => row.map Prod.fst) = names.map Value.str ∧
      found.map Prod.fst = (seen ++ names).eraseDups.map Value.str := by
  induction rows generalizing keys seen s with
  | nil =>
      rw [collectKeys, yields_pure] at h
      refine ⟨[], [], rfl, rfl, ?_⟩
      rw [h.1, List.append_nil]
      exact hkeys
  | cons v rest ih =>
      cases v with
      | dict row =>
          simp only [collectKeys, yields_bind] at h
          obtain ⟨more, _, hadd, hrest⟩ := h
          obtain ⟨first, hfirst, hmore⟩ := exists_names_addKeys hkeys hadd
          obtain ⟨dicts, names, rfl, hnames, hfound⟩ := ih hmore hrest
          refine ⟨row :: dicts, first ++ names, rfl, ?_, ?_⟩
          · rw [List.flatMap_cons, hfirst, hnames, List.map_append]
          · rw [hfound, List.append_assoc]
      | _ => simp [collectKeys] at h

/-! Columns. -/

/-- The quoted column that a key names. -/
def IsColumn (t : Target) (name : String) (column : Sql) : Prop :=
  ∃ key, Key.dataKey (.str name) = .ok key ∧ Identifier.column t.tablePrefix key.column = .ok column

theorem columns_of_named {columns : List Sql} (hkeys : List.Forall₂ Named names keys)
    (h : (keyColumns t keys).Yields s columns u) :
    List.Forall₂ (IsColumn t) names columns ∧ u = s := by
  induction hkeys generalizing s columns with
  | nil =>
      rw [keyColumns, yields_pure] at h
      obtain ⟨rfl, rfl⟩ := h
      exact ⟨.nil, rfl⟩
  | cons hentry _ ih =>
      simp only [keyColumns, Target.column, yields_bind, yields_lift, yields_pure] at h
      obtain ⟨first, _, ⟨hfirst, rfl⟩, more, _, hmore, rfl, rfl⟩ := h
      obtain ⟨hcolumns, rfl⟩ := ih hmore
      exact ⟨.cons ⟨_, hentry.2, hfirst⟩ hcolumns, rfl⟩

end QueryLoom.Statement
