import QueryLoom.Proofs.Statement.Reads
import QueryLoom.Statement.Write

/-!
What the statements that write to tables write as SQL. The name of the table stands before the values
in the text and is compiled after them; that is no matter, since it binds nothing.
-/

namespace QueryLoom.Statement

open Lexer

variable {backslash : Bool} {t : Target} {s w u : Parameters} {sql : Sql} {rows : List Sql}
  {c : Compiled}

@[simp] theorem yields_malformed {α : Type} {subject : Value} {reason : Reason} {clause : Clause}
    {a : α} : (malformed subject reason clause : Compile α).Yields s a u ↔ False :=
  Compile.yields_throw _

theorem rawFree_insertRows {v : Value} {found : List Value} (hv : v.rawFree = true)
    (h : (insertRows v).Yields s found u) : u = s ∧ ∀ row ∈ found, row.rawFree = true := by
  unfold insertRows at h
  split at h
  · rw [Compile.yields_pure] at h
    obtain ⟨rfl, rfl⟩ := h
    simpa using hv
  · split_ifs at h
    · simp at h
    · split at h
      · rw [Compile.yields_pure] at h
        obtain ⟨rfl, rfl⟩ := h
        simp [Value.rawFree]
      · split at h
        · rename_i rows hrows
          rw [Compile.yields_pure] at h
          obtain ⟨rfl, rfl⟩ := h
          refine ⟨rfl, ?_⟩
          cases v with
          | list items =>
              cases hrows
              exact Value.rawFree_list hv
          | bytes octets =>
              cases hrows
              exact Value.rawFree_octets octets
          | _ => cases hrows
        · simp at h

theorem yields_addKeys {keys found : InsertKeys} {entries : Dict}
    (h : (addKeys keys entries).Yields s found u) : u = s := by
  induction entries generalizing keys with
  | nil =>
      simp only [addKeys, Compile.yields_pure] at h
      exact h.2
  | cons entry rest ih =>
      simp only [addKeys] at h
      split_ifs at h
      · exact ih h
      · simp only [Compile.yields_bind, Compile.yields_lift] at h
        obtain ⟨parsed, _, ⟨_, rfl⟩, h⟩ := h
        split_ifs at h
        · simp at h
        · exact ih h

theorem yields_collectKeys {keys found : InsertKeys} {entries : List Value}
    (h : (collectKeys keys entries).Yields s found u) : u = s := by
  induction entries generalizing keys s with
  | nil =>
      simp only [collectKeys, Compile.yields_pure] at h
      exact h.2
  | cons v rest ih =>
      cases v with
      | dict entries =>
          simp only [collectKeys, Compile.yields_bind] at h
          obtain ⟨_, _, hadd, h⟩ := h
          rw [ih h, yields_addKeys hadd]
      | _ => simp [collectKeys] at h

theorem writtenAll_keyColumns (ht : t.PlainPrefix backslash) {keys : InsertKeys}
    (h : (keyColumns t keys).Yields s rows u) : WrittenAll backslash s rows u := by
  induction keys generalizing s rows with
  | nil =>
      simp only [keyColumns, Compile.yields_pure] at h
      obtain ⟨rfl, rfl⟩ := h
      exact .nil
  | cons key rest ih =>
      simp only [keyColumns, Compile.yields_bind, Compile.yields_pure] at h
      obtain ⟨first, _, hfirst, more, _, hmore, rfl, rfl⟩ := h
      exact .cons (written_column ht hfirst) (ih hmore)

/-- The placeholder for the value of a row under a key. -/
def rowValue (t : Target) (row : Dict) (key : Value) (parsed : DataKey) : Compile Sql :=
  match Assoc.get? key row with
  | none => Compile.bindValue .null
  | some (.raw sql parameters) => t.splice sql parameters
  | some v => do
      let stored ← Compile.lift (storedValue parsed.isJson v)
      Compile.bindValue stored

theorem rowValues_cons (t : Target) (row : Dict) (key : Value) (parsed : DataKey)
    (rest : InsertKeys) :
    rowValues t row ((key, parsed) :: rest) = (do
      let first ← rowValue t row key parsed
      return first :: (← rowValues t row rest)) := by
  simp only [rowValues, rowValue]
  cases Assoc.get? key row with
  | none => rfl
  | some v => cases v <;> simp

theorem written_rowValue {row : Dict} {key : Value} {parsed : DataKey} (hs : s.NamesTokens)
    (hrow : (Value.dict row).rawFree = true) (h : (rowValue t row key parsed).Yields s sql u) :
    Written backslash s sql u := by
  unfold rowValue at h
  split at h
  · exact written_bindValue hs h
  · rename_i hget
    obtain ⟨k, hmem, _⟩ := Assoc.mem_of_get? hget
    cases Value.rawFree_dict.mp hrow _ hmem
  · simp only [Compile.yields_bind, Compile.yields_lift] at h
    obtain ⟨stored, _, ⟨_, rfl⟩, hbind⟩ := h
    exact written_bindValue hs hbind

theorem writtenAll_rowValues {row : Dict} {keys : InsertKeys} (hs : s.NamesTokens)
    (hrow : (Value.dict row).rawFree = true) (h : (rowValues t row keys).Yields s rows u) :
    WrittenAll backslash s rows u := by
  induction keys generalizing s rows with
  | nil =>
      simp only [rowValues, Compile.yields_pure] at h
      obtain ⟨rfl, rfl⟩ := h
      exact .nil
  | cons entry rest ih =>
      obtain ⟨key, parsed⟩ := entry
      simp only [rowValues_cons, Compile.yields_bind, Compile.yields_pure] at h
      obtain ⟨first, _, hfirst, more, _, hmore, rfl, rfl⟩ := h
      have hfirst' : Written backslash s first _ := written_rowValue hs hrow hfirst
      exact .cons hfirst' (ih (hfirst'.advances.namesTokens hs) hmore)

theorem writtenAll_rowTuples {keys : InsertKeys} {items : List Value} (hs : s.NamesTokens)
    (hitems : ∀ row ∈ items, row.rawFree = true) (h : (rowTuples t keys items).Yields s rows u) :
    WrittenAll backslash s rows u := by
  induction items generalizing s rows with
  | nil =>
      simp only [rowTuples, Compile.yields_pure] at h
      obtain ⟨rfl, rfl⟩ := h
      exact .nil
  | cons v rest ih =>
      have hrest := fun row hrow => hitems row (List.mem_cons_of_mem v hrow)
      cases v with
      | dict row =>
          simp only [rowTuples, Compile.yields_bind, Compile.yields_pure] at h
          obtain ⟨values, _, hvalues, more, _, hmore, rfl, rfl⟩ := h
          have hall : WrittenAll backslash s values _ :=
            writtenAll_rowValues hs (hitems _ (by simp)) hvalues
          have hjoined : Written backslash s (Sql.join ", " values) _ := hall.join rfl
          have hfirst := Conditions.written_parenthesized hjoined
          exact .cons hfirst (ih (hfirst.advances.namesTokens hs) hrest hmore)
      | _ => exact ih hs hrest h

theorem completed_insert (ht : t.PlainPrefix t.dialect.backslashEscapes) (hs : s.NamesTokens)
    {table rows : Value} (hrows : rows.rawFree = true) (h : (insert t table rows).Yields s c u) :
    Completed t.dialect.backslashEscapes s c u := by
  simp only [insert, Compile.yields_bind] at h
  obtain ⟨items, _, hitems, keys, _, hkeys, h⟩ := h
  obtain ⟨rfl, hfree⟩ := rawFree_insertRows hrows hitems
  obtain rfl := yields_collectKeys hkeys
  split_ifs at h
  · simp at h
  · simp only [Compile.yields_bind] at h
    obtain ⟨columns, w, hcolumns, tuples, v, htuples, tableSql, _, htable, hfinish⟩ := h
    obtain ⟨rfl, htable'⟩ := written_table_anywhere ht htable
    have hcolumns' : Written t.dialect.backslashEscapes _ (Sql.join ", " columns) w :=
      (writtenAll_keyColumns ht hcolumns).join rfl
    have htuples' : Written t.dialect.backslashEscapes w (Sql.join ", " tuples) _ :=
      (writtenAll_rowTuples (hcolumns'.advances.namesTokens hs) hfree htuples).join rfl
    refine completed_finish ?_ hfinish
    exact (((htable' _).front rfl).between hcolumns' rfl).between htuples' rfl

/-- The operand of an assignment. -/
theorem written_assignment (ht : t.PlainPrefix backslash) (hs : s.NamesTokens) {key v : Value}
    (hv : v.rawFree = true) (h : (assignment t key v).Yields s sql u) :
    Written backslash s sql u := by
  simp only [assignment, Compile.yields_bind, Compile.yields_lift] at h
  obtain ⟨parsed, _, ⟨_, rfl⟩, column, _, hcolumn, h⟩ := h
  obtain ⟨hrow, rfl⟩ := Target.yields_column hcolumn
  have hleft : ∀ s, Written backslash s column s := fun s =>
    .of_aligned (hrow.aligned ht) hrow.params_eq
  split at h
  · cases hv
  · rename_i operator _ _
    split_ifs at h
    · simp at h
    · simp only [Compile.yields_bind, Compile.yields_pure] at h
      obtain ⟨operand, _, hbind, rfl, rfl⟩ := h
      have hoperand : Written backslash _ operand _ := written_bindValue hs hbind
      have hcolumns : ∀ r, Written backslash r (column ++ .text " = " :: column) r := fun r =>
        (hleft r).between (hleft r) rfl
      cases operator <;> exact (hcolumns _).between hoperand rfl
  · simp only [Compile.yields_bind, Compile.yields_lift, Compile.yields_pure] at h
    obtain ⟨stored, _, ⟨_, rfl⟩, right, _, hbind, rfl, rfl⟩ := h
    exact (hleft _).between (written_bindValue hs hbind) rfl

theorem writtenAll_assignments (ht : t.PlainPrefix backslash) (hs : s.NamesTokens) {entries : Dict}
    (hentries : (Value.dict entries).rawFree = true)
    (h : (assignments t entries).Yields s rows u) : WrittenAll backslash s rows u := by
  induction entries generalizing s rows with
  | nil =>
      simp only [assignments, Compile.yields_pure] at h
      obtain ⟨rfl, rfl⟩ := h
      exact .nil
  | cons entry rest ih =>
      obtain ⟨key, v⟩ := entry
      rw [Value.rawFree_dict, List.forall_mem_cons] at hentries
      simp only [assignments, Compile.yields_bind, Compile.yields_pure] at h
      obtain ⟨first, _, hfirst, more, _, hmore, rfl, rfl⟩ := h
      have hfirst' : Written backslash s first _ := written_assignment ht hs hentries.1 hfirst
      exact .cons hfirst' (ih (hfirst'.advances.namesTokens hs) (Value.rawFree_dict.mpr hentries.2) hmore)

/-- Replacements around an expression keep it and add their placeholders behind it. -/
theorem written_nestedReplace (hs : s.NamesTokens) {expression : Sql} {pairs : Dict}
    (hexpression : Written backslash s expression w)
    (h : (nestedReplace expression pairs).Yields w sql u) : Written backslash s sql u := by
  induction pairs generalizing expression w with
  | nil =>
      simp only [nestedReplace, Compile.yields_pure] at h
      obtain ⟨rfl, rfl⟩ := h
      exact hexpression
  | cons pair rest ih =>
      obtain ⟨old, new⟩ := pair
      simp only [nestedReplace, Compile.yields_bind] at h
      obtain ⟨oldSql, _, hold, newSql, _, hnew, h⟩ := h
      have hnames := hexpression.advances.namesTokens hs
      have hold' : Written backslash w oldSql _ := written_bindValue hnames hold
      have hnew' : Written backslash _ newSql _ :=
        written_bindValue (hold'.advances.namesTokens hnames) hnew
      refine ih ?_ h
      exact (((hexpression.front rfl).between hold' rfl).between hnew' rfl).back
        rfl

theorem writtenAll_replacements (ht : t.PlainPrefix backslash) (hs : s.NamesTokens)
    {entries : Dict} (h : (replacements t entries).Yields s rows u) :
    WrittenAll backslash s rows u := by
  induction entries generalizing s rows with
  | nil =>
      simp only [replacements, Compile.yields_pure] at h
      obtain ⟨rfl, rfl⟩ := h
      exact .nil
  | cons entry rest ih =>
      obtain ⟨column, v⟩ := entry
      cases v with
      | dict pairs =>
          simp only [replacements, Compile.yields_bind, Compile.yields_pure] at h
          obtain ⟨columnSql, _, hcolumn, expression, w, hexpression, more, _, hmore, rfl, rfl⟩ := h
          obtain ⟨hrow, rfl⟩ := Target.yields_column hcolumn
          have hleft : ∀ r, Written backslash r columnSql r := fun r =>
            .of_aligned (hrow.aligned ht) hrow.params_eq
          have hexpression' := written_nestedReplace hs (hleft _) hexpression
          have hmore' := ih (hexpression'.advances.namesTokens hs) hmore
          split_ifs with hempty
          · rw [List.isEmpty_iff] at hempty
            subst hempty
            simp only [nestedReplace, Compile.yields_pure] at hexpression
            obtain ⟨rfl, rfl⟩ := hexpression
            exact hmore'
          · exact .cons ((hleft _).between hexpression' rfl) hmore'
      | _ => simp [replacements] at h

theorem completed_updateOf (ht : t.PlainPrefix t.dialect.backslashEscapes) (hs : s.NamesTokens)
    {table wheres : Value} {sets : List Sql} (hwheres : wheres.rawFree = true)
    (hsets : WrittenAll t.dialect.backslashEscapes s sets w)
    (h : (updateOf t table sets wheres).Yields w c u) :
    Completed t.dialect.backslashEscapes s c u := by
  simp only [updateOf, Compile.yields_bind] at h
  obtain ⟨tableSql, _, htable, tail, _, htail, hfinish⟩ := h
  obtain ⟨rfl, htable'⟩ := written_table_anywhere ht htable
  have hsets' : Written t.dialect.backslashEscapes s (Sql.join ", " sets) _ :=
    hsets.join rfl
  have hnames := hsets'.advances.namesTokens hs
  have htail' := Tail.written_compile ht hnames (.of_rawFree hwheres) htail
  refine completed_finish (written_append ?_ htail') hfinish
  exact ((htable' s).front rfl).between hsets' rfl

theorem completed_update (ht : t.PlainPrefix t.dialect.backslashEscapes) (hs : s.NamesTokens)
    {table data wheres : Value} (hdata : data.rawFree = true) (hwheres : wheres.rawFree = true)
    (h : (update t table data wheres).Yields s c u) :
    Completed t.dialect.backslashEscapes s c u := by
  unfold update at h
  split at h
  · simp only [Compile.yields_bind] at h
    obtain ⟨sets, _, hsets, hupdate⟩ := h
    exact completed_updateOf ht hs hwheres (writtenAll_assignments ht hs hdata hsets) hupdate
  · simp at h

theorem completed_delete (ht : t.PlainPrefix t.dialect.backslashEscapes) (hs : s.NamesTokens)
    {table wheres : Value} (hwheres : wheres.rawFree = true)
    (h : (delete t table wheres).Yields s c u) :
    Completed t.dialect.backslashEscapes s c u := by
  simp only [delete, Compile.yields_bind] at h
  obtain ⟨tableSql, _, htable, tail, _, htail, hfinish⟩ := h
  obtain ⟨rfl, htable'⟩ := written_table_anywhere ht htable
  have htail' := Tail.written_compile ht hs (.of_rawFree hwheres) htail
  exact completed_finish (written_append ((htable' _).front rfl) htail') hfinish

theorem completed_replace (ht : t.PlainPrefix t.dialect.backslashEscapes) (hs : s.NamesTokens)
    {table columns wheres : Value} (hwheres : wheres.rawFree = true)
    (h : (replace t table columns wheres).Yields s c u) :
    Completed t.dialect.backslashEscapes s c u := by
  unfold replace at h
  split at h
  · simp only [Compile.yields_bind] at h
    obtain ⟨sets, _, hsets, h⟩ := h
    split_ifs at h
    · simp at h
    · exact completed_updateOf ht hs hwheres (writtenAll_replacements ht hs hsets) h
  · simp at h

end QueryLoom.Statement
