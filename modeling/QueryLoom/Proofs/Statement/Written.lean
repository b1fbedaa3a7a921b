import QueryLoom.Proofs.Lexing.Row
import QueryLoom.Proofs.Statement.Numbering

/-!
What a step of compilation writes: an aligned row, whose placeholders are the names that the step
binds, in order. The two facts are carried from step to step, and hold of a whole statement once they
hold of each clause.
-/

namespace QueryLoom

open Lexer Parameters

/-- From one state to another the stem stays, and if all names bound before are numbered, the next
numbered ones were bound. -/
structure Advances (s t : Parameters) (names : List String) : Prop where
  stem : t.stem = s.stem
  binds : s.Numbered → Binds s t names

/-- From one state to another an aligned row was written, and the names of its placeholders were
bound. -/
structure Written (backslash : Bool) (s : Parameters) (sql : Sql) (t : Parameters) : Prop where
  advances : Advances s t sql.params
  aligned : Aligned backslash sql

/-- From one state to another aligned rows were written, and the names of their placeholders were
bound. -/
structure WrittenAll (backslash : Bool) (s : Parameters) (rows : List Sql) (t : Parameters) :
    Prop where
  advances : Advances s t (rows.flatMap Sql.params)
  aligned : ∀ row ∈ rows, Aligned backslash row

/-- The names that a state gives can be placeholders. -/
def Parameters.NamesTokens (s : Parameters) : Prop := isToken s.stem.toList = true

theorem namesTokens_start (next : Nat) : (Parameters.start next).NamesTokens := by
  change isToken "param_".toList = true
  decide

section Composition

variable {backslash : Bool} {s t u : Parameters} {row : Sql} {rows more : List Sql}

theorem Advances.refl (s : Parameters) : Advances s s [] := ⟨rfl, fun _ => .refl s⟩

theorem Advances.trans {first rest : List String} (hfirst : Advances s t first)
    (hrest : Advances t u rest) : Advances s u (first ++ rest) := by
  constructor
  · rw [hrest.stem, hfirst.stem]
  · intro hs
    have hbinds := hfirst.binds hs
    exact hbinds.trans (hrest.binds (hbinds.numbered hs))

theorem Advances.namesTokens {names : List String} (h : Advances s t names)
    (hs : s.NamesTokens) : t.NamesTokens := by
  rwa [NamesTokens, h.stem]

/-- A row that binds nothing. -/
theorem Written.of_aligned (haligned : Aligned backslash row) (hparams : row.params = []) :
    Written backslash s row s := by
  refine ⟨?_, haligned⟩
  rw [hparams]
  exact .refl s

theorem WrittenAll.nil : WrittenAll backslash s [] s := ⟨.refl s, by simp⟩

theorem WrittenAll.cons (hrow : Written backslash s row t) (hrows : WrittenAll backslash t rows u) :
    WrittenAll backslash s (row :: rows) u := by
  refine ⟨hrow.advances.trans hrows.advances, ?_⟩
  rw [List.forall_mem_cons]
  exact ⟨hrow.aligned, hrows.aligned⟩

theorem WrittenAll.append (hrows : WrittenAll backslash s rows t)
    (hmore : WrittenAll backslash t more u) : WrittenAll backslash s (rows ++ more) u := by
  constructor
  · rw [List.flatMap_append]
    exact hrows.advances.trans hmore.advances
  · rw [List.forall_mem_append]
    exact ⟨hrows.aligned, hmore.aligned⟩

theorem Written.single (h : Written backslash s row t) : WrittenAll backslash s [row] t :=
  .cons h .nil

theorem WrittenAll.join {between : String} (h : WrittenAll backslash s rows t)
    (hs : isSpacer between = true) : Written backslash s (Sql.join between rows) t := by
  constructor
  · rw [Sql.params_join]
    exact h.advances
  · exact .join h.aligned hs

/-- Code in front of a row. -/
theorem Written.front {code : String} (h : Written backslash s row t)
    (hcode : isCode code.toList = true) : Written backslash s (.text code :: row) t :=
  ⟨h.advances, .text hcode h.aligned⟩

/-- A spacer after a row. -/
theorem Written.back {code : String} (h : Written backslash s row t)
    (hs : isSpacer code = true) : Written backslash s (row ++ [.text code]) t := by
  constructor
  · simpa using h.advances
  · exact h.aligned.between .nil hs

/-- Two rows with a spacer between them. -/
theorem Written.between {code : String} {other : Sql} (hrow : Written backslash s row t)
    (hother : Written backslash t other u) (hs : isSpacer code = true) :
    Written backslash s (row ++ .text code :: other) u := by
  constructor
  · simpa using hrow.advances.trans hother.advances
  · exact hrow.aligned.between hother.aligned hs

end Composition

/-! Parameters and identifiers. -/

section Leaves

variable {backslash : Bool} {s t : Parameters}

theorem advances_addValue {value : Value} {name : String}
    (h : (Compile.addValue value).Yields s name t) : Advances s t [name] := by
  refine ⟨?_, fun hs => binds_addValue hs h⟩
  obtain ⟨_, rfl⟩ := Compile.yields_addValue h
  rfl

theorem isToken_numbered (hs : s.NamesTokens) (i : Nat) : isToken (s.numbered i).toList = true := by
  have hdigits : (Nat.toDigits 10 i).all Text.isWord = true := by
    rw [List.all_eq_true]
    intro c hc
    have hdigit := Nat.isDigit_of_mem_toDigits (by decide) (by decide) hc
    simp [Text.isWord, Char.isAlphanum, hdigit]
  rw [Parameters.NamesTokens] at hs
  rw [Parameters.numbered, String.toList_append, Nat.toString_eq_ofList_toDigits,
    String.toList_ofList]
  cases hstem : s.stem.toList with
  | nil => simp [hstem, isToken] at hs
  | cons c cs =>
      rw [hstem, isToken] at hs
      rw [List.cons_append, isToken, List.all_append, hdigits, Bool.and_true]
      exact hs

/-- A bound value is written as its placeholder. -/
theorem written_bindValue {value : Value} {sql : Sql} (hs : s.NamesTokens)
    (h : (Compile.bindValue value).Yields s sql t) : Written backslash s sql t := by
  simp only [Compile.bindValue, Compile.yields_bind, Compile.yields_pure] at h
  obtain ⟨name, _, hadd, rfl, rfl⟩ := h
  have hname := (Compile.yields_addValue hadd).1
  constructor
  · exact advances_addValue hadd
  · refine (Piece.whole_param ?_).aligned
    rw [hname]
    exact isToken_numbered hs _

end Leaves

/-! Identifiers. -/

/-- Whether all characters of a text are name characters. -/
def IsNameText (s : String) : Prop := s.toList.all Key.isNameChar = true

instance (s : String) : Decidable (IsNameText s) :=
  inferInstanceAs (Decidable (s.toList.all Key.isNameChar = true))

/-- Where a backslash escapes, the table prefix is made of name characters. -/
def Target.PlainPrefix (backslash : Bool) (t : Target) : Prop :=
  backslash = true → IsNameText t.tablePrefix

section Identifiers

variable {backslash : Bool} {tablePrefix : String} {v : Value} {sql : Sql}

theorem IsNameText.append {s t : String} (hs : IsNameText s) (ht : IsNameText t) :
    IsNameText (s ++ t) := by
  rw [IsNameText, String.toList_append, List.all_append, Bool.and_eq_true]
  exact ⟨hs, ht⟩

theorem Identifier.isNameText_of_check {kind : NameKind} {name : String}
    (h : Identifier.check kind v = .ok name) : IsNameText name := by
  cases v with
  | str s =>
      rw [Identifier.check] at h
      split_ifs at h with hname
      cases h
      rw [Key.isName, Bool.and_eq_true] at hname
      exact hname.2
  | _ => simp [Identifier.check] at h

theorem Identifier.bare_eq (h : Identifier.bare v = .ok sql) :
    ∃ name, IsNameText name ∧ sql = [.name name] := by
  simp only [Identifier.bare, Except.bind_eq_ok, Except.pure_eq_ok] at h
  obtain ⟨name, hcheck, rfl⟩ := h
  exact ⟨name, Identifier.isNameText_of_check hcheck, rfl⟩

theorem Identifier.table_eq (h : Identifier.table tablePrefix v = .ok sql) :
    ∃ name, IsNameText name ∧ sql = [.name (tablePrefix ++ name)] := by
  simp only [Identifier.table, Except.bind_eq_ok, Except.pure_eq_ok] at h
  obtain ⟨name, hcheck, rfl⟩ := h
  exact ⟨name, Identifier.isNameText_of_check hcheck, rfl⟩

/-- A column is one name, or the name of a table, a point and a name. -/
inductive ColumnRow (tablePrefix : String) : Sql → Prop
  | bare {name : String} : IsNameText name → ColumnRow tablePrefix [.name name]
  | qualified {table name : String} : IsNameText table → IsNameText name →
      ColumnRow tablePrefix [.name (tablePrefix ++ table), .text ".", .name name]

theorem ColumnRow.of_bare (h : Identifier.bare v = .ok sql) : ColumnRow tablePrefix sql := by
  obtain ⟨name, hname, rfl⟩ := Identifier.bare_eq h
  exact .bare hname

theorem ColumnRow.of_column (h : Identifier.column tablePrefix v = .ok sql) :
    ColumnRow tablePrefix sql := by
  cases v with
  | str s =>
      rw [Identifier.column] at h
      split at h
      · split_ifs at h
        simp only [Except.bind_eq_ok, Except.pure_eq_ok] at h
        obtain ⟨tableSql, htable, columnSql, hcolumn, rfl⟩ := h
        obtain ⟨table, htableName, rfl⟩ := Identifier.table_eq htable
        obtain ⟨column, hcolumnName, rfl⟩ := Identifier.bare_eq hcolumn
        exact .qualified htableName hcolumnName
      · exact .of_bare h
  | _ => exact .of_bare h

theorem aligned_name {name : String} (h : IsNameText name) : Aligned backslash [.name name] :=
  (Piece.whole_name fun _ => h).aligned

theorem aligned_prefixed {t : Target} (ht : t.PlainPrefix backslash) {name : String}
    (h : IsNameText name) : Aligned backslash [.name (t.tablePrefix ++ name)] :=
  (Piece.whole_name fun hbackslash => (ht hbackslash).append h).aligned

theorem ColumnRow.params_eq (h : ColumnRow tablePrefix sql) : sql.params = [] := by
  cases h <;> rfl

theorem ColumnRow.aligned {t : Target} (ht : t.PlainPrefix backslash)
    (h : ColumnRow t.tablePrefix sql) : Aligned backslash sql := by
  cases h with
  | bare hname => exact aligned_name hname
  | qualified htable hname =>
      exact (aligned_prefixed ht htable).between (s := ".") (aligned_name hname) rfl

variable {s u : Parameters} {t : Target}

theorem Target.yields_column (h : (t.column v).Yields s sql u) :
    ColumnRow t.tablePrefix sql ∧ u = s := by
  rw [Target.column, Compile.yields_lift] at h
  exact ⟨.of_column h.1, h.2⟩

theorem written_column (ht : t.PlainPrefix backslash) (h : (t.column v).Yields s sql u) :
    Written backslash s sql u := by
  obtain ⟨hrow, rfl⟩ := Target.yields_column h
  exact .of_aligned (hrow.aligned ht) hrow.params_eq

/-- The name of a table binds nothing, so it can be written anywhere. -/
theorem written_table_anywhere (ht : t.PlainPrefix backslash) (h : (t.table v).Yields s sql u) :
    u = s ∧ ∀ r, Written backslash r sql r := by
  rw [Target.table, Compile.yields_lift] at h
  obtain ⟨htable, rfl⟩ := h
  obtain ⟨name, hname, rfl⟩ := Identifier.table_eq htable
  exact ⟨rfl, fun r => .of_aligned (aligned_prefixed ht hname) rfl⟩

theorem written_table (ht : t.PlainPrefix backslash) (h : (t.table v).Yields s sql u) :
    Written backslash s sql u := by
  obtain ⟨rfl, hwritten⟩ := written_table_anywhere ht h
  exact hwritten u

theorem written_bareName (h : (Compile.bareName v).Yields s sql u) :
    Written backslash s sql u := by
  rw [Compile.bareName, Compile.yields_lift] at h
  obtain ⟨hbare, rfl⟩ := h
  obtain ⟨name, hname, rfl⟩ := Identifier.bare_eq hbare
  exact .of_aligned (aligned_name hname) rfl

theorem written_tableRef (ht : t.PlainPrefix backslash) {ref : TableRef}
    (h : (t.tableRef ref).Yields s sql u) : Written backslash s sql u := by
  rw [Target.tableRef, Compile.yields_lift] at h
  obtain ⟨href, rfl⟩ := h
  simp only [Identifier.tableRef, Except.bind_eq_ok] at href
  obtain ⟨tableSql, htable, href⟩ := href
  obtain ⟨name, hname, rfl⟩ := Identifier.table_eq htable
  cases hlabel : ref.label with
  | none =>
      rw [hlabel] at href
      cases href
      exact .of_aligned (aligned_prefixed ht hname) rfl
  | some label =>
      simp only [hlabel, Except.bind_eq_ok, Except.pure_eq_ok] at href
      obtain ⟨labelSql, hlabelSql, rfl⟩ := href
      obtain ⟨labelName, hlabelName, rfl⟩ := Identifier.table_eq hlabelSql
      refine .of_aligned ?_ rfl
      exact (aligned_prefixed ht hname).between (s := " AS ") (aligned_prefixed ht hlabelName)
        rfl

end Identifiers

end QueryLoom
