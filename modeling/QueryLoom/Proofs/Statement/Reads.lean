import QueryLoom.Proofs.Statement.Heads
import QueryLoom.Proofs.Statement.Tails
import QueryLoom.Statement.Read

/-!
What the statements that read write: a whole statement is an aligned row of all that was bound for it.
-/

namespace QueryLoom.Statement

open Lexer

/-- A statement was compiled: an aligned row of what was bound, with everything bound. -/
structure Completed (backslash : Bool) (s : Parameters) (c : Compiled) (u : Parameters) : Prop where
  written : Written backslash s c.sql u
  params : c.params = u.bound

variable {backslash : Bool} {t : Target} {s w u : Parameters} {sql : Sql} {rows : List Sql}
  {c : Compiled}

theorem completed_finish {columns : Option ColumnTree} (hsql : Written backslash s sql w)
    (h : (finish t sql columns).Yields w c u) : Completed backslash s c u := by
  simp only [finish, Compile.yields_bind, Compile.yields_get, Compile.yields_pure] at h
  obtain ⟨_, _, ⟨rfl, rfl⟩, rfl, rfl⟩ := h
  exact ⟨hsql, rfl⟩

theorem written_append {tail : Sql} (hsql : Written backslash s sql w)
    (htail : Written backslash w tail u) : Written backslash s (append sql tail) u := by
  unfold append
  split_ifs with hempty
  · -- a row without text has no placeholders
    have hparams : tail.params = [] := by
      have htext : tail.text = "" := by
        simpa using hempty
      rw [← htail.aligned.tokenNames, ← htail.aligned.lex, htext]
      rfl
    have hadvances := hsql.advances.trans htail.advances
    rw [hparams, List.append_nil] at hadvances
    exact ⟨hadvances, hsql.aligned⟩
  · exact hsql.between htail rfl

/-! Tails of clauses. -/

/-- Clauses are added to what they belong to unless there are none. -/
theorem append_join (h : ∀ row ∈ rows, row.text ≠ "") :
    append sql (Sql.join " " rows) =
      if rows = [] then sql else sql ++ .text " " :: Sql.join " " rows := by
  unfold append
  split_ifs with hempty hrows hrows
  · rfl
  · exact absurd (String.isEmpty_iff.mp hempty) (Sql.text_join_ne_empty hrows h)
  · subst hrows
    exact absurd rfl hempty
  · rfl

/-- A last clause stands behind the others, after a blank. -/
theorem append_concat (h : ∀ row ∈ rows, row.text ≠ "") {last : Sql} (hlast : last.text ≠ "") :
    append sql (Sql.join " " (rows ++ [last])) =
      append sql (Sql.join " " rows) ++ .text " " :: last := by
  have hall : ∀ row ∈ rows ++ [last], row.text ≠ "" :=
    List.forall_mem_append.mpr ⟨h, List.forall_mem_singleton.mpr hlast⟩
  rw [append_join hall, append_join h, if_neg (by simp)]
  split_ifs with hempty
  · subst hempty
    rfl
  · rw [Sql.join_concat _ hempty, List.append_assoc, List.cons_append]

/-! Statements that read. -/

/-- What joins add to a statement. -/
def joinsAfter (t : Target) (ref : TableRef) (sql : Sql) (join : Value) : Compile Sql :=
  if join.truthy then do return sql ++ .text " " :: (← Joins.compile t ref join) else pure sql

theorem selectFrom_eq (t : Target) (head : Sql) (table wheres join : Value) :
    selectFrom t head table wheres join = (do
      let ref ← Compile.lift (Key.tableRefOfValue table)
      let tableSql ← t.tableRef ref
      let sql ← joinsAfter t ref (head ++ .text " FROM " :: tableSql) join
      return append sql (← Tail.compile t wheres)) := by
  simp only [selectFrom, joinsAfter]
  congr 1
  funext ref
  congr 1
  funext tableSql
  split_ifs <;> simp

/-- A selection has its head in front. -/
theorem from_selectFrom {head : Sql} {table wheres join : Value}
    (h : (selectFrom t head table wheres join).Yields s sql u) :
    ∃ rest, sql = head ++ .text " FROM " :: rest := by
  have hjoins : ∀ {ref : TableRef} {tableSql joined : Sql} {v w : Parameters},
      (joinsAfter t ref (head ++ .text " FROM " :: tableSql) join).Yields v joined w →
        ∃ rest, joined = head ++ .text " FROM " :: rest := by
    intro ref tableSql joined v w h
    unfold joinsAfter at h
    split_ifs at h
    · simp only [Compile.yields_bind, Compile.yields_pure] at h
      obtain ⟨joins, _, _, rfl, rfl⟩ := h
      exact ⟨tableSql ++ .text " " :: joins, by simp⟩
    · rw [Compile.yields_pure] at h
      exact ⟨tableSql, h.1⟩
  rw [selectFrom_eq] at h
  simp only [Compile.yields_bind, Compile.yields_pure] at h
  obtain ⟨ref, _, _, tableSql, _, _, joined, _, hjoined, tail, _, _, rfl, rfl⟩ := h
  obtain ⟨rest, rfl⟩ := hjoins hjoined
  unfold append
  split_ifs
  · exact ⟨rest, rfl⟩
  · exact ⟨rest ++ .text " " :: tail, by simp⟩

/-- What aggregates begins with the letter that every `SELECT` begins with. -/
theorem text_aggregate {function table column wheres join : Value}
    (h : (aggregate t function table column wheres join).Yields s c u) :
    ∃ rest, c.text.toList = 'S' :: rest := by
  unfold aggregate at h
  split at h
  · simp at h
  · rename_i f _
    simp only [finish, Compile.yields_bind, Compile.yields_get, Compile.yields_pure] at h
    obtain ⟨argument, _, _, sql, _, hsql, _, _, ⟨rfl, rfl⟩, rfl, rfl⟩ := h
    obtain ⟨rest, rfl⟩ := from_selectFrom hsql
    rw [Compiled.text, Compiled.sql, if_neg Bool.false_ne_true, List.cons_append,
      List.cons_append, Sql.text_cons, Piece.toText, String.append_assoc, String.toList_append,
      List.append_assoc]
    exact ⟨_, rfl⟩

theorem written_selectFrom (ht : t.PlainPrefix t.dialect.backslashEscapes) {head : Sql}
    {table wheres join : Value} (hs : s.NamesTokens) (hwheres : Tail.TrustedValue t wheres)
    (hhead : Written t.dialect.backslashEscapes s head w)
    (h : (selectFrom t head table wheres join).Yields w sql u) :
    Written t.dialect.backslashEscapes s sql u := by
  simp only [selectFrom_eq, Compile.yields_bind, Compile.yields_lift, Compile.yields_pure] at h
  obtain ⟨ref, _, ⟨_, rfl⟩, tableSql, w₁, htable, joined, w₂, hjoin, tail, _, htail, rfl, rfl⟩ := h
  have hfrom : Written t.dialect.backslashEscapes s (head ++ .text " FROM " :: tableSql) w₁ :=
    hhead.between (written_tableRef ht htable) rfl
  have hjoined : Written t.dialect.backslashEscapes s joined w₂ := by
    unfold joinsAfter at hjoin
    split_ifs at hjoin
    · simp only [Compile.yields_bind, Compile.yields_pure] at hjoin
      obtain ⟨joins, _, hjoins, rfl, rfl⟩ := hjoin
      exact hfrom.between (Joins.written_compile ht hjoins) rfl
    · rw [Compile.yields_pure] at hjoin
      obtain ⟨rfl, rfl⟩ := hjoin
      exact hfrom
  have hnames := hjoined.advances.namesTokens hs
  exact written_append hjoined (Tail.written_compile ht hnames hwheres htail)

/-- A selection; its body is the whole statement. -/
theorem completed_select (ht : t.PlainPrefix t.dialect.backslashEscapes) (hs : s.NamesTokens)
    {table columns wheres join : Value} (hcolumns : columns.rawFree = true)
    (hwheres : Tail.TrustedValue t wheres)
    (h : (select t table columns wheres join).Yields s c u) :
    Completed t.dialect.backslashEscapes s c u ∧ c.limitedToOne = false := by
  simp only [select, Compile.yields_bind, Compile.yields_lift] at h
  obtain ⟨tree, _, ⟨htree, rfl⟩, projection, _, hprojection, sql, _, hsql, hfinish⟩ := h
  have hprojection' := Projection.written_compile ht
    (ColumnSpec.rawFree_parse hcolumns htree) hprojection
  have hhead : Written t.dialect.backslashEscapes _ (.text "SELECT " :: projection) _ :=
    hprojection'.front rfl
  refine ⟨completed_finish (written_selectFrom ht hs hwheres hhead hsql) hfinish, ?_⟩
  simp only [finish, Compile.yields_bind, Compile.yields_get, Compile.yields_pure] at hfinish
  obtain ⟨_, _, _, rfl, _⟩ := hfinish
  rfl

theorem completed_get (ht : t.PlainPrefix t.dialect.backslashEscapes) (hs : s.NamesTokens)
    {table columns wheres join : Value} (hcolumns : columns.rawFree = true)
    (hwheres : wheres.rawFree = true) (h : (get t table columns wheres join).Yields s c u) :
    Completed t.dialect.backslashEscapes s c u := by
  simp only [get, Compile.yields_bind, Compile.yields_pure] at h
  obtain ⟨selected, _, hselect, rfl, rfl⟩ := h
  have hfree := Tail.TrustedValue.of_rawFree (t := t) (Value.rawFree_withoutLimit hwheres)
  obtain ⟨⟨hwritten, hparams⟩, hlimited⟩ := completed_select ht hs hcolumns hfree hselect
  refine ⟨?_, hparams⟩
  rw [Compiled.sql, if_neg (by simp [hlimited])] at hwritten
  exact hwritten.back rfl

theorem completed_has (ht : t.PlainPrefix t.dialect.backslashEscapes) (hs : s.NamesTokens)
    {table wheres join : Value} (hwheres : wheres.rawFree = true)
    (h : (has t table wheres join).Yields s c u) :
    Completed t.dialect.backslashEscapes s c u := by
  simp only [has, Compile.yields_bind] at h
  obtain ⟨inner, _, hinner, hfinish⟩ := h
  have hhead : Written t.dialect.backslashEscapes s [.text "SELECT 1"] s :=
    .of_aligned (.text rfl .nil) rfl
  have hinner' := written_selectFrom ht hs (.of_rawFree hwheres) hhead hinner
  exact completed_finish ((hinner'.front rfl).back rfl) hfinish

theorem written_aggregateArgument (ht : t.PlainPrefix backslash) {function : AggregateFunction}
    {column : Value} (hcolumn : column.rawFree = true)
    (h : (aggregateArgument t function column).Yields s sql u) : Written backslash s sql u := by
  have heverything : (if function == .count then pure [.text "*"]
      else throw (Fault.refused (.aggregateNeedsColumn function.name)) : Compile Sql).Yields s sql u →
      Written backslash s sql u := by
    intro h
    split_ifs at h
    · rw [Compile.yields_pure] at h
      obtain ⟨rfl, rfl⟩ := h
      exact .of_aligned (.text rfl .nil) rfl
    · simp at h
  cases column with
  | raw fragment parameters => cases hcolumn
  | null => exact heverything h
  | str name =>
      simp only [aggregateArgument] at h
      by_cases hname : (name == "*") = true
      · rw [if_pos hname] at h
        exact heverything h
      · rw [if_neg hname] at h
        exact written_column ht h
  | _ => exact written_column ht h

theorem completed_aggregate (ht : t.PlainPrefix t.dialect.backslashEscapes) (hs : s.NamesTokens)
    {function table column wheres join : Value} (hcolumn : column.rawFree = true)
    (hwheres : wheres.rawFree = true)
    (h : (aggregate t function table column wheres join).Yields s c u) :
    Completed t.dialect.backslashEscapes s c u := by
  unfold aggregate at h
  split at h
  · simp at h
  · rename_i f _
    simp only [Compile.yields_bind] at h
    obtain ⟨argument, _, hargument, sql, _, hsql, hfinish⟩ := h
    have hfunction : isCode ("SELECT " ++ f.name ++ "(").toList = true := by
      cases f <;> rfl
    have hargument' := (written_aggregateArgument ht hcolumn hargument).front hfunction
    have hhead : Written t.dialect.backslashEscapes s
        (.text ("SELECT " ++ f.name ++ "(") :: argument ++ [.text ")"]) _ :=
      hargument'.back rfl
    exact completed_finish (written_selectFrom ht hs (.of_rawFree hwheres) hhead hsql) hfinish

theorem trusted_randomOrder {wheres ordered : Value} (hwheres : wheres.rawFree = true)
    (h : randomOrder t wheres = .ok ordered) : Tail.TrustedValue t ordered := by
  unfold randomOrder at h
  split at h
  · cases h
  · dsimp only at h
    split at h
    · rename_i entries _
      cases h
      intro entry hentry
      rcases Assoc.mem_of_mem_insert rfl hentry with ⟨key, hkey, rfl⟩ | hold
      · rw [Value.eq_str_of_beq hkey]
        exact .inr rfl
      · exact .inl (Value.rawFree_dict.mp hwheres entry hold)
    · split_ifs at h
      cases h
      intro entry hentry
      rw [List.mem_singleton] at hentry
      exact .inr hentry

theorem completed_rand (ht : t.PlainPrefix t.dialect.backslashEscapes) (hs : s.NamesTokens)
    {table columns wheres join : Value} (hcolumns : columns.rawFree = true)
    (hwheres : wheres.rawFree = true) (h : (rand t table columns wheres join).Yields s c u) :
    Completed t.dialect.backslashEscapes s c u := by
  simp only [rand, Compile.yields_bind, Compile.yields_lift] at h
  obtain ⟨ordered, _, ⟨hordered, rfl⟩, hselect⟩ := h
  exact (completed_select ht hs hcolumns (trusted_randomOrder hwheres hordered) hselect).1

end QueryLoom.Statement
