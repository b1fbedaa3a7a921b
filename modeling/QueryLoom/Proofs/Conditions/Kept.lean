import QueryLoom.Proofs.Conditions.Tree

/-!
What conditions are compiled to, entry by entry. Each entry is represented by a text of its own: a
predicate begins with the column of its key and the operator, a positional entry is the comparison that
it names, and a logical key is a group that represents everything under it. Nothing is asked of the
values, which may be raw, so that this says which conditions are there and not what they hold.
-/

namespace QueryLoom.Conditions

/-- Whether a text is the column of a condition key: it is quoted, and the call of a function is
copied. -/
def Place.IsLeft (p : Place) (parsed : ConditionKey) (column : Sql) : Prop :=
  if parsed.isFunction then column = [.text parsed.column]
  else Identifier.column p.target.tablePrefix parsed.column = .ok column

/-- The texts that may follow a column that is tested by an operator. -/
def Place.operatorTexts (p : Place) : Option ConditionOperator → List String
  | none => [" = ", " IS NULL", " IN ("]
  | some .not => [" != ", " IS NOT NULL", " NOT IN ("]
  | some .like => [" " ++ p.likeText false ++ " "]
  | some .notLike => [" " ++ p.likeText true ++ " "]
  | some .between => [" BETWEEN "]
  | some .notBetween => [" NOT BETWEEN "]
  | some .regexp => [" " ++ p.target.dialect.regexpOperator ++ " "]
  | some .greater => [" > "]
  | some .greaterOrEqual => [" >= "]
  | some .less => [" < "]
  | some .lessOrEqual => [" <= "]

/-- A text tests a column if it begins with the column and one of some operators, perhaps behind a
parenthesis. -/
def Tests (column : Sql) (operators : List String) (sql : Sql) : Prop :=
  ∃ operator ∈ operators, ∃ rest,
    sql = column ++ .text operator :: rest ∨ sql = parenthesized (column ++ .text operator :: rest)

/-- A text compares the two columns that a positional entry names. -/
def Place.Compares (p : Place) (v : Value) (sql : Sql) : Prop :=
  ∃ text comparison left right, v = .str text ∧ Key.columnComparison? text = some comparison ∧
    Identifier.column p.target.tablePrefix comparison.left = .ok left ∧
    Identifier.column p.target.tablePrefix comparison.right = .ok right ∧
    sql = left ++ .text (" " ++ comparison.operator.text ++ " ") :: right

mutual

/-- A text represents an entry whose members are joined by a connective around it. -/
inductive Represents (p : Place) : Connective → Value → Value → Sql → Prop
  | predicate (outer : Connective) {text : String} {parsed : ConditionKey} {v : Value}
      {column sql : Sql} (hrole : keyRole (.str text) = .predicate)
      (hkey : Key.conditionKey text = .ok parsed) (hleft : p.IsLeft parsed column)
      (htests : Tests column (p.operatorTexts parsed.operator) sql) :
      Represents p outer (.str text) v sql
  | comparison (outer : Connective) {key v : Value} {sql : Sql} (hrole : keyRole key = .position)
      (hcompares : p.Compares v sql) : Represents p outer key v sql
  | group (outer : Connective) {key : Value} {inner : Connective} {es : Dict} {members : List Sql}
      (hrole : keyRole key = .logical inner) (hmembers : RepresentsAll p inner es members)
      (hne : members ≠ []) :
      Represents p outer key (.dict es)
        (parenthesized (Sql.join (" " ++ inner.text ++ " ") members))
  /-- A list of dictionaries holds a group for each of them. -/
  | groups (outer : Connective) {key : Value} {inner : Connective} {items : List Value}
      {found : List Sql} (hrole : keyRole key = .logical inner)
      (hfound : RepresentsGroups p inner items found) (hne : found ≠ []) :
      Represents p outer key (.list items)
        (parenthesized (Sql.join (" " ++ outer.text ++ " ") found))
  /-- Any other list holds comparisons. -/
  | comparisons (outer : Connective) {key : Value} {inner : Connective} {items : List Value}
      {members : List Sql} (hrole : keyRole key = .logical inner)
      (hmembers : List.Forall₂ p.Compares items members) (hne : members ≠ []) :
      Represents p outer key (.list items)
        (parenthesized (Sql.join (" " ++ inner.text ++ " ") members))

/-- One text for each entry, in the order of the entries. -/
inductive RepresentsAll (p : Place) : Connective → Dict → List Sql → Prop
  | nil (outer : Connective) : RepresentsAll p outer [] []
  | cons {outer : Connective} {key v : Value} {rest : Dict} {first : Sql} {more : List Sql}
      (hfirst : Represents p outer key v first) (hrest : RepresentsAll p outer rest more) :
      RepresentsAll p outer ((key, v) :: rest) (first :: more)

/-- One group for each dictionary of a list. -/
inductive RepresentsGroups (p : Place) : Connective → List Value → List Sql → Prop
  | nil (inner : Connective) : RepresentsGroups p inner [] []
  | cons {inner : Connective} {es : Dict} {rest : List Value} {members more : List Sql}
      (hmembers : RepresentsAll p inner es members) (hne : members ≠ [])
      (hrest : RepresentsGroups p inner rest more) :
      RepresentsGroups p inner (.dict es :: rest)
        (parenthesized (Sql.join (" " ++ inner.text ++ " ") members) :: more)

end

variable {p : Place} {key v : Value} {column sql : Sql} {s t : Parameters}

/-! Predicates. -/

theorem yields_left {parsed : ConditionKey} (h : (p.left parsed).Yields s column t) :
    p.IsLeft parsed column := by
  unfold Place.left at h
  unfold Place.IsLeft
  split_ifs at h ⊢ with hfunction
  · rw [Compile.yields_pure] at h
    exact h.1
  · rw [Target.column, Compile.yields_lift] at h
    exact h.1

theorem tests_equality {negated : Bool}
    (h : (p.equality key column negated v).Yields s sql t) :
    Tests column (if negated then [" != ", " IS NOT NULL", " NOT IN ("]
      else [" = ", " IS NULL", " IN ("]) sql := by
  cases v with
  | null =>
      simp only [Place.equality, Compile.yields_pure] at h
      refine ⟨_, ?_, [], .inl h.1⟩
      cases negated <;> decide
  | list items =>
      cases items with
      | nil => simp [Place.equality] at h
      | cons first rest =>
          simp only [Place.equality, Compile.yields_bind, Compile.yields_pure] at h
          obtain ⟨rows, _, -, rfl, -⟩ := h
          refine ⟨_, ?_, _, .inl (List.append_assoc _ _ _)⟩
          cases negated <;> decide
  | raw fragment parameters =>
      simp only [Place.equality, Compile.yields_bind, Compile.yields_pure] at h
      obtain ⟨right, _, -, rfl, -⟩ := h
      refine ⟨_, ?_, _, .inl rfl⟩
      cases negated <;> decide
  | _ =>
      simp only [Place.equality, Compile.yields_bind, Compile.yields_pure] at h
      obtain ⟨_, _, -, right, _, -, rfl, -⟩ := h
      refine ⟨_, ?_, _, .inl rfl⟩
      cases negated <;> decide

theorem tests_comparison {operator : ConditionOperator}
    (h : (p.comparison key column operator v).Yields s sql t) :
    Tests column [" " ++ operator.text ++ " "] sql := by
  cases v with
  | null => simp [Place.comparison] at h
  | list items => simp [Place.comparison] at h
  | _ =>
      simp only [Place.comparison, Compile.yields_bind, Compile.yields_pure] at h
      obtain ⟨right, _, -, rfl, -⟩ := h
      exact ⟨_, List.mem_singleton_self _, _, .inl rfl⟩

theorem tests_regexp (h : (p.regexp key column v).Yields s sql t) :
    Tests column [" " ++ p.target.dialect.regexpOperator ++ " "] sql := by
  cases v with
  | null => simp [Place.regexp] at h
  | list items => simp [Place.regexp] at h
  | _ =>
      simp only [Place.regexp, Compile.yields_bind, Compile.yields_pure] at h
      obtain ⟨right, _, -, rfl, -⟩ := h
      exact ⟨_, List.mem_singleton_self _, _, .inl rfl⟩

theorem tests_between {negated : Bool} (h : (p.between key column negated v).Yields s sql t) :
    Tests column [if negated then " NOT BETWEEN " else " BETWEEN "] sql := by
  unfold Place.between at h
  split at h
  · simp only [Compile.yields_bind, Compile.yields_pure] at h
    obtain ⟨low, _, -, high, _, -, rfl, -⟩ := h
    refine ⟨_, List.mem_singleton_self _, low ++ .text " AND " :: high, .inr ?_⟩
    simp [parenthesized]
  · simp at h

/-- The test against the first of several patterns, which may be raw. -/
theorem first_likeItems {operator : String} {rest : List Value} {rows : List Sql}
    (h : (p.likeItems key column operator (v :: rest)).Yields s rows t) :
    ∃ right more, rows = (column ++ .text (" " ++ operator ++ " ") :: right) :: more := by
  cases v with
  | null => simp [Place.likeItems] at h
  | list items => simp [Place.likeItems] at h
  | dict entries => simp [Place.likeItems] at h
  | raw sql parameters =>
      simp only [Place.likeItems, Compile.yields_bind, Compile.yields_pure] at h
      obtain ⟨right, _, -, more, _, -, rfl, -⟩ := h
      exact ⟨right, more, rfl⟩
  | _ =>
      simp only [Place.likeItems, Compile.yields_bind, Compile.yields_pure] at h
      obtain ⟨_, _, -, right, _, -, more, _, -, rfl, -⟩ := h
      exact ⟨right, more, rfl⟩

/-- Several patterns are tested one after another, so the first test begins with the column. -/
theorem tests_likeItems {operator : String} {items : List Value} {rows : List Sql}
    (h : (p.likeItems key column operator items).Yields s rows t) (hne : items ≠ [])
    (between : String) :
    ∃ rest, Sql.join between rows = column ++ .text (" " ++ operator ++ " ") :: rest := by
  cases items with
  | nil => exact absurd rfl hne
  | cons first others =>
      obtain ⟨right, more, rfl⟩ := first_likeItems h
      cases more with
      | nil => exact ⟨right, rfl⟩
      | cons next more =>
          refine ⟨right ++ .text between :: Sql.join between (next :: more), ?_⟩
          simp [Sql.join]

theorem tests_like {negated : Bool} (h : (p.like key column negated v).Yields s sql t) :
    Tests column [" " ++ p.likeText negated ++ " "] sql := by
  obtain ⟨connective, patterns, rows, -, hne, hrows, rfl⟩ := yields_like h
  obtain ⟨rest, hrest⟩ := tests_likeItems hrows hne (" " ++ connective.text ++ " ")
  exact ⟨_, List.mem_singleton_self _, rest, .inr (congrArg parenthesized hrest)⟩

/-- A test begins with the column and an operator of its kind. -/
theorem tests_test {operator : Option ConditionOperator}
    (h : (p.test key column v operator).Yields s sql t) :
    Tests column (p.operatorTexts operator) sql := by
  cases operator with
  | none => exact tests_equality h
  | some operator =>
      cases operator with
      | not => exact tests_equality h
      | like => exact tests_like h
      | notLike => exact tests_like h
      | between => exact tests_between h
      | notBetween => exact tests_between h
      | regexp => exact tests_regexp h
      | greater => exact tests_comparison h
      | greaterOrEqual => exact tests_comparison h
      | less => exact tests_comparison h
      | lessOrEqual => exact tests_comparison h

theorem represents_predicate (outer : Connective) (hrole : keyRole key = .predicate)
    (h : (p.predicate key v).Yields s sql t) : Represents p outer key v sql := by
  cases key with
  | str text =>
      simp only [Place.predicate_str, Compile.yields_bind, Compile.yields_lift] at h
      obtain ⟨parsed, _, ⟨hkey, rfl⟩, column, _, hleft, htest⟩ := h
      exact .predicate outer hrole hkey (yields_left hleft) (tests_test htest)
  | _ => simp [Place.predicate] at h

/-! Comparisons of columns. -/

theorem compares_columns (h : (p.columns v).Yields s sql t) : p.Compares v sql := by
  unfold Place.columns at h
  dsimp only at h
  split at h
  · simp at h
  · next comparison hparsed =>
      cases v with
      | str text =>
          simp only [Compile.yields_bind, Compile.yields_pure, Target.column,
            Compile.yields_lift] at h
          obtain ⟨left, _, ⟨hleft, -⟩, right, _, ⟨hright, -⟩, rfl, -⟩ := h
          exact ⟨text, comparison, left, right, rfl, hparsed, hleft, hright, rfl⟩
      | _ => cases hparsed

theorem compares_columnsList {items : List Value} {rows : List Sql}
    (h : (p.columnsList items).Yields s rows t) : List.Forall₂ p.Compares items rows := by
  induction items generalizing s rows with
  | nil =>
      simp only [Place.columnsList, Compile.yields_pure] at h
      rw [h.1]
      exact .nil
  | cons v rest ih =>
      simp only [Place.columnsList, Compile.yields_bind, Compile.yields_pure] at h
      obtain ⟨first, _, hfirst, more, _, hmore, rfl, rfl⟩ := h
      exact .cons (compares_columns hfirst) (ih hmore)

/-! Trees of conditions. -/

/-- The texts of entries, of the group under a logical key and of the groups of a list represent
them. -/
theorem represents_entries_logical_groups (p : Place) :
    (∀ (connective : Connective) (es : Dict) {s t rows},
      (entries p connective es).Yields s rows t → RepresentsAll p connective es rows) ∧
    (∀ (outer : Connective) (key : Value) (inner : Connective) (v : Value) {s t sql},
      keyRole key = .logical inner → (logical p outer key inner v).Yields s sql t →
        Represents p outer key v sql) ∧
    (∀ (inner : Connective) (items : List Value) {s t rows}, items.all Value.isDict = true →
      (groups p inner items).Yields s rows t → RepresentsGroups p inner items rows) := by
  apply entries.mutual_induct p
  · intro outer key inner es ih s t sql hrole h
    obtain ⟨members, hmembers, hne, rfl⟩ := yields_logical_dict h
    exact .group outer hrole (ih hmembers) hne
  · intro outer key inner items hitems ih s t sql hrole h
    obtain ⟨found, hfound, rfl⟩ := yields_logical_groups hitems h
    have hall := (Bool.and_eq_true_iff.mp hitems).2
    exact .groups outer hrole (ih hall hfound) (groups_ne_nil hitems hfound)
  · intro outer key inner items hitems s t sql hrole h
    obtain ⟨members, hmembers, hne, rfl⟩ := yields_logical_columns hitems h
    exact .comparisons outer hrole (compares_columnsList hmembers) hne
  · intro v outer key inner hdict hlist s t sql _ h
    exact absurd h (not_yields_logical hdict hlist)
  · intro inner s t rows _ h
    simp only [groups, Compile.yields_pure] at h
    rw [h.1]
    exact .nil inner
  · intro inner es rest ih ihrest s t rows hall h
    obtain ⟨members, u, more, hmembers, hne, hmore, rfl⟩ := yields_groups_cons h
    rw [List.all_cons, Bool.and_eq_true] at hall
    exact .cons (ih hmembers) hne (ihrest hall.2 hmore)
  · intro inner v rest hdict ihrest s t rows hall h
    cases v with
    | dict es => exact absurd rfl (hdict es)
    | _ => simp [Value.isDict] at hall
  · intro connective s t rows h
    simp only [entries, Compile.yields_pure] at h
    rw [h.1]
    exact .nil connective
  · intro connective key v rest inner hrole ihrest ih s t rows h
    obtain ⟨first, u, more, hfirst, hmore, rfl⟩ := yields_entries_cons h
    simp only [entry, hrole] at hfirst
    exact .cons (ih hrole hfirst) (ihrest hmore)
  · intro connective key v rest hrole ihrest s t rows h
    obtain ⟨first, u, more, hfirst, hmore, rfl⟩ := yields_entries_cons h
    simp only [entry, hrole] at hfirst
    exact .cons (.comparison connective hrole (compares_columns hfirst)) (ihrest hmore)
  · intro connective key v rest hrole ihrest s t rows h
    obtain ⟨first, u, more, hfirst, hmore, rfl⟩ := yields_entries_cons h
    simp only [entry, hrole] at hfirst
    exact .cons (represents_predicate connective hrole hfirst) (ihrest hmore)

/-- Conditions are compiled to the texts of their entries, joined by the connective. -/
theorem represents_compile {connective : Connective} {es : Dict}
    (h : (compile p connective (.dict es)).Yields s sql t) :
    ∃ members, RepresentsAll p connective es members ∧ members ≠ [] ∧
      sql = Sql.join (" " ++ connective.text ++ " ") members := by
  simp only [compile, Compile.yields_bind] at h
  obtain ⟨members, _, hmembers, hjoined⟩ := h
  obtain ⟨hne, rfl, -⟩ := yields_joined hjoined
  exact ⟨members, (represents_entries_logical_groups p).1 connective es hmembers, hne, rfl⟩

end QueryLoom.Conditions
