import QueryLoom.Proofs.Meaning.Tree

/-!
Conditions keep their meaning. Parsing the text that a tree of conditions is compiled to gives back
the meaning of the tree, with the atoms of the text in place of the leaves: groups of the tree are
groups of the text, whatever connectives stand around them.
-/

namespace QueryLoom

open Parsing

namespace Sql

variable {backslash : Bool}

/-- Rows that are joined by a connective are read one by one. -/
theorem tokens_join (c : Connective) (rows : List Sql) :
    (join (" " ++ c.text ++ " ") rows).tokens backslash =
      joined c (rows.map (tokens backslash)) := by
  have htoken : Token.ofText (" " ++ c.text ++ " ") = [c.token] := by
    cases c <;> rfl
  have hopens : Token.opensGap (" " ++ c.text ++ " ") = true := by
    cases c <;> rfl
  have hcloses : Token.closesGap (" " ++ c.text ++ " ") = true := by
    cases c <;> rfl
  induction rows with
  | nil => rfl
  | cons row more ih =>
      cases more with
      | nil => rfl
      | cons next others =>
          rw [join, tokens_between hopens hcloses, htoken, ih]
          · rfl
          · simp

theorem parseText_of_aligned {sql : Sql} (h : Aligned backslash sql) :
    parseText backslash sql.text = parse (sql.tokens backslash) := by
  rw [parseText, h.lex, tokens]

end Sql

namespace Conditions

variable {backslash : Bool} {p : Place} {s t : Parameters} {sql : Sql}

/-- A leaf whose predicate is read as an atom. -/
theorem means_leaf {leaf : Leaf} {a : Atom} (h : (leaf.compile p).Yields s sql t)
    (haligned : Aligned backslash sql) (ha : Operand (sql.tokens backslash) (.atom a)) :
    Means backslash p s (sql.tokens backslash) (.atom leaf) t := by
  have hparse : parseText backslash sql.text = some (.atom a) := by
    rw [Sql.parseText_of_aligned haligned, ha.parse]
  exact ⟨.atom (leaf, a), rfl, .cons h hparse (.nil t), ha⟩

/-- Members of a group between parentheses. -/
theorem means_parenthesized {members : List Sql} {ms : List (Formula Leaf)}
    (h : MeansAll backslash p s (members.map (Sql.tokens backslash)) ms t) (hne : members ≠ [])
    (c : Connective) :
    Means backslash p s
      ((parenthesized (Sql.join (" " ++ c.text ++ " ") members)).tokens backslash) (.all c ms) t := by
  rw [Sql.tokens_parenthesized, Sql.tokens_join]
  exact h.parenthesized (by simpa using hne) c

/-! Patterns. -/

theorem yields_patternGroup {key v : Value} {group : Connective × Value}
    (h : (p.likeGroup key v).Yields s group t) : group = patternGroup v := by
  unfold Place.likeGroup at h
  split at h
  · rename_i name items
    cases hname : Connective.ofText? name with
    | none => simp [hname] at h
    | some connective =>
        simp only [hname, Compile.yields_pure] at h
        rw [h.1]
        simp only [patternGroup, hname]
  · simp at h
  · rename_i hnamed hdict
    rw [Compile.yields_pure] at h
    unfold patternGroup
    split
    · exact absurd rfl (hnamed _ _)
    · exact h.1

/-- The left side of a predicate is the same from every state. -/
theorem yields_left_anywhere {parsed : ConditionKey} {column : Sql}
    (h : (p.left parsed).Yields s column t) (u : Parameters) : (p.left parsed).Yields u column u := by
  unfold Place.left at h ⊢
  split_ifs at h ⊢
  · rw [Compile.yields_pure] at h ⊢
    exact ⟨h.1, rfl⟩
  · rw [Target.column, Compile.yields_lift] at h ⊢
    exact ⟨h.1, rfl⟩

/-- What a single pattern under the key is compiled to. -/
theorem yields_predicate_pattern {text : String} {parsed : ConditionKey} {negated : Bool} {v : Value}
    {column right : Sql} (hkey : Key.conditionKey text = .ok parsed)
    (hoperator : parsed.operator = some (patternOperator negated))
    (hleft : (p.left parsed).Yields s column s) (hv : v.isLeaf = true) (htext : v.hasText = true)
    (hbind : (Compile.bindValue (.str (patternOf v.plain))).Yields s right t) :
    (p.predicate (.str text) v).Yields s
      (parenthesized (column ++ .text (" " ++ p.likeText negated ++ " ") :: right)) t := by
  have hlike : (p.like (.str text) column negated v).Yields s
      (parenthesized (column ++ .text (" " ++ p.likeText negated ++ " ") :: right)) t := by
    rw [Place.like_eq, Place.likeGroup_leaf hv, pure_bind]
    simp only [patternItems_leaf hv, List.isEmpty_cons, Bool.false_eq_true, ↓reduceIte,
      Place.likeItems_leaf hv, Place.likeItems, Compile.yields_bind, Compile.yields_lift,
      likePattern_eq_ok, Compile.yields_pure]
    exact ⟨_, t, ⟨_, s, ⟨⟨htext, rfl⟩, rfl⟩, right, t, hbind, [], t, ⟨rfl, rfl⟩, rfl, rfl⟩, rfl, rfl⟩
  rw [Place.predicate_str]
  simp only [Compile.yields_bind, Compile.yields_lift]
  refine ⟨parsed, s, ⟨hkey, rfl⟩, column, s, hleft, ?_⟩
  rw [hoperator]
  cases negated with
  | false => exact hlike
  | true => exact hlike

/-- Pattern tests are atoms, and each is the predicate of its pattern. -/
theorem means_likeItems {text : String} {parsed : ConditionKey} {negated : Bool} {column : Sql}
    {items : List Value} {rows : List Sql} (hp : p.target.PlainPrefix backslash)
    (hs : s.NamesTokens) (hkey : Key.conditionKey text = .ok parsed)
    (hoperator : parsed.operator = some (patternOperator negated))
    (hleft : ∀ u, (p.left parsed).Yields u column u) (hcolumn : IsAtom (column.tokens backslash))
    (hitems : ∀ v ∈ items, v.rawFree = true)
    (h : (p.likeItems (.str text) column (p.likeText negated) items).Yields s rows t) :
    MeansAll backslash p s (rows.map (Sql.tokens backslash))
      (items.map fun v => .atom (.predicate (.str text) v)) t := by
  have hlike : isOperatorText (" " ++ p.likeText negated ++ " ") = true := by
    unfold Place.likeText
    cases p.target.dialect <;> cases negated <;> rfl
  induction items generalizing s rows with
  | nil =>
      simp only [Place.likeItems, Compile.yields_pure] at h
      obtain ⟨rfl, rfl⟩ := h
      exact .nil _
  | cons v rest ih =>
      rw [List.forall_mem_cons] at hitems
      obtain ⟨right, u, more, hv, htext, hbind, hrest, rfl⟩ := yields_likeItems_cons hitems.1 h
      have hpredicate := yields_predicate_pattern hkey hoperator (hleft s) hv htext hbind
      have hwritten := written_predicate hp hs hitems.1 hpredicate
      have hatom := isAtom_bound hcolumn hlike hbind
      have hparse : parseText backslash (Sql.text
          (parenthesized (column ++ .text (" " ++ p.likeText negated ++ " ") :: right))) =
          some (.atom ((column ++ .text (" " ++ p.likeText negated ++ " ") :: right).tokens
            backslash)) := by
        rw [Sql.parseText_of_aligned hwritten.aligned, (operand_atom hatom).parse]
      have hmore := ih (hwritten.advances.namesTokens hs) hitems.2 hrest
      refine .cons ⟨.atom (.predicate (.str text) v, _), rfl, ?_, hatom.operand⟩ hmore
      exact .cons hpredicate hparse (.nil u)

theorem means_like {text : String} {parsed : ConditionKey} {negated : Bool} {column : Sql} {v : Value}
    (hp : p.target.PlainPrefix backslash) (hs : s.NamesTokens)
    (hkey : Key.conditionKey text = .ok parsed)
    (hoperator : parsed.operator = some (patternOperator negated))
    (hleft : ∀ u, (p.left parsed).Yields u column u) (hcolumn : IsAtom (column.tokens backslash))
    (hv : v.rawFree = true) (h : (p.like (.str text) column negated v).Yields s sql t) :
    Means backslash p s (sql.tokens backslash) (predicateMeaning (.str text) v) t := by
  obtain ⟨connective, patterns, rows, hgroup, hne, hrows, rfl⟩ := yields_like h
  have hitems := rawFree_patterns hv hgroup
  have hall := means_likeItems hp hs hkey hoperator hleft hcolumn hitems hrows
  have hmeaning : predicateMeaning (.str text) v =
      .all connective ((patternItems patterns).map fun w => .atom (.predicate (.str text) w)) := by
    have htests : testsPatterns (keyOperator (.str text)) = true := by
      simp only [keyOperator, hkey, hoperator]
      cases negated <;> rfl
    rw [predicateMeaning, if_pos htests, ← yields_patternGroup hgroup]
  have hrowsNe : rows ≠ [] := by
    rintro rfl
    cases hitemsEq : patternItems patterns with
    | nil => exact hne hitemsEq
    | cons w rest =>
        rw [hitemsEq] at hall
        cases hall
  rw [hmeaning]
  exact means_parenthesized hall hrowsNe connective

/-- A predicate means one leaf, or a group of one leaf for each pattern. -/
theorem means_predicate {key v : Value} (hp : p.target.PlainPrefix backslash) (hs : s.NamesTokens)
    (hv : v.rawFree = true) (hcall : key.isCalledOnce = true)
    (h : (p.predicate key v).Yields s sql t) :
    Means backslash p s (sql.tokens backslash) (predicateMeaning key v) t := by
  have haligned := (written_predicate hp hs hv h).aligned
  cases key with
  | str text =>
      have hpredicate := h
      rw [Place.predicate_str] at h
      simp only [Compile.yields_bind, Compile.yields_lift] at h
      obtain ⟨parsed, _, ⟨hkey, rfl⟩, column, u, hleft, h⟩ := h
      obtain ⟨rfl, _⟩ := written_left hp hkey hleft
      have hcolumn : IsAtom (column.tokens backslash) := by
        refine isAtom_left hkey (fun hfunction => ?_) hleft
        simpa [Value.isCalledOnce, hkey, hfunction] using hcall
      cases htests : testsPatterns parsed.operator with
      | false =>
          have hoperator : testsPatterns (keyOperator (.str text)) = false := by
            simpa only [keyOperator, hkey] using htests
          obtain ⟨a, ha⟩ := (testRow_test hv htests h).operand hcolumn
          have hleaf : ((Leaf.predicate (.str text) v).compile p).Yields u sql t := hpredicate
          rw [predicateMeaning, hoperator]
          exact means_leaf hleaf haligned ha
      | true =>
          obtain ⟨negated, hoperator⟩ := eq_patternOperator htests
          rw [hoperator, Place.test_patternOperator] at h
          exact means_like hp hs hkey hoperator (yields_left_anywhere hleft) hcolumn hv h
  | _ => simp [Place.predicate] at h

/-! Trees. -/

theorem means_columns {v : Value} (hp : p.target.PlainPrefix backslash)
    (h : (p.columns v).Yields s sql t) :
    Means backslash p s (sql.tokens backslash) (.atom (.columns v)) t :=
  have hleaf : ((Leaf.columns v).compile p).Yields s sql t := h
  means_leaf hleaf (written_columns hp h).aligned (isAtom_columns h).operand

theorem meansAll_columnsList {items : List Value} {rows : List Sql}
    (hp : p.target.PlainPrefix backslash) (h : (p.columnsList items).Yields s rows t) :
    MeansAll backslash p s (rows.map (Sql.tokens backslash)) (columnMeanings items) t := by
  induction items generalizing s rows with
  | nil =>
      simp only [Place.columnsList, Compile.yields_pure] at h
      obtain ⟨rfl, rfl⟩ := h
      exact .nil _
  | cons v rest ih =>
      simp only [Place.columnsList, Compile.yields_bind, Compile.yields_pure] at h
      obtain ⟨first, _, hfirst, more, _, hmore, rfl, rfl⟩ := h
      exact .cons (means_columns hp hfirst) (ih hmore)

/-- An entry of any kind, followed by the others. -/
theorem meansAll_entries_cons {connective : Connective} {key v : Value}
    {rest : List (Value × Value)} {rows : List Sql} (hp : p.target.PlainPrefix backslash)
    (hs : s.NamesTokens) (hv : v.rawFree = true)
    (hentry : ∀ {u sql}, (entry p connective key v).Yields s sql u →
      Means backslash p s (sql.tokens backslash) (entryMeaning connective key v) u)
    (hrest : ∀ {u t rows}, u.NamesTokens → (entries p connective rest).Yields u rows t →
      MeansAll backslash p u (rows.map (Sql.tokens backslash)) (entryMeanings connective rest) t)
    (h : (entries p connective ((key, v) :: rest)).Yields s rows t) :
    MeansAll backslash p s (rows.map (Sql.tokens backslash))
      (entryMeanings connective ((key, v) :: rest)) t := by
  obtain ⟨first, u, more, hfirst, hmore, rfl⟩ := yields_entries_cons h
  have hnames := (written_entry hp hs hv hfirst).advances.namesTokens hs
  rw [entryMeanings_cons, List.map_cons]
  exact .cons (hentry hfirst) (hrest hnames hmore)

/-- The entries of a dictionary, the group under a logical key and the groups of a list are read as
operands with the meaning of what they are compiled from. -/
theorem means_entries_logical_groups (hp : p.target.PlainPrefix backslash) :
    (∀ (connective : Connective) (es : List (Value × Value)), Value.rawFreeEntries es = true →
      Value.singleCallsEntries es = true →
      ∀ {s t rows}, s.NamesTokens → (entries p connective es).Yields s rows t →
        MeansAll backslash p s (rows.map (Sql.tokens backslash)) (entryMeanings connective es) t) ∧
    (∀ (outer : Connective) (key : Value) (inner : Connective) (v : Value), v.rawFree = true →
      v.singleCalls = true →
      ∀ {s t sql}, s.NamesTokens → (logical p outer key inner v).Yields s sql t →
        Means backslash p s (sql.tokens backslash) (groupMeaning outer inner v) t) ∧
    (∀ (inner : Connective) (items : List Value), Value.rawFreeItems items = true →
      Value.singleCallsItems items = true →
      ∀ {s t rows}, s.NamesTokens → (groups p inner items).Yields s rows t →
        MeansAll backslash p s (rows.map (Sql.tokens backslash)) (dictMeanings inner items) t) := by
  apply entries.mutual_induct p
  · intro outer key inner es ih hfree hcalls s t sql hs h
    obtain ⟨members, hmembers, hne, rfl⟩ := yields_logical_dict h
    exact means_parenthesized (ih hfree hcalls hs hmembers) hne inner
  · intro outer key inner items hitems ih hfree hcalls s t sql hs h
    obtain ⟨found, hfound, rfl⟩ := yields_logical_groups hitems h
    rw [groupMeaning, if_pos hitems]
    exact means_parenthesized (ih hfree hcalls hs hfound) (groups_ne_nil hitems hfound) outer
  · intro outer key inner items hitems hfree hcalls s t sql hs h
    obtain ⟨members, hmembers, hne, rfl⟩ := yields_logical_columns hitems h
    rw [groupMeaning, if_neg hitems]
    exact means_parenthesized (meansAll_columnsList hp hmembers) hne inner
  · intro v outer key inner hdict hlist _ _ s t sql _ h
    exact absurd h (not_yields_logical hdict hlist)
  · intro inner _ _ s t rows _ h
    simp only [groups, Compile.yields_pure] at h
    obtain ⟨rfl, rfl⟩ := h
    exact .nil _
  · intro inner es rest ih ihrest hfree hcalls s t rows hs h
    rw [Value.rawFreeItems, Bool.and_eq_true] at hfree
    rw [Value.singleCallsItems, Bool.and_eq_true] at hcalls
    obtain ⟨members, u, more, hmembers, hne, hmore, rfl⟩ := yields_groups_cons h
    have hgroup := means_parenthesized (ih hfree.1 hcalls.1 hs hmembers) hne inner
    have hwritten := (written_entries_logical_groups hp).1 inner es hfree.1 hs hmembers
    have hnames : u.NamesTokens := hwritten.advances.namesTokens hs
    exact .cons hgroup (ihrest hfree.2 hcalls.2 hnames hmore)
  · intro inner v rest hdict ihrest hfree hcalls s t rows hs h
    rw [Value.rawFreeItems, Bool.and_eq_true] at hfree
    rw [Value.singleCallsItems, Bool.and_eq_true] at hcalls
    cases v with
    | dict es => exact absurd rfl (hdict es)
    | _ => exact ihrest hfree.2 hcalls.2 hs h
  · intro connective _ _ s t rows _ h
    simp only [entries, Compile.yields_pure] at h
    obtain ⟨rfl, rfl⟩ := h
    exact .nil _
  · intro connective key v rest inner hrole ihrest ih hfree hcalls s t rows hs h
    rw [Value.rawFreeEntries, Bool.and_eq_true] at hfree
    rw [Value.singleCallsEntries, Bool.and_eq_true, Bool.and_eq_true] at hcalls
    refine meansAll_entries_cons hp hs hfree.1 (fun h => ?_) (ihrest hfree.2 hcalls.2.2) h
    simp only [entry, hrole] at h
    rw [entryMeaning, hrole]
    exact ih hfree.1 hcalls.2.1 hs h
  · intro connective key v rest hrole ihrest hfree hcalls s t rows hs h
    rw [Value.rawFreeEntries, Bool.and_eq_true] at hfree
    rw [Value.singleCallsEntries, Bool.and_eq_true, Bool.and_eq_true] at hcalls
    refine meansAll_entries_cons hp hs hfree.1 (fun h => ?_) (ihrest hfree.2 hcalls.2.2) h
    simp only [entry, hrole] at h
    rw [entryMeaning, hrole]
    exact means_columns hp h
  · intro connective key v rest hrole ihrest hfree hcalls s t rows hs h
    rw [Value.rawFreeEntries, Bool.and_eq_true] at hfree
    rw [Value.singleCallsEntries, Bool.and_eq_true, Bool.and_eq_true] at hcalls
    refine meansAll_entries_cons hp hs hfree.1 (fun h => ?_) (ihrest hfree.2 hcalls.2.2) h
    simp only [entry, hrole] at h
    rw [entryMeaning, hrole]
    exact means_predicate hp hs hfree.1 hcalls.1 h

/-- Members of a group, as the body of a clause. -/
theorem MeansAll.parse_join {members : List Sql} {ms : List (Formula Leaf)}
    (h : MeansAll backslash p s (members.map (Sql.tokens backslash)) ms t) (hne : members ≠ [])
    (c : Connective) :
    ∃ labelled : Formula (Leaf × Atom), labelled.map Prod.fst = .all c ms ∧
      Emits backslash p s labelled.atoms t ∧
      parse ((Sql.join (" " ++ c.text ++ " ") members).tokens backslash) =
        some (labelled.map Prod.snd) := by
  obtain ⟨labelled, hmap, hemits, _, hparse⟩ := h.joined (by simpa using hne) c
  rw [Sql.tokens_join]
  exact ⟨labelled, hmap, hemits, hparse⟩

theorem parse_compile {connective : Connective} {v : Value}
    (hp : p.target.PlainPrefix backslash) (hs : s.NamesTokens) (hv : v.rawFree = true)
    (hcalls : v.singleCalls = true) (h : (compile p connective v).Yields s sql t) :
    ∃ labelled : Formula (Leaf × Atom), labelled.map Prod.fst = meaning connective v ∧
      Emits backslash p s labelled.atoms t ∧
      parse (sql.tokens backslash) = some (labelled.map Prod.snd) := by
  cases v with
  | dict es =>
      simp only [compile, Compile.yields_bind] at h
      obtain ⟨members, _, hmembers, hjoined⟩ := h
      obtain ⟨hne, rfl, rfl⟩ := yields_joined hjoined
      have hall := (means_entries_logical_groups hp).1 connective es hv hcalls hs hmembers
      exact hall.parse_join hne connective
  | list items =>
      simp only [compile, Compile.yields_bind] at h
      obtain ⟨members, _, hmembers, hjoined⟩ := h
      obtain ⟨hne, rfl, rfl⟩ := yields_joined hjoined
      exact (meansAll_columnsList hp hmembers).parse_join hne connective
  | _ => simp [compile] at h

/-- Conditions without raw values, whose functions are called in single calls, keep their meaning:
the text that they compile to is parsed as their meaning, with the predicates that their leaves are
compiled to in the places of the leaves. So the text has the truth value of the tree for all truth
values of the predicates. None of its groups is empty. Names of parameters are those of a run, which
can be placeholders, and table prefixes those of a configuration, which are made of name characters. -/
theorem parse_keeps_meaning {connective : Connective} {v : Value}
    (hp : p.target.PlainPrefix backslash) (hs : s.NamesTokens) (hv : v.rawFree = true)
    (hcalls : v.singleCalls = true) (h : (compile p connective v).Yields s sql t) :
    ∃ labelled : Formula (Leaf × Atom), labelled.map Prod.fst = meaning connective v ∧
      Emits backslash p s labelled.atoms t ∧
      ∃ f, parseText backslash sql.text = some f ∧ f.populated = true ∧
        ∀ ρ : Atom → Truth, f.eval ρ = labelled.eval fun leaf => ρ leaf.2 := by
  obtain ⟨labelled, hmeaning, hemits, hparse⟩ := parse_compile hp hs hv hcalls h
  have haligned := (written_compile hp hs hv h).aligned
  refine ⟨labelled, hmeaning, hemits, labelled.map Prod.snd, ?_, populated_of_parse hparse, ?_⟩
  · rw [Sql.parseText_of_aligned haligned, hparse]
  · exact fun ρ => (Formula.eval_map Prod.snd ρ).1 labelled

/-- A call, and a list of groups whose members are joined by OR, with patterns and a range. -/
def nestedConditions : Value :=
  .dict
    [(.str "COUNT(id)[>]", .int 3),
      (.str "OR # either", .list
        [.dict [(.str "a", .null), (.str "b[~]", .list [.str "x", .str "y"])],
          .dict [(.str "c[<>]", .list [.int 1, .int 2]), (.int 0, .str "a[=]users.b")]])]

theorem parse_keeps_meaning_of_nested :
    ∃ (sql : Sql) (t : Parameters) (labelled : Formula (Leaf × Atom)) (f : Formula Atom),
      (compile ⟨⟨.mysql, "app_"⟩, .having⟩ .and nestedConditions).Yields (.start 4) sql t ∧
      labelled.map Prod.fst = meaning .and nestedConditions ∧
      parseText true sql.text = some f ∧ f.populated = true ∧
      ∀ ρ : Atom → Truth, f.eval ρ = labelled.eval fun leaf => ρ leaf.2 := by
  have hcompiles : ((ExceptT.run (compile ⟨⟨.mysql, "app_"⟩, .having⟩ .and nestedConditions)).run
      (.start 4)).1.toOption.isSome = true := by
    decide +kernel
  have hcalls : nestedConditions.singleCalls = true := by
    decide +kernel
  rcases hrun : (ExceptT.run (compile ⟨⟨.mysql, "app_"⟩, .having⟩ .and nestedConditions)).run
      (.start 4) with ⟨_ | sql, t⟩
  · rw [hrun] at hcompiles
    cases hcompiles
  · have hplain : Target.PlainPrefix true ⟨.mysql, "app_"⟩ := fun _ => by decide
    obtain ⟨labelled, hmeaning, _, f, hparse, hpopulated, heval⟩ :=
      parse_keeps_meaning (p := ⟨⟨.mysql, "app_"⟩, .having⟩) hplain (namesTokens_start 4) rfl
        hcalls ⟨hrun⟩
    exact ⟨sql, t, labelled, f, ⟨hrun⟩, hmeaning, hparse, hpopulated, heval⟩

end Conditions

end QueryLoom
