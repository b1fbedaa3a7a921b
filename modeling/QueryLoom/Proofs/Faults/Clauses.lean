import QueryLoom.Proofs.Bindings.Clauses

/-!
By which faults compilation fails. A step fails by a fault of compilation, by one of some other faults
that are named for it, or in the way the supply of its bindings fails: so every other fault of a
statement comes from a place that can be pointed at. Conditions, joins, projections and the ends of
statements need one other fault only, and that where a value without a text is to be written: into the
statement, or into the message of a fault.
-/

namespace QueryLoom

/-! Values whose texts may be wanted. -/

/-- A value has a text, or it is among some faults that it has none. -/
def Covers (Other : Fault → Prop) (v : Value) : Prop := v.hasText = true ∨ Other .badValue

namespace Covers

variable {Other : Fault → Prop} {v w : Value}

theorem mono (h : Covers Other v) (himp : v.hasText = true → w.hasText = true) : Covers Other w :=
  h.imp_left himp

theorem badValue (h : Covers Other v) : ¬v.hasText = true → Other .badValue := h.resolve_left

theorem str (s : String) : Covers Other (.str s) := .inl rfl

theorem cons {rest : List Value} (h : Covers Other (.list (v :: rest))) :
    Covers Other v ∧ Covers Other (.list rest) := by
  simp only [Covers, Value.hasText_list, List.forall_mem_cons] at h ⊢
  exact ⟨h.imp_left And.left, h.imp_left And.right⟩

theorem entry {key : Value} {rest : Dict} (h : Covers Other (.dict ((key, v) :: rest))) :
    Covers Other key ∧ Covers Other v ∧ Covers Other (.dict rest) := by
  simp only [Covers, Value.hasText_dict, List.forall_mem_cons] at h ⊢
  exact ⟨h.imp_left fun h => h.1.1, h.imp_left fun h => h.1.2, h.imp_left And.right⟩

/-- Some of the entries of a dictionary. -/
theorem subset {entries some : Dict} (h : Covers Other (.dict entries)) (hsome : some ⊆ entries) :
    Covers Other (.dict some) :=
  h.mono fun h => Value.hasText_dict.mpr fun entry hentry => Value.hasText_dict.mp h entry (hsome hentry)

theorem getD {entries : Dict} (h : Covers Other (.dict entries)) (key : String) :
    Covers Other (Dict.getD entries key) := by
  refine h.mono fun h => ?_
  unfold Dict.getD
  cases hfound : Dict.get? entries key with
  | none => rfl
  | some v =>
      obtain ⟨k, hk, _⟩ := Assoc.mem_of_get? hfound
      exact (Value.hasText_dict.mp h _ hk).2

end Covers

theorem Value.Inherited.covers (Other : Fault → Prop) : Value.Inherited (Covers Other) where
  items := fun h v hv => h.mono fun h => Value.hasText_list.mp h v hv
  entries := fun h entry hentry => h.mono fun h => (Value.hasText_dict.mp h entry hentry).2
  octets := fun octets v hv => .inl (Value.hasText_octets octets v hv)

namespace Compile

variable {α β : Type} {Other : Fault → Prop} {xs ys : List Supply} {m : Compile α}

/-- A step that asks for bindings fails by a fault of compilation, by one of some other faults, or as
the supply of its bindings does. -/
def FailsBy (Other : Fault → Prop) (m : Compile α) (xs : List Supply) : Prop :=
  ∀ s fault u, (ExceptT.run m).run s = (.error fault, u) →
    fault.isCompilation = true ∨ Other fault ∨ (ExceptT.run (supply xs)).run s = (.error fault, u)

namespace FailsBy

theorem pure (a : α) : FailsBy Other (Pure.pure a) xs := by
  intro s fault u h
  cases h

theorem throw {fault : Fault} (h : fault.isCompilation = true) :
    FailsBy Other (MonadExcept.throw fault : Compile α) xs := by
  intro s other u heq
  cases heq
  exact .inl h

theorem lift_of {x : Except Fault α}
    (h : ∀ fault, x = .error fault → fault.isCompilation = true ∨ Other fault) :
    FailsBy Other (Compile.lift x) xs := by
  cases x with
  | ok a => exact pure a
  | error fault =>
      intro s other u heq
      cases heq
      exact (h fault rfl).imp_right .inl

/-- A check that wants texts. -/
theorem lift {textless : Prop} {x : Except Fault α} (h : Typed textless x)
    (hcovers : textless → Other .badValue) : FailsBy Other (Compile.lift x) xs := by
  refine lift_of fun fault hfault => ?_
  rcases h fault hfault with ⟨hcompilation, -⟩ | ⟨rfl, htextless⟩
  · exact .inl hcompilation
  · exact .inr (hcovers htextless)

/-- A fault whose message shows a value. -/
theorem throw_showing {v : Value} {fault : Fault} (hv : Covers Other v)
    (h : fault.isCompilation = true) :
    FailsBy Other (MonadExcept.throw (.showing v fault) : Compile α) xs := by
  intro s other u heq
  cases heq
  unfold Fault.showing
  split_ifs with htext
  · exact .inl h
  · exact .inr (.inl (hv.badValue htext))

theorem requireText {v : Value} (hv : Covers Other v) : FailsBy Other (Compile.requireText v) xs := by
  refine lift_of fun fault hfault => ?_
  unfold Value.checkText at hfault
  split_ifs at hfault with htext
  cases hfault
  exact .inr (hv.badValue htext)

/-- What goes on from a step fails after the bindings of the step are made. -/
theorem bind_of {k : α → Compile β} (h : FailsBy Other m xs) (hm : Makes m xs)
    (hk : ∀ a, (∃ s u, m.Yields s a u) → FailsBy Other (k a) ys) :
    FailsBy Other (m >>= k) (xs ++ ys) := by
  intro s fault u hrun
  rw [supply_append, ExceptT.run_bind, StateT.run_bind]
  rw [ExceptT.run_bind, StateT.run_bind] at hrun
  rcases hfirst : (ExceptT.run m).run s with ⟨first | a, v⟩
  · rw [hfirst] at hrun
    cases hrun
    refine (h s _ _ hfirst).imp_right (Or.imp_right fun hsupply => ?_)
    rw [hsupply]
    rfl
  · rw [hfirst] at hrun
    have hyields : m.Yields s a v := ⟨hfirst⟩
    refine (hk a ⟨s, v, hyields⟩ v fault u hrun).imp_right (Or.imp_right fun hsupply => ?_)
    rw [(hm.yields hyields).run]
    exact hsupply

theorem bind {k : α → Compile β} (h : FailsBy Other m xs) (hm : Makes m xs)
    (hk : ∀ a, FailsBy Other (k a) ys) : FailsBy Other (m >>= k) (xs ++ ys) :=
  h.bind_of hm fun a _ => hk a

/-- A step after one that binds nothing. -/
theorem after {k : α → Compile β} (h : FailsBy Other m []) (hm : Makes m [])
    (hk : ∀ a, FailsBy Other (k a) ys) : FailsBy Other (m >>= k) ys :=
  h.bind hm hk

theorem after_of {k : α → Compile β} (h : FailsBy Other m []) (hm : Makes m [])
    (hk : ∀ a, (∃ s u, m.Yields s a u) → FailsBy Other (k a) ys) : FailsBy Other (m >>= k) ys :=
  h.bind_of hm hk

/-- A step before one that binds nothing. -/
theorem before {k : α → Compile β} (h : FailsBy Other m xs) (hm : Makes m xs)
    (hk : ∀ a, FailsBy Other (k a) []) : FailsBy Other (m >>= k) xs := by
  have hbind := h.bind hm hk
  rwa [List.append_nil] at hbind

/-- A function of results fails as the step does. -/
theorem map (h : FailsBy Other m xs) (f : α → β) : FailsBy Other (do return f (← m)) xs := by
  intro s fault u hrun
  rw [ExceptT.run_bind, StateT.run_bind] at hrun
  rcases hfirst : (ExceptT.run m).run s with ⟨first | a, v⟩
  · rw [hfirst] at hrun
    cases hrun
    exact h s _ _ hfirst
  · rw [hfirst] at hrun
    cases hrun

/-- A step that fails as the supply does fails by nothing else. -/
theorem of_supply {f : Unit → α} (h : m = (do return f (← supply xs))) : FailsBy Other m xs := by
  have hsupply : FailsBy Other (supply xs) xs := fun _ _ _ hrun => .inr (.inr hrun)
  rw [h]
  exact hsupply.map f

theorem bindValue (v : Value) : FailsBy Other (Compile.bindValue v) [.value v] := by
  intro s fault u hrun
  refine .inr (.inr ?_)
  have hsupply : supply [.value v] = (do let _ ← Compile.addValue v; Pure.pure ()) := rfl
  rw [Compile.bindValue, ExceptT.run_bind, StateT.run_bind] at hrun
  rw [hsupply, ExceptT.run_bind, StateT.run_bind]
  rcases hadd : (ExceptT.run (Compile.addValue v)).run s with ⟨first | name, w⟩
  · rw [hadd] at hrun
    cases hrun
    rfl
  · rw [hadd] at hrun
    cases hrun

theorem bindName (key v : Value) :
    FailsBy Other (Compile.bindName (parameterName key) v) [.entry key v] := by
  refine of_supply (f := id) ?_
  simp [supply]

theorem merge {parameters : Dict} (h : Covers Other (.dict parameters)) :
    FailsBy Other (Compile.merge parameters) (Supply.ofMap parameters) := by
  induction parameters with
  | nil => exact pure ()
  | cons entry rest ih =>
      obtain ⟨key, v⟩ := entry
      obtain ⟨hkey, _, hrest⟩ := h.entry
      exact (requireText hkey).after (Makes.requireText key) fun _ =>
        (bindName key v).bind (Makes.bindName key v) fun _ => ih hrest

theorem splice {t : Target} {raw : String} {parameters : Dict}
    (h : Covers Other (.raw raw parameters)) :
    FailsBy Other (t.splice raw parameters) (Supply.ofMap parameters) :=
  have hmerge : FailsBy Other (Compile.merge parameters) (Supply.ofMap parameters) := merge h
  hmerge.map fun _ => ([.fragment (Fragment.expand t.tablePrefix raw)] : Sql)

variable {t : Target} {v : Value}

theorem column (hv : Covers Other v) : FailsBy Other (t.column v) xs :=
  .lift (Identifier.typed_column _ v) hv.badValue

theorem table (hv : Covers Other v) : FailsBy Other (t.table v) xs :=
  .lift (Identifier.typed_table _ v) hv.badValue

theorem tableRef (ref : TableRef) : FailsBy Other (t.tableRef ref) xs :=
  .lift (Identifier.typed_tableRef _ ref) False.elim

theorem bareName (hv : Covers Other v) : FailsBy Other (Compile.bareName v) xs :=
  .lift (Identifier.typed_bare v) hv.badValue

end FailsBy

end Compile

open Compile Compile.FailsBy

variable {Other : Fault → Prop} {t : Target}

/-! Conditions. -/

namespace Conditions

variable {p : Place} {key v : Value}

theorem fails_checkScalar (hkey : Covers Other key) (v : Value) :
    FailsBy Other (p.checkScalar key v) [] := by
  unfold Place.checkScalar
  split
  · exact .throw_showing hkey rfl
  · exact .throw_showing hkey rfl
  · exact .throw_showing hkey rfl
  · exact .pure _

theorem fails_operand (hkey : Covers Other key) (hv : Covers Other v) :
    FailsBy Other (p.operand key v) (operandSupplies v) := by
  cases v with
  | raw raw parameters => exact .splice hv
  | _ => exact (fails_checkScalar hkey _).after (makes_checkScalar _ _) fun _ => .bindValue _

theorem fails_boundItems (hkey : Covers Other key) (items : List Value) :
    FailsBy Other (p.boundItems key items) (items.map fun v => .value (bindScalar v)) := by
  induction items with
  | nil => exact .pure _
  | cons v rest ih =>
      refine (fails_checkScalar hkey v).after (makes_checkScalar key v) fun _ => ?_
      exact (FailsBy.bindValue _).bind (Makes.bindValue _) fun item => ih.map fun more => item :: more

theorem fails_equality (column : Sql) (negated : Bool) (hkey : Covers Other key)
    (hv : Covers Other v) :
    FailsBy Other (p.equality key column negated v) (equalitySupplies v) := by
  cases v with
  | null => exact .pure _
  | list items =>
      cases items with
      | nil => exact .throw_showing hkey rfl
      | cons v rest => exact (fails_boundItems hkey (v :: rest)).map _
  | raw raw parameters => exact (FailsBy.splice hv).map _
  | _ =>
      exact (fails_checkScalar hkey _).after (makes_checkScalar _ _) fun _ =>
        (FailsBy.bindValue _).map _

theorem fails_comparison (column : Sql) (operator : ConditionOperator) (hkey : Covers Other key)
    (hv : Covers Other v) :
    FailsBy Other (p.comparison key column operator v) (operandSupplies v) := by
  cases v with
  | null => exact .throw_showing hkey rfl
  | list items => exact .throw_showing hkey rfl
  | _ => exact (fails_operand hkey hv).map _

theorem fails_regexp (column : Sql) (hkey : Covers Other key) (hv : Covers Other v) :
    FailsBy Other (p.regexp key column v) (operandSupplies v) := by
  cases v with
  | null => exact .throw_showing hkey rfl
  | list items => exact .throw_showing hkey rfl
  | _ => exact (fails_operand hkey hv).map _

theorem fails_between (column : Sql) (negated : Bool) (hkey : Covers Other key)
    (hv : Covers Other v) :
    FailsBy Other (p.between key column negated v) (rangeSupplies v) := by
  unfold Place.between
  split
  · rename_i low high
    have hends : rangeSupplies (.list [low, high]) = operandSupplies low ++ operandSupplies high := by
      simp [rangeSupplies]
    obtain ⟨hlow, hhigh⟩ := hv.cons
    rw [hends]
    exact (fails_operand hkey hlow).bind (makes_operand low) fun lowSql =>
      (fails_operand hkey hhigh.cons.1).map _
  · exact .throw_showing hkey rfl

/-- What goes on with the pattern for a value. -/
theorem fails_likePattern {α : Type} {k : String → Compile α} {xs : List Supply}
    (hv : Covers Other v) (hk : ∀ pattern, pattern = patternOf v.plain → FailsBy Other (k pattern) xs) :
    FailsBy Other (Compile.lift (likePattern v) >>= k) xs := by
  have hpattern : FailsBy Other (Compile.lift (likePattern v)) [] := by
    refine .lift_of fun fault hfault => ?_
    unfold likePattern Value.toText at hfault
    split_ifs at hfault with htext
    · cases hfault
    · cases hfault
      exact .inr (hv.badValue htext)
  refine hpattern.after_of (.lift (blameless_likePattern v)) fun pattern hyields => ?_
  obtain ⟨_, _, hyields⟩ := hyields
  exact hk pattern (likePattern_eq_ok.mp ((yields_lift _).mp hyields).1).2

theorem fails_likeItems (column : Sql) (operator : String) (hkey : Covers Other key)
    {items : List Value} (hitems : Covers Other (.list items)) :
    FailsBy Other (p.likeItems key column operator items) (items.flatMap patternSupplies) := by
  induction items with
  | nil => exact .pure _
  | cons v rest ih =>
      obtain ⟨hv, hrest⟩ := hitems.cons
      rw [List.flatMap_cons]
      cases v with
      | raw raw parameters =>
          exact (FailsBy.splice hv).bind (makes_splice _ _ _) fun right =>
            (ih hrest).map fun more => _ :: more
      | null | dict es | list items => exact FailsBy.throw_showing hkey rfl
      | _ =>
          refine fails_likePattern hv fun pattern hpattern => ?_
          rw [hpattern]
          exact (FailsBy.bindValue _).bind (Makes.bindValue _) fun right =>
            (ih hrest).map fun more => _ :: more

theorem fails_likeGroup (hkey : Covers Other key) (v : Value) :
    FailsBy Other (p.likeGroup key v) [] := by
  unfold Place.likeGroup
  split
  · split
    · exact .pure _
    · exact .throw_showing hkey rfl
  · exact .throw_showing hkey rfl
  · exact .pure _

/-- The patterns of a value have texts if the value has one. -/
theorem covers_patternItems (hv : Covers Other v) :
    Covers Other (.list (patternItems (patternGroup v).2)) := by
  have hpatterns : Covers Other (patternGroup v).2 := by
    unfold patternGroup
    split
    · split
      · exact hv.entry.2.1
      · exact hv
    · exact hv
  revert hpatterns
  generalize (patternGroup v).2 = patterns
  intro hpatterns
  cases patterns with
  | list items => exact hpatterns
  | _ => exact hpatterns.mono fun h => by simpa [patternItems, Value.hasText_list] using h

theorem fails_like (column : Sql) (negated : Bool) (hkey : Covers Other key)
    (hv : Covers Other v) :
    FailsBy Other (p.like key column negated v)
      ((patternItems (patternGroup v).2).flatMap patternSupplies) := by
  rw [Place.like_eq]
  refine (fails_likeGroup hkey v).after_of (makes_likeGroup v) fun group hgroup => ?_
  obtain ⟨_, _, hyields⟩ := hgroup
  have hpatterns := covers_patternItems hv
  rw [← yields_patternGroup hyields] at hpatterns ⊢
  split_ifs
  · exact .throw_showing hkey rfl
  · exact (fails_likeItems _ _ hkey hpatterns).map _

theorem fails_left (parsed : ConditionKey) : FailsBy Other (p.left parsed) [] := by
  unfold Place.left
  split_ifs
  · exact .pure _
  · exact .column (.str _)

theorem fails_test (column : Sql) (operator : Option ConditionOperator) (hkey : Covers Other key)
    (hv : Covers Other v) :
    FailsBy Other (p.test key column v operator) (testSupplies v operator) := by
  cases operator with
  | none => exact fails_equality column false hkey hv
  | some operator =>
      cases operator with
      | not => exact fails_equality column true hkey hv
      | like => exact fails_like column false hkey hv
      | notLike => exact fails_like column true hkey hv
      | between => exact fails_between column false hkey hv
      | notBetween => exact fails_between column true hkey hv
      | regexp => exact fails_regexp column hkey hv
      | greater | greaterOrEqual | less | lessOrEqual => exact fails_comparison column _ hkey hv

theorem fails_predicate (hkey : Covers Other key) (hv : Covers Other v) :
    FailsBy Other (p.predicate key v) (testSupplies v (keyOperator key)) := by
  cases key with
  | str text =>
      rw [Place.predicate_str]
      refine FailsBy.after_of (.lift (Key.typed_conditionKey text) False.elim)
        (.lift (Key.blameless_conditionKey text)) fun parsed hparsed => ?_
      obtain ⟨_, _, hyields⟩ := hparsed
      have hoperator : keyOperator (.str text) = parsed.operator := by
        simp only [keyOperator, ((yields_lift _).mp hyields).1]
      rw [hoperator]
      exact (fails_left parsed).after (makes_left parsed) fun column =>
        fails_test column _ hkey hv
  | _ => exact .throw_showing hkey rfl

theorem fails_columns (hv : Covers Other v) : FailsBy Other (p.columns v) [] := by
  unfold Place.columns
  dsimp only
  split
  · exact .throw_showing hv rfl
  · exact (FailsBy.column (.str _)).after (makes_column _ _) fun left =>
      (FailsBy.column (.str _)).map _

theorem fails_columnsList {items : List Value} (hitems : Covers Other (.list items)) :
    FailsBy Other (p.columnsList items) [] := by
  induction items with
  | nil => exact .pure _
  | cons v rest ih =>
      obtain ⟨hv, hrest⟩ := hitems.cons
      exact (fails_columns hv).after (makes_columns v) fun first => (ih hrest).map _

theorem fails_joined {subject : Value} (h : Covers Other subject) (connective : Connective)
    (members : List Sql) : FailsBy Other (p.joined subject connective members) [] := by
  unfold Place.joined
  split_ifs
  · exact .throw_showing h rfl
  · exact .pure _

theorem fails_parenthesized {subject : Value} (h : Covers Other subject) (connective : Connective) (members : List Sql) :
    FailsBy Other (do return parenthesized (← p.joined subject connective members)) [] :=
  (fails_joined h connective members).map _

theorem fails_entries_logical_groups (p : Place) :
    (∀ (connective : Connective) (es : List (Value × Value)), Covers Other (.dict es) →
      FailsBy Other (entries p connective es) (entriesSupplies es)) ∧
    (∀ (outer : Connective) (key : Value) (inner : Connective) (v : Value), Covers Other key →
      Covers Other v → FailsBy Other (logical p outer key inner v) (groupSupplies v)) ∧
    (∀ (inner : Connective) (items : List Value), Covers Other (.list items) →
      FailsBy Other (groups p inner items) (dictsSupplies items)) := by
  obtain ⟨hmakes, hmakesLogical, -⟩ := makes_entries_logical_groups p
  apply entries.mutual_induct p
  · intro outer key inner es ih _ hv
    exact FailsBy.before (ih hv) (hmakes inner es) fun members => fails_parenthesized hv _ _
  · intro outer key inner items hitems ih _ hv
    have hall : items.all Value.isDict = true := (Bool.and_eq_true_iff.mp hitems).2
    simp only [logical, groupSupplies, if_pos hitems, if_pos hall]
    exact (ih hv).map _
  · intro outer key inner items hitems _ hv
    have hsupplies : groupSupplies (.list items) = [] := by
      cases items with
      | nil => rfl
      | cons v rest =>
          have hall : ¬(v :: rest).all Value.isDict = true := by simpa using hitems
          simp only [groupSupplies, if_neg hall]
    rw [hsupplies]
    simp only [logical, if_neg hitems]
    exact (fails_columnsList hv).before (makes_columnsList items) fun members =>
      fails_parenthesized hv _ _
  · intro v outer key inner hdict hlist hkey hv
    cases v with
    | dict es => exact absurd rfl (hdict es)
    | list items => exact absurd rfl (hlist items)
    | _ => exact .throw_showing hkey rfl
  · intro inner _
    exact .pure _
  · intro inner es rest ih ihrest hitems
    obtain ⟨hes, hrest⟩ := hitems.cons
    refine FailsBy.bind (ih hes) (hmakes inner es) fun members => ?_
    exact (fails_joined hes _ _).after (makes_joined _ _ _) fun first => (ihrest hrest).map _
  · intro inner v rest hdict ihrest hitems
    cases v with
    | dict es => exact absurd rfl (hdict es)
    | _ => exact ihrest hitems.cons.2
  · intro connective _
    exact .pure _
  · intro connective key v rest inner hrole ihrest ih hes
    obtain ⟨hkey, hv, hrest⟩ := hes.entry
    rw [entries_cons, entriesSupplies_cons]
    simp only [entry, entrySupplies, hrole]
    exact (ih hkey hv).bind (hmakesLogical _ _ _ _) fun first => (ihrest hrest).map _
  · intro connective key v rest hrole ihrest hes
    obtain ⟨-, hv, hrest⟩ := hes.entry
    rw [entries_cons, entriesSupplies_cons]
    simp only [entry, entrySupplies, hrole]
    exact (fails_columns hv).bind (makes_columns v) fun first => (ihrest hrest).map _
  · intro connective key v rest hrole ihrest hes
    obtain ⟨hkey, hv, hrest⟩ := hes.entry
    rw [entries_cons, entriesSupplies_cons]
    simp only [entry, entrySupplies, hrole]
    exact (fails_predicate hkey hv).bind (makes_predicate key v) fun first =>
      (ihrest hrest).map _

theorem fails_compile (p : Place) (connective : Connective) (hv : Covers Other v) :
    FailsBy Other (compile p connective v) (supplies v) := by
  cases v with
  | dict es =>
      exact ((fails_entries_logical_groups p).1 connective es hv).before
        ((makes_entries_logical_groups p).1 connective es) fun members => fails_joined hv _ _
  | list items =>
      exact (fails_columnsList hv).before (makes_columnsList items) fun members =>
        fails_joined hv _ _
  | _ => exact .throw_showing hv rfl

end Conditions

open Conditions (makes_column makes_splice)

/-! Joins. -/

namespace Joins

theorem fails_bareNames {names : List Value} (h : Covers Other (.list names)) :
    FailsBy Other (bareNames names) [] := by
  induction names with
  | nil => exact .pure _
  | cons v rest ih =>
      obtain ⟨hv, hrest⟩ := h.cons
      exact (FailsBy.bareName hv).after (Makes.bareName v) fun name => (ih hrest).map _

theorem fails_qualified (ref : TableRef) {column : Value} (h : Covers Other column) :
    FailsBy Other (qualified t ref column) [] :=
  (FailsBy.table (.str _)).after (Makes.table _) fun _ => (FailsBy.bareName h).map _

theorem fails_leftSide (base : TableRef) {left : Value} (h : Covers Other left) :
    FailsBy Other (leftSide t base left) [] := by
  unfold leftSide
  refine (FailsBy.requireText h).after (Makes.requireText left) fun _ => ?_
  split_ifs
  · exact .column h
  · exact fails_qualified base h

theorem fails_equations (base joined : TableRef) {entries : Dict} (h : Covers Other (.dict entries)) :
    FailsBy Other (equations t base joined entries) [] := by
  induction entries with
  | nil => exact .pure _
  | cons entry rest ih =>
      obtain ⟨left, right⟩ := entry
      obtain ⟨hleft, hright, hrest⟩ := h.entry
      rw [equations_cons]
      refine (fails_leftSide base hleft).after (makes_leftSide base left) fun leftSql => ?_
      exact (fails_qualified joined hright).after (makes_qualified joined right) fun rightSql =>
        (ih hrest).map _

theorem fails_relation (base joined : TableRef) (key : String) {v : Value} (hv : Covers Other v) :
    FailsBy Other (relation t base joined key v) [] := by
  unfold relation
  split
  · exact (FailsBy.bareName hv).map _
  · exact .throw rfl
  · exact (fails_equations base joined hv).map _
  · exact .throw rfl
  · exact (fails_bareNames hv).map _
  · exact .throw rfl

theorem fails_clauses (base : TableRef) {entries : Dict} (h : Covers Other (.dict entries)) :
    FailsBy Other (clauses t base entries) [] := by
  induction entries with
  | nil => exact .pure _
  | cons entry rest ih =>
      obtain ⟨key, v⟩ := entry
      obtain ⟨hkey, hv, hrest⟩ := h.entry
      cases key with
      | str key =>
          refine FailsBy.after (.lift (Key.typed_joinKey key) False.elim)
            (.lift (Key.blameless_joinKey key)) fun parsed => ?_
          refine (FailsBy.tableRef _).after (Makes.tableRef _) fun table => ?_
          exact (fails_relation base _ key hv).after (makes_relation base _ key v) fun condition =>
            (ih hrest).map _
      | _ => exact .throw_showing hkey rfl

theorem fails_compile (base : TableRef) {v : Value} (hv : Covers Other v) :
    FailsBy Other (compile t base v) [] := by
  unfold compile
  split
  · exact (fails_clauses base hv).map _
  · exact .throw_showing hv rfl

end Joins

/-! Projections. -/

namespace Projection

theorem fails_fieldItem (joins : Bool) (ref : ColumnRef) :
    FailsBy Other (fieldItem t joins ref) [] := by
  unfold fieldItem
  split_ifs with hall hjoins
  · exact .throw rfl
  · cases ref.table with
    | none => exact .pure _
    | some table => exact (FailsBy.table (.str _)).map _
  · refine (FailsBy.column (.str _)).after (makes_column _ _) fun sql => ?_
    cases ref.label with
    | none => exact .pure _
    | some label => exact (FailsBy.bareName (.str _)).map _

theorem fails_listItems (joins : Bool) :
    (∀ n : ColumnNode, (∀ leaf ∈ n.leaves, leaf.IsRead (Covers Other)) →
      FailsBy Other (nodeItems t joins n) (n.leaves.flatMap leafSupplies)) ∧
    (∀ ns : List ColumnNode, ColumnNode.AreRead (Covers Other) ns →
      FailsBy Other (listItems t joins ns) ((ColumnNode.leavesOf ns).flatMap leafSupplies)) := by
  apply nodeItems.mutual_induct
  · intro key children ih hread
    exact ih hread
  · intro ref raw parameters hread
    have hraw : Covers Other (.raw raw parameters) := (hread (.raw ref raw parameters) (by simp [ColumnNode.leaves])).2
    have hleaf : (ColumnNode.leaves (.raw ref raw parameters)).flatMap leafSupplies =
        Supply.ofMap parameters := by
      simp [ColumnNode.leaves, leafSupplies]
    rw [hleaf]
    exact ((FailsBy.splice hraw).before (makes_splice _ _ _) fun body =>
      (FailsBy.bareName (.str _)).map _).map _
  · intro ref _
    exact (fails_fieldItem joins ref).map _
  · intro _
    exact .pure _
  · intro n rest ih ihrest hread
    rw [ColumnNode.AreRead, ColumnNode.leavesOf, List.forall_mem_append] at hread
    rw [ColumnNode.leavesOf, List.flatMap_append]
    exact (ih hread.1).bind ((makes_listItems joins).1 n) fun first => (ihrest hread.2).map _

theorem fails_compile (joins : Bool) {tree : ColumnTree}
    (hread : ColumnNode.AreRead (Covers Other) tree.nodes) :
    FailsBy Other (compile t joins tree) (treeSupplies tree) := by
  have hitems : ∀ index : List Sql, FailsBy Other (do
      let items := index ++ (← listItems t joins tree.nodes)
      if items.isEmpty then throw (.emptyProjection tree)
      return Sql.join ", " items) (treeSupplies tree) := by
    intro index
    refine ((fails_listItems joins).2 _ hread).before ((makes_listItems joins).2 _) fun items => ?_
    dsimp only
    split_ifs
    · exact .throw rfl
    · exact .pure _
  unfold compile
  split
  · split_ifs
    · exact .throw rfl
    · exact .pure _
  · cases tree.indexKey? with
    | none => exact (FailsBy.pure []).after (.pure []) hitems
    | some key =>
        exact (FailsBy.column (.str _)).after (makes_column _ _) fun column =>
          (FailsBy.pure [column]).after (.pure [column]) hitems

end Projection

/-! Ends of statements. -/

namespace Tail

variable {key v : Value}

theorem fails_columnList {columns : List Value} (h : Covers Other (.list columns)) :
    FailsBy Other (columnList t columns) [] := by
  induction columns with
  | nil => exact .pure _
  | cons v rest ih =>
      obtain ⟨hv, hrest⟩ := h.cons
      exact (FailsBy.column hv).after (makes_column t v) fun first => (ih hrest).map _

/-- Octets have texts when they are gone through as numbers. -/
theorem covers_octets (octets : List UInt8) :
    Covers Other (.list (octets.map fun o => Value.int o.toNat)) :=
  .inl (Value.hasText_list.mpr (Value.hasText_octets octets))

theorem fails_group (hv : Covers Other v) : FailsBy Other (group t v) (Supply.ofRaw v) := by
  cases v with
  | raw raw parameters => exact .splice hv
  | str name => exact .column hv
  | list columns => exact (fails_columnList hv).map _
  | bytes octets => exact (fails_columnList (covers_octets octets)).map _
  | _ => exact .throw rfl

theorem fails_literals (d : Dialect) {values : List Value} (h : Covers Other (.list values)) :
    FailsBy Other (Compile.lift (values.mapM d.literal)) [] := by
  refine .lift_of fun fault hfault => ?_
  rw [Dialect.mapM_literal] at hfault
  split_ifs at hfault with hall
  cases hfault
  exact .inr (h.badValue fun htext => hall (List.all_eq_true.mpr (Value.hasText_list.mp htext)))

theorem fails_orderEntry (hkey : Covers Other key) (hv : Covers Other v) :
    FailsBy Other (orderEntry t key v) [] := by
  unfold orderEntry
  split
  · exact .column (.str _)
  · refine (FailsBy.column hkey).after (makes_column _ _) fun column => ?_
    dsimp only
    split
    · split
      · exact .pure _
      · exact .throw rfl
    · exact (fails_literals _ hv).map _
    · exact .throw rfl

theorem fails_orderEntries {entries : Dict} (h : Covers Other (.dict entries)) :
    FailsBy Other (orderEntries t entries) [] := by
  induction entries with
  | nil => exact .pure _
  | cons entry rest ih =>
      obtain ⟨hkey, hv, hrest⟩ := h.entry
      exact (fails_orderEntry hkey hv).after (makes_orderEntry entry.1 entry.2) fun first =>
        (ih hrest).map _

theorem fails_orderItem (hv : Covers Other v) : FailsBy Other (orderItem t v) (Supply.ofRaw v) := by
  cases v with
  | str name => exact (FailsBy.column hv).map _
  | dict entries => exact fails_orderEntries hv
  | raw raw parameters => exact (FailsBy.splice hv).map _
  | _ => exact .throw_showing hv rfl

theorem fails_orderItems {items : List Value} (h : Covers Other (.list items)) :
    FailsBy Other (orderItems t items) (items.flatMap Supply.ofRaw) := by
  induction items with
  | nil => exact .pure _
  | cons v rest ih =>
      obtain ⟨hv, hrest⟩ := h.cons
      rw [orderItems_cons, List.flatMap_cons]
      exact (fails_orderItem hv).bind (makes_orderItem v) fun first => (ih hrest).map _

theorem fails_order (hv : Covers Other v) : FailsBy Other (order t v) (orderSupplies v) := by
  cases v with
  | raw raw parameters => exact .splice hv
  | str name => exact .column hv
  | dict entries => exact (fails_orderEntries hv).map _
  | list items => exact (fails_orderItems hv).map _
  | bytes octets =>
      have hnone : (octets.map fun o => Value.int o.toNat).flatMap Supply.ofRaw = [] := by
        simp [Supply.ofRaw]
      have hitems : FailsBy Other (orderItems t (octets.map fun o => Value.int o.toNat))
          ((octets.map fun o => Value.int o.toNat).flatMap Supply.ofRaw) :=
        fails_orderItems (covers_octets octets)
      rw [hnone] at hitems
      exact hitems.map _
  | _ => exact .throw rfl

theorem fails_limit (hv : Covers Other v) : FailsBy Other (limit v) [] := by
  unfold limit
  dsimp only
  split
  · split
    · exact (FailsBy.requireText hv).map _
    · exact .throw rfl
  · split
    · exact (FailsBy.requireText hv).map _
    · exact .throw rfl

theorem fails_having (hv : Covers Other v) : FailsBy Other (having t v) (havingSupplies v) := by
  cases v with
  | raw raw parameters => exact .splice hv
  | _ =>
      rw [having_eq (by simp)]
      exact Conditions.fails_compile _ _ hv

theorem fails_whenTruthy {v : Value} (keyword : String) {body : Value → Compile Sql}
    {xs : List Supply} (h : FailsBy Other (body v) xs) :
    FailsBy Other (whenTruthy v keyword body) xs := by
  unfold whenTruthy
  split_ifs
  · exact h.map _
  · exact .pure _

theorem fails_compile (hv : Covers Other v) : FailsBy Other (compile t v) (supplies v) := by
  cases v with
  | null => exact .pure _
  | raw raw parameters => exact .splice hv
  | dict entries =>
      have hconditions : Covers Other (.dict (conditionEntries entries)) :=
        hv.subset (List.filter_subset_self _)
      unfold compile
      simp only [supplies, List.append_assoc]
      refine (fails_whenTruthy "WHERE " (Conditions.fails_compile _ _ hconditions)).bind
        (makes_whenTruthy "WHERE " (Conditions.makes_compile _ _ _) conditions_of_falsy)
        fun filter => ?_
      refine (fails_whenTruthy "GROUP BY " (fails_group (hv.getD groupKey))).bind
        (makes_whenTruthy "GROUP BY " (makes_group _) ofRaw_of_falsy) fun groupBy => ?_
      refine (fails_whenTruthy "HAVING " (fails_having (hv.getD havingKey))).bind
        (makes_whenTruthy "HAVING " (makes_having _) havingSupplies_of_falsy) fun having => ?_
      refine (fails_whenTruthy "ORDER BY " (fails_order (hv.getD orderKey))).before
        (makes_whenTruthy "ORDER BY " (makes_order _) orderSupplies_of_falsy) fun orderBy => ?_
      split
      · exact .pure _
      · exact (fails_limit (hv.getD limitKey)).after (makes_limit _) fun row => .pure _
  | _ => exact .throw_showing hv rfl

end Tail

end QueryLoom
