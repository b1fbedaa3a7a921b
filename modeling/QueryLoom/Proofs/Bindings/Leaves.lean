import QueryLoom.Proofs.Bindings.Conditions

/-!
Conditions without raw values bind the values of their leaves: each value once, in the order of the
keys, each under a name of its own that stands in the text once.
-/

namespace QueryLoom

open Compile

/-- Whether a value is bound under a name of the counter. -/
def Supply.isValue : Supply → Bool
  | .value _ => true
  | .entry _ _ => false

namespace Conditions

/-! Trees without raw values supply values only. -/

theorem isValue_operandSupplies {v : Value} (hv : v.rawFree = true) :
    (operandSupplies v).all Supply.isValue = true := by
  cases v with
  | raw raw parameters => cases hv
  | _ => rfl

theorem isValue_equalitySupplies {v : Value} (hv : v.rawFree = true) :
    (equalitySupplies v).all Supply.isValue = true := by
  cases v with
  | raw raw parameters => cases hv
  | list items => simp [equalitySupplies, Supply.isValue]
  | _ => rfl

theorem isValue_patternSupplies {v : Value} (hv : v.rawFree = true) :
    (patternSupplies v).all Supply.isValue = true := by
  cases v with
  | raw raw parameters => cases hv
  | _ => rfl

theorem isValue_flatMap {items : List Value} {f : Value → List Supply}
    (hf : ∀ {v : Value}, v.rawFree = true → (f v).all Supply.isValue = true)
    (hitems : ∀ v ∈ items, v.rawFree = true) : (items.flatMap f).all Supply.isValue = true := by
  rw [List.all_flatMap, List.all_eq_true]
  intro v hv
  exact hf (hitems v hv)

theorem rawFree_patternGroup {v : Value} (hv : v.rawFree = true) :
    (patternGroup v).2.rawFree = true := by
  unfold patternGroup
  split
  · rename_i name patterns
    split
    · exact Value.rawFree_dict.mp hv (.str name, patterns) (by simp)
    · exact hv
  · exact hv

theorem isValue_testSupplies {v : Value} (hv : v.rawFree = true)
    (operator : Option ConditionOperator) :
    (testSupplies v operator).all Supply.isValue = true := by
  have hpatterns : ∀ w ∈ patternItems (patternGroup v).2, w.rawFree = true := by
    have hgroup := rawFree_patternGroup hv
    cases hcase : (patternGroup v).2 with
    | list items =>
        rw [hcase] at hgroup
        exact Value.rawFree_list hgroup
    | _ => simpa [patternItems, hcase] using hgroup
  have hrange : (rangeSupplies v).all Supply.isValue = true := by
    cases v with
    | list ends => exact isValue_flatMap isValue_operandSupplies (Value.rawFree_list hv)
    | _ => rfl
  cases operator with
  | none => exact isValue_equalitySupplies hv
  | some operator =>
      cases operator with
      | not => exact isValue_equalitySupplies hv
      | like | notLike => exact isValue_flatMap isValue_patternSupplies hpatterns
      | between | notBetween => exact hrange
      | regexp | greater | greaterOrEqual | less | lessOrEqual => exact isValue_operandSupplies hv

theorem isValue_entriesSupplies :
    (∀ es : List (Value × Value), Value.rawFreeEntries es = true →
      (entriesSupplies es).all Supply.isValue = true) ∧
    (∀ v : Value, v.rawFree = true → (groupSupplies v).all Supply.isValue = true) ∧
    (∀ items : List Value, Value.rawFreeItems items = true →
      (dictsSupplies items).all Supply.isValue = true) := by
  apply entriesSupplies.mutual_induct
  · intro es ih hfree
    exact ih hfree
  · intro items hall ih hfree
    simp only [groupSupplies, if_pos hall]
    exact ih hfree
  · intro items hall _
    simp only [groupSupplies, if_neg hall]
    rfl
  · intro v hdict hlist _
    cases v with
    | dict es => exact absurd rfl (hdict es)
    | list items => exact absurd rfl (hlist items)
    | _ => rfl
  · intro _
    rfl
  · intro es rest ih ihrest hfree
    rw [Value.rawFreeItems, Bool.and_eq_true] at hfree
    rw [dictsSupplies, List.all_append, Bool.and_eq_true]
    exact ⟨ih hfree.1, ihrest hfree.2⟩
  · intro v rest hdict ihrest hfree
    rw [Value.rawFreeItems, Bool.and_eq_true] at hfree
    cases v with
    | dict es => exact absurd rfl (hdict es)
    | _ => exact ihrest hfree.2
  · intro _
    rfl
  · intro key v rest ih ihrest hfree
    rw [Value.rawFreeEntries, Bool.and_eq_true] at hfree
    rw [entriesSupplies_cons, List.all_append, Bool.and_eq_true]
    refine ⟨?_, ihrest hfree.2⟩
    unfold entrySupplies
    split
    · exact ih hfree.1
    · rfl
    · exact isValue_testSupplies hfree.1 _

theorem isValue_supplies {v : Value} (hv : v.rawFree = true) :
    (supplies v).all Supply.isValue = true := by
  cases v with
  | dict es => exact isValue_entriesSupplies.1 es hv
  | _ => rfl

end Conditions

/-! Values under names of the counter. -/

/-- Values that are supplied one after the other are bound in this order, after all that was bound
before. -/
theorem Compile.bound_supply {xs : List Supply} {s u : Parameters} (hs : s.Numbered)
    (hxs : xs.all Supply.isValue = true) (h : (supply xs).Yields s () u) :
    u.bound.map Prod.snd = s.bound.map Prod.snd ++ xs.map Supply.payload := by
  induction xs generalizing s with
  | nil =>
      rw [supply, yields_pure] at h
      simp [h.2]
  | cons x rest ih =>
      rw [List.all_cons, Bool.and_eq_true] at hxs
      cases x with
      | entry key v => cases hxs.1
      | value v =>
          rw [supply, yields_bind] at h
          obtain ⟨name, w, hadd, hrest⟩ := h
          have hbinds := binds_addValue hs hadd
          have hbound : w.bound = s.bound ++ [(name, v)] := by
            obtain ⟨hname, rfl⟩ := yields_addValue hadd
            refine Assoc.insert_of_not_mem fun hmem => ?_
            obtain ⟨i, hi, heq⟩ := hs name hmem
            have hsame := s.numbered_injective (hname.symm.trans heq)
            omega
          rw [ih (hbinds.numbered hs) hxs.2 hrest, hbound]
          simp [Supply.payload]

namespace Conditions

/-- Conditions without raw values that compile bind exactly the values of their leaves, in the order
of their keys. Their placeholders are the names of these values, in the same order and each once,
and where the quotes of the text can be told they are all that is found in it. -/
theorem compile_binds_leaves {p : Place} {connective : Connective} {v : Value} {next : Nat}
    {sql : Sql} {t : Parameters} (hv : v.rawFree = true)
    (h : (compile p connective v).Yields (Parameters.start next) sql t) :
    t.bound.map Prod.snd = (supplies v).map Supply.payload ∧ sql.params = t.names ∧
      t.names.Nodup ∧ ∀ backslash, p.target.PlainPrefix backslash →
        Binding.names backslash sql.text = t.names := by
  have hnumbered := Parameters.numbered_start next
  have hwritten : ∀ backslash, p.target.PlainPrefix backslash →
      Written backslash (Parameters.start next) sql t := fun backslash hp =>
    written_compile hp (namesTokens_start next) hv h
  have hplain : p.target.PlainPrefix false := fun hfalse => by cases hfalse
  have hbinds := (hwritten false hplain).advances.binds hnumbered
  have hparams : sql.params = t.names := hbinds.bound.symm
  refine ⟨?_, hparams, ?_, ?_⟩
  · exact bound_supply hnumbered (isValue_supplies hv) ((makes_compile p connective v).yields h)
  · rw [← hparams]
    exact hbinds.nodup
  · intro backslash hp
    rw [← hparams]
    exact (hwritten backslash hp).aligned.names

/-- A tree in which every kind of leaf stands. -/
def leafyTree : Value :=
  .dict [(.str "a", .bool true), (.str "b[!]", .list [.null, .int 3]),
    (.str "OR # any", .list [.dict [(.str "c[~]", .list [.str "x", .str "_"])],
      .dict [(.str "d", .null), (.str "e[<>]", .list [.int 1, .null])]]),
    (.str "AND", .list [.str "t.f[>]u.g"]), (.str "h[>]", .bool false)]

theorem compile_binds_leaves_of_tree :
    ∃ sql t, (compile ⟨⟨.mysql, "app_"⟩, .filter⟩ .and leafyTree).Yields (.start 9) sql t ∧
      t.bound.map Prod.snd = [.str "1", .null, .int 3, .str "%x%", .str "_", .int 1, .null,
        .bool false] ∧
      Binding.names true sql.text = t.names := by
  generalize hp : (⟨⟨.mysql, "app_"⟩, .filter⟩ : Place) = p
  have hok : (Statement.run (compile p .and leafyTree) 9).1.isOk = true := by
    subst hp
    decide +kernel
  rcases hrun : Statement.run (compile p .and leafyTree) 9 with ⟨_ | sql, last⟩
  · rw [hrun] at hok
    cases hok
  · obtain ⟨t, hyields, _⟩ := Statement.yields_of_run hrun
    obtain ⟨hvalues, _, _, hnames⟩ := compile_binds_leaves (by decide) hyields
    refine ⟨sql, t, hyields, hvalues, hnames true fun _ => ?_⟩
    subst hp
    decide

end Conditions

end QueryLoom
