import QueryLoom.Proofs.Conditions.Tree
import QueryLoom.Proofs.Independence.Agreement

/-!
The text of conditions does not depend on the values that they bind. Two trees of conditions of one
shape differ in scalars only: they have the same keys, null in the same places, lists of the same
lengths and the same comparisons of columns. Compiled from alike states, such trees give the same SQL.
-/

namespace QueryLoom

namespace Value

mutual

/-- Values of one shape, which may differ in their leaves. Raw values are the same. -/
inductive Alike : Value → Value → Prop
  | null : Alike .null .null
  | leaf {v w : Value} (hv : v.isLeaf = true) (hw : w.isLeaf = true) : Alike v w
  | raw (sql : String) (parameters : Dict) : Alike (.raw sql parameters) (.raw sql parameters)
  | list {items others : List Value} (h : AlikeItems items others) :
      Alike (.list items) (.list others)
  | dict {entries others : Dict} (h : AlikeEntries entries others) :
      Alike (.dict entries) (.dict others)

/-- Lists of one length with alike items. -/
inductive AlikeItems : List Value → List Value → Prop
  | nil : AlikeItems [] []
  | cons {v w : Value} {rest others : List Value} (hv : Alike v w) (h : AlikeItems rest others) :
      AlikeItems (v :: rest) (w :: others)

/-- Entries under the same keys in the same order. -/
inductive AlikeEntries : Dict → Dict → Prop
  | nil : AlikeEntries [] []
  | cons (key : Value) {v w : Value} {rest others : Dict} (hv : Alike v w)
      (h : AlikeEntries rest others) : AlikeEntries ((key, v) :: rest) ((key, w) :: others)

end

end Value

namespace Conditions

open Value (Alike AlikeItems AlikeEntries isLeaf)

mutual

/-- Conditions of one shape: dictionaries with alike entries, lists with alike members, or the same
value. -/
inductive AlikeConditions : Value → Value → Prop
  | dict {entries others : Dict} (h : AlikeConditionEntries entries others) :
      AlikeConditions (.dict entries) (.dict others)
  | list {items others : List Value} (h : AlikeMembers items others) :
      AlikeConditions (.list items) (.list others)
  | same {v : Value} (hdict : v.isDict = false) (hlist : ∀ items, v ≠ .list items) :
      AlikeConditions v v

/-- What may stand under a key: groups of one shape, the same comparison of columns, or alike values
for a predicate. -/
inductive AlikeEntry : Value → Value → Value → Prop
  | logical {key : Value} {connective : Connective} {v w : Value}
      (hrole : keyRole key = .logical connective) (hv : AlikeConditions v w) : AlikeEntry key v w
  | position {key v : Value} (hrole : keyRole key = .position) : AlikeEntry key v v
  | predicate {key v w : Value} (hrole : keyRole key = .predicate) (hv : Alike v w) :
      AlikeEntry key v w

/-- Entries of one shape under the same keys in the same order. -/
inductive AlikeConditionEntries : Dict → Dict → Prop
  | nil : AlikeConditionEntries [] []
  | cons {key v w : Value} {rest others : Dict} (hv : AlikeEntry key v w)
      (h : AlikeConditionEntries rest others) :
      AlikeConditionEntries ((key, v) :: rest) ((key, w) :: others)

/-- Members of a list under a logical key: dictionaries of one shape, or the same comparisons. -/
inductive AlikeMembers : List Value → List Value → Prop
  | nil : AlikeMembers [] []
  | group {entries others : Dict} {rest more : List Value}
      (hentries : AlikeConditionEntries entries others) (h : AlikeMembers rest more) :
      AlikeMembers (.dict entries :: rest) (.dict others :: more)
  | columns {v : Value} {rest others : List Value} (hdict : v.isDict = false)
      (h : AlikeMembers rest others) : AlikeMembers (v :: rest) (v :: others)

end

open Compile

/-! Predicates. -/

variable {p : Place}

theorem agree_checkScalar (key v w : Value) : Agree Eq (p.checkScalar key v) (p.checkScalar key w) := by
  intro s r hs _ t _ u hm hn
  rw [Place.yields_checkScalar] at hm hn
  obtain ⟨_, rfl⟩ := hm
  obtain ⟨_, rfl⟩ := hn
  exact ⟨rfl, hs⟩

/-- Two scalars, one bound on either side, leave the same placeholder. -/
theorem agree_checked (key v w x y : Value) :
    Agree Eq (do p.checkScalar key v; Compile.bindValue x)
      (do p.checkScalar key w; Compile.bindValue y) :=
  (agree_checkScalar key v w).bind_eq fun _ => agree_bindValue x y

theorem agree_operand {key v w : Value} (h : Alike v w) :
    Agree Eq (p.operand key v) (p.operand key w) := by
  cases h with
  | null => exact agree_checked key _ _ _ _
  | leaf hv hw =>
      rw [Place.operand_leaf hv, Place.operand_leaf hw]
      exact agree_checked key _ _ _ _
  | raw sql parameters => exact steady_splice _ _ _
  | list h => exact agree_checked key _ _ _ _
  | dict h => exact agree_checked key _ _ _ _

theorem agree_boundItems {key : Value} {items others : List Value} (h : AlikeItems items others) :
    Agree Eq (p.boundItems key items) (p.boundItems key others) := by
  induction items generalizing others with
  | nil =>
      cases h
      exact steady_pure []
  | cons v rest ih =>
      obtain _ | ⟨hv, hrest⟩ := h
      refine (agree_checkScalar key _ _).bind_eq fun _ => ?_
      exact agree_cons (agree_bindValue _ _) (ih hrest) id

theorem agree_equality {key v w : Value} (h : Alike v w) (column : Sql) (negated : Bool) :
    Agree Eq (p.equality key column negated v) (p.equality key column negated w) := by
  cases h with
  | null => exact steady_pure _
  | leaf hv hw =>
      rw [Place.equality_leaf hv, Place.equality_leaf hw]
      refine (agree_checkScalar key _ _).bind_eq fun _ => ?_
      exact agree_map (agree_bindValue _ _) _
  | raw sql parameters => exact agree_map (steady_splice _ _ _) _
  | list h =>
      cases h with
      | nil => exact .throw_left
      | cons hv hrest =>
          exact agree_map (agree_boundItems (.cons hv hrest)) fun bound =>
            column ++ .text (if negated then " NOT IN (" else " IN (") ::
              Sql.join ", " bound ++ [.text ")"]
  | dict h =>
      refine (agree_checkScalar key _ _).bind_eq fun _ => ?_
      exact agree_map (agree_bindValue _ _) _

theorem agree_comparison {key v w : Value} (h : Alike v w) (column : Sql)
    (operator : ConditionOperator) :
    Agree Eq (p.comparison key column operator v) (p.comparison key column operator w) := by
  cases h with
  | null => exact .throw_left
  | leaf hv hw =>
      rw [Place.comparison_leaf hv, Place.comparison_leaf hw]
      exact agree_map (agree_operand (.leaf hv hw)) _
  | raw sql parameters => exact agree_map (agree_operand (.raw sql parameters)) _
  | list h => exact .throw_left
  | dict h => exact agree_map (agree_operand (.dict h)) _

theorem agree_regexp {key v w : Value} (h : Alike v w) (column : Sql) :
    Agree Eq (p.regexp key column v) (p.regexp key column w) := by
  cases h with
  | null => exact .throw_left
  | leaf hv hw =>
      rw [Place.regexp_leaf hv, Place.regexp_leaf hw]
      exact agree_map (agree_operand (.leaf hv hw)) _
  | raw sql parameters => exact agree_map (agree_operand (.raw sql parameters)) _
  | list h => exact .throw_left
  | dict h => exact agree_map (agree_operand (.dict h)) _

theorem agree_between {key v w : Value} (h : Alike v w) (column : Sql) (negated : Bool) :
    Agree Eq (p.between key column negated v) (p.between key column negated w) := by
  unfold Place.between
  split
  · rename_i low high
    cases h with
    | leaf hv _ => cases hv
    | list h =>
        obtain _ | ⟨hlow, h⟩ := h
        obtain _ | ⟨hhigh, h⟩ := h
        cases h
        refine (agree_operand hlow).bind_eq fun lowSql => ?_
        exact agree_map (agree_operand hhigh) _
  · exact .throw_left

theorem agree_likeItems {key : Value} {items others : List Value} (h : AlikeItems items others)
    (column : Sql) (operator : String) :
    Agree Eq (p.likeItems key column operator items) (p.likeItems key column operator others) := by
  induction items generalizing others with
  | nil =>
      cases h
      exact steady_pure []
  | cons v rest ih =>
      obtain _ | ⟨hv, hrest⟩ := h
      cases hv with
      | null => exact .throw_left
      | leaf hv hw =>
          rw [Place.likeItems_leaf hv, Place.likeItems_leaf hw]
          -- the patterns differ, but only their placeholders go on
          refine Agree.bind (R := fun _ _ => True) (.lift fun _ _ _ _ => trivial) fun _ _ _ => ?_
          exact agree_cons (agree_bindValue _ _) (ih hrest) _
      | raw sql parameters => exact agree_cons (steady_splice _ _ _) (ih hrest) _
      | list h => exact .throw_left
      | dict h => exact .throw_left

/-- The patterns of alike values are alike, and their connective is the same. -/
theorem agree_likeGroup {key v w : Value} (h : Alike v w) :
    Agree (fun group other => group.1 = other.1 ∧ Alike group.2 other.2)
      (p.likeGroup key v) (p.likeGroup key w) := by
  cases h with
  | null => exact .pure ⟨rfl, .null⟩
  | leaf hv hw =>
      rw [Place.likeGroup_leaf hv, Place.likeGroup_leaf hw]
      exact .pure ⟨rfl, .leaf hv hw⟩
  | raw sql parameters => exact .pure ⟨rfl, .raw sql parameters⟩
  | list h => exact .pure ⟨rfl, .list h⟩
  | dict h =>
      obtain _ | ⟨name, hv, h⟩ := h
      · exact .throw_left
      · obtain _ | ⟨_, _, _⟩ := h
        · cases name with
          | str name =>
              simp only [Place.likeGroup]
              cases Connective.ofText? name with
              | none => exact .throw_left
              | some connective => exact .pure ⟨rfl, hv⟩
          | _ => exact .throw_left
        · cases name <;> exact .throw_left

theorem alikeItems_patternItems {v w : Value} (h : Alike v w) :
    AlikeItems (patternItems v) (patternItems w) := by
  cases h with
  | null => exact .cons .null .nil
  | leaf hv hw =>
      rw [patternItems_leaf hv, patternItems_leaf hw]
      exact .cons (.leaf hv hw) .nil
  | raw sql parameters => exact .cons (.raw sql parameters) .nil
  | list h => exact h
  | dict h => exact .cons (.dict h) .nil

theorem agree_like {key v w : Value} (h : Alike v w) (column : Sql) (negated : Bool) :
    Agree Eq (p.like key column negated v) (p.like key column negated w) := by
  rw [Place.like_eq, Place.like_eq]
  refine (agree_likeGroup h).bind fun group other hgroup => ?_
  obtain ⟨connective, patterns⟩ := group
  obtain ⟨_, others⟩ := other
  obtain ⟨rfl, hpatterns⟩ := hgroup
  have hitems := alikeItems_patternItems hpatterns
  dsimp only
  generalize patternItems patterns = items at hitems ⊢
  generalize patternItems others = others at hitems ⊢
  cases hitems with
  | nil => exact .throw_left
  | cons hv hrest =>
      exact agree_map (agree_likeItems (.cons hv hrest) _ _) _

theorem steady_left (parsed : ConditionKey) : Steady (p.left parsed) := by
  unfold Place.left
  split_ifs with hfunction
  · exact steady_pure _
  · exact steady_lift _

theorem agree_test {key v w : Value} (h : Alike v w) (column : Sql)
    (operator : Option ConditionOperator) :
    Agree Eq (p.test key column v operator) (p.test key column w operator) := by
  cases operator with
  | none => exact agree_equality h column false
  | some operator =>
      cases operator with
      | not => exact agree_equality h column true
      | like => exact agree_like h column false
      | notLike => exact agree_like h column true
      | between => exact agree_between h column false
      | notBetween => exact agree_between h column true
      | regexp => exact agree_regexp h column
      | greater | greaterOrEqual | less | lessOrEqual => exact agree_comparison h column _

theorem agree_predicate {v w : Value} (key : Value) (h : Alike v w) :
    Agree Eq (p.predicate key v) (p.predicate key w) := by
  cases key with
  | str text =>
      rw [Place.predicate_str, Place.predicate_str]
      refine (steady_lift _).bind_eq fun parsed => ?_
      refine (steady_left _).bind_eq fun column => ?_
      exact agree_test h _ _
  | _ => exact .throw_left

theorem steady_columns (v : Value) : Steady (p.columns v) := by
  unfold Place.columns
  dsimp only
  split
  · exact .throw_left
  · refine steady_bind (steady_lift _) fun left => ?_
    exact steady_bind (steady_lift _) fun right => steady_pure _

/-! Trees. -/

theorem agree_joined (subject other : Value) (connective : Connective) (members : List Sql) :
    Agree Eq (p.joined subject connective members) (p.joined other connective members) := by
  unfold Place.joined
  split_ifs with hempty
  · exact .throw_left
  · exact steady_pure _

theorem agree_entries_cons {key v w : Value} {connective : Connective} {rest others : Dict}
    (hfirst : Agree Eq (entry p connective key v) (entry p connective key w))
    (hrest : Agree Eq (entries p connective rest) (entries p connective others)) :
    Agree Eq (entries p connective ((key, v) :: rest)) (entries p connective ((key, w) :: others)) := by
  rw [entries_cons, entries_cons]
  exact agree_cons hfirst hrest id

/-- The members of a group, joined and put between parentheses. -/
theorem agree_parenthesized {m n : Compile (List Sql)} (h : Agree Eq m n) (subject other : Value)
    (connective : Connective) :
    Agree Eq
      (do
        let members ← m
        return parenthesized (← p.joined subject connective members))
      (do
        let members ← n
        return parenthesized (← p.joined other connective members)) :=
  h.bind_eq fun _ => agree_map (agree_joined _ _ _ _) _

theorem AlikeMembers.isEmpty_all {items others : List Value} (h : AlikeMembers items others) :
    (!items.isEmpty && items.all Value.isDict) = (!others.isEmpty && others.all Value.isDict) := by
  have hall : ∀ {items others : List Value}, AlikeMembers items others →
      items.all Value.isDict = others.all Value.isDict := by
    intro items others h
    induction items generalizing others with
    | nil =>
        cases h
        rfl
    | cons v rest ih =>
        cases h with
        | group _ h => simp [Value.isDict, ih h]
        | columns hdict h => simp [hdict]
  rw [hall h]
  cases h <;> rfl

/-- Members that are not all dictionaries are read as comparisons; one that is a dictionary is
refused. -/
theorem agree_columnsList {items others : List Value} (h : AlikeMembers items others) :
    Agree Eq (p.columnsList items) (p.columnsList others) := by
  induction items generalizing others with
  | nil =>
      cases h
      exact steady_pure []
  | cons v rest ih =>
      cases h with
      | group _ _ => exact .throw_left
      | columns _ h => exact agree_cons (steady_columns v) (ih h) id

/-- The entries of a dictionary, the group under a logical key and the groups of a list give the same
SQL for conditions of one shape. -/
theorem agree_entries_logical_groups (p : Place) :
    (∀ (connective : Connective) (es : List (Value × Value)), ∀ fs, AlikeConditionEntries es fs →
      Agree Eq (entries p connective es) (entries p connective fs)) ∧
    (∀ (outer : Connective) (key : Value) (inner : Connective) (v : Value), ∀ w,
      AlikeConditions v w → Agree Eq (logical p outer key inner v) (logical p outer key inner w)) ∧
    (∀ (inner : Connective) (items : List Value), ∀ others, AlikeMembers items others →
      Agree Eq (groups p inner items) (groups p inner others)) := by
  apply entries.mutual_induct p
  · intro outer key inner es ih w h
    cases h with
    | dict h => exact agree_parenthesized (ih _ h) _ _ _
    | same hdict _ => cases hdict
  · intro outer key inner items hitems ih w h
    cases h with
    | list h =>
        have hothers := h.isEmpty_all.symm.trans hitems
        simp only [logical, if_pos hitems, if_pos hothers]
        exact agree_map (ih _ h) _
    | same _ hlist => exact absurd rfl (hlist items)
  · intro outer key inner items hitems w h
    cases h with
    | list h =>
        have hothers := h.isEmpty_all.symm.trans_ne hitems
        simp only [logical, if_neg hitems, if_neg hothers]
        exact agree_parenthesized (agree_columnsList h) _ _ _
    | same _ hlist => exact absurd rfl (hlist items)
  · intro v outer key inner hdict hlist w h s r _ a t b u hm _
    exact absurd hm (not_yields_logical hdict hlist)
  · intro inner others h
    cases h
    exact steady_pure []
  · intro inner es rest ih ihrest others h
    cases h with
    | group hentries h =>
        refine (ih _ hentries).bind_eq fun members => ?_
        exact agree_cons (agree_joined _ _ _ _) (ihrest _ h) _
    | columns hdict _ => cases hdict
  · intro inner v rest hdict ihrest others h
    cases h with
    | group _ _ => exact absurd rfl (hdict _)
    | columns _ h =>
        have hrest := ihrest _ h
        cases v with
        | dict es => exact absurd rfl (hdict es)
        | _ => exact hrest
  · intro connective fs h
    cases h
    exact steady_pure []
  · intro connective key v rest inner hrole ihrest ih fs h
    obtain _ | ⟨hv, h⟩ := h
    refine agree_entries_cons ?_ (ihrest _ h)
    simp only [entry, hrole]
    cases hv with
    | logical _ hv => exact ih _ hv
    | position hrole' => cases hrole.symm.trans hrole'
    | predicate hrole' _ => cases hrole.symm.trans hrole'
  · intro connective key v rest hrole ihrest fs h
    obtain _ | ⟨hv, h⟩ := h
    refine agree_entries_cons ?_ (ihrest _ h)
    simp only [entry, hrole]
    cases hv with
    | logical hrole' _ => cases hrole.symm.trans hrole'
    | position _ => exact steady_columns v
    | predicate hrole' _ => cases hrole.symm.trans hrole'
  · intro connective key v rest hrole ihrest fs h
    obtain _ | ⟨hv, h⟩ := h
    refine agree_entries_cons ?_ (ihrest _ h)
    simp only [entry, hrole]
    cases hv with
    | logical hrole' _ => cases hrole.symm.trans hrole'
    | position hrole' => cases hrole.symm.trans hrole'
    | predicate _ hv => exact agree_predicate key hv

/-- Conditions of one shape give the same SQL. -/
theorem agree_compile {v w : Value} (h : AlikeConditions v w) (connective : Connective) :
    Agree Eq (compile p connective v) (compile p connective w) := by
  cases h with
  | dict h =>
      refine ((agree_entries_logical_groups p).1 _ _ _ h).bind_eq fun members => ?_
      exact agree_joined _ _ _ _
  | list h =>
      refine (agree_columnsList h).bind_eq fun members => ?_
      exact agree_joined _ _ _ _
  | same hdict hlist =>
      cases v with
      | dict entries => cases hdict
      | list items => exact absurd rfl (hlist items)
      | _ => exact .throw_left

end Conditions

end QueryLoom
