import QueryLoom.Proofs.Grammar.Conditions
import QueryLoom.Proofs.Prefixes.Clauses

/-!
Conditions that a prefix was written into. Predicates on columns repeat, without a prefix, what they
say with it; predicates on calls of functions do if the call is written as it was, since a call is
copied and never looked into.
-/

namespace QueryLoom

open Compile Prefixed

/-- A key with the prefix before the table of its column; the call of a function stays. -/
def ConditionKey.marked (pre : List Char) (parsed : ConditionKey) : ConditionKey :=
  if parsed.isFunction then parsed
  else { parsed with column := String.ofList (path pre parsed.column.toList) }

namespace Conditions

variable {p : Place}

/-- The same place without a prefix. -/
def Place.plain (p : Place) : Place := ⟨p.target.plain, p.clause⟩

/-! Tests: the key matters for faults only, and the prefix not at all. -/

section Tests

variable {v : Value} (key other : Value) (column : Sql)

theorem repeats_checkScalar (v : Value) : Repeats (p.plain.checkScalar other v) (p.checkScalar key v) := by
  cases v with
  | dict es => exact .throw _ _
  | list items => exact .throw _ _
  | raw sql parameters => exact .throw _ _
  | _ => exact .refl _

theorem repeats_checked (v w : Value) :
    Repeats (do p.plain.checkScalar other v; bindValue w) (do p.checkScalar key v; bindValue w) :=
  (repeats_checkScalar key other v).bind fun _ => .refl _

theorem repeats_operand (hv : v.rawFree = true) :
    Repeats (p.plain.operand other v) (p.operand key v) := by
  cases v with
  | raw sql parameters => cases hv
  | _ => exact repeats_checked key other _ _

theorem repeats_boundItems (items : List Value) :
    Repeats (p.plain.boundItems other items) (p.boundItems key items) := by
  induction items with
  | nil => exact .refl _
  | cons v rest ih =>
      exact (repeats_checkScalar key other v).bind fun _ => (Repeats.refl _).cons ih id

theorem repeats_equality (negated : Bool) (hv : v.rawFree = true) :
    Repeats (p.plain.equality other column negated v) (p.equality key column negated v) := by
  cases v with
  | null => exact .refl _
  | list items =>
      cases items with
      | nil => exact .throw _ _
      | cons v rest => exact (repeats_boundItems key other (v :: rest)).map _
  | raw sql parameters => cases hv
  | _ => exact (repeats_checkScalar key other _).bind fun _ => .refl _

theorem repeats_comparison (operator : ConditionOperator) (hv : v.rawFree = true) :
    Repeats (p.plain.comparison other column operator v) (p.comparison key column operator v) := by
  cases v with
  | null => exact .throw _ _
  | list items => exact .throw _ _
  | _ => exact (repeats_operand key other hv).map _

theorem repeats_regexp (hv : v.rawFree = true) :
    Repeats (p.plain.regexp other column v) (p.regexp key column v) := by
  cases v with
  | null => exact .throw _ _
  | list items => exact .throw _ _
  | _ => exact (repeats_operand key other hv).map _

theorem repeats_between (negated : Bool) (hv : v.rawFree = true) :
    Repeats (p.plain.between other column negated v) (p.between key column negated v) := by
  unfold Place.between
  split
  · rename_i low high
    have hends := Value.rawFree_list hv
    refine (repeats_operand key other (hends low (by simp))).bind fun lowSql => ?_
    exact (repeats_operand key other (hends high (by simp))).map _
  · exact .throw _ _

theorem repeats_likeItems (operator : String) {items : List Value}
    (hitems : ∀ v ∈ items, v.rawFree = true) :
    Repeats (p.plain.likeItems other column operator items) (p.likeItems key column operator items) := by
  induction items with
  | nil => exact .refl _
  | cons v rest ih =>
      obtain ⟨hv, hrest⟩ := List.forall_mem_cons.mp hitems
      cases v with
      | raw sql parameters => cases hv
      | null => exact .throw _ _
      | dict es => exact .throw _ _
      | list items => exact .throw _ _
      | _ => exact (Repeats.refl _).bind fun _ => (Repeats.refl _).cons (ih hrest) _

theorem repeats_likeGroup (v : Value) :
    Repeats (p.plain.likeGroup other v) (p.likeGroup key v) := by
  unfold Place.likeGroup
  split
  · split
    · exact .refl _
    · exact .throw _ _
  · exact .throw _ _
  · exact .refl _

theorem repeats_like (negated : Bool) (hv : v.rawFree = true) :
    Repeats (p.plain.like other column negated v) (p.like key column negated v) := by
  rw [Place.like_eq, Place.like_eq]
  refine (repeats_likeGroup key other v).bind_of_yields fun group hgroup => ?_
  obtain ⟨s, u, hgroup⟩ := hgroup
  split_ifs
  · exact .throw _ _
  · exact (repeats_likeItems key other column _ (rawFree_patterns hv hgroup)).map _

theorem repeats_test (hv : v.rawFree = true) (operator : Option ConditionOperator) :
    Repeats (p.plain.test other column v operator) (p.test key column v operator) := by
  cases operator with
  | none => exact repeats_equality key other column false hv
  | some operator =>
      cases operator with
      | not => exact repeats_equality key other column true hv
      | like => exact repeats_like key other column false hv
      | notLike => exact repeats_like key other column true hv
      | between => exact repeats_between key other column false hv
      | notBetween => exact repeats_between key other column true hv
      | regexp => exact repeats_regexp key other column hv
      | greater | greaterOrEqual | less | lessOrEqual =>
          exact repeats_comparison key other column _ hv

end Tests

/-! Keys. -/

variable {pre : List Char} {call : List Char → List Char}

/-- The calls in a key that are written as they were. -/
def KeepsCalls (call : List Char → List Char) (calls : List String) : Prop :=
  ∀ c ∈ calls, call c.toList = c.toList

/-- A key is read with the prefix before its table, and stays the key of a predicate. -/
theorem conditionKey_written (hpre : IsNamePart pre) {text : String} {parsed : ConditionKey}
    (h : Key.conditionKey text = .ok parsed) (hcalls : KeepsCalls call (keyCalls (.str text))) :
    Key.conditionKey (String.ofList (conditionKey pre call text.toList)) = .ok (parsed.marked pre) ∧
      Key.logicalKey? (String.ofList (conditionKey pre call text.toList)) = Key.logicalKey? text := by
  cases hfunction : parsed.isFunction with
  | true =>
      have hcall : call parsed.column.toList = parsed.column.toList :=
        hcalls parsed.column (by simp [keyCalls, h, hfunction])
      rw [conditionKey_call h hfunction hcall, String.ofList_toList, h, ConditionKey.marked,
        if_pos hfunction]
      exact ⟨rfl, rfl⟩
  | false =>
      obtain ⟨hwritten, hparsed⟩ : conditionKey pre call text.toList = path pre text.toList ∧ _ :=
        conditionKey_path hpre h hfunction
      rw [hwritten, hparsed, ConditionKey.marked, hfunction, if_neg Bool.false_ne_true]
      exact ⟨rfl, logicalKey?_path hpre text⟩

/-! Predicates. -/

theorem repeats_left (hp : IsNamePart p.target.mark) (parsed : ConditionKey) :
    Repeats (p.plain.left (parsed.marked p.target.mark)) (p.left parsed) := by
  unfold Place.left ConditionKey.marked
  cases hfunction : parsed.isFunction with
  | true =>
      simp only [hfunction, if_true]
      exact .refl _
  | false =>
      simp only [Bool.false_eq_true, if_false]
      exact Target.repeats_column hp (.str parsed.column)

theorem repeats_predicate (hp : IsNamePart p.target.mark) {text : String} {v : Value}
    (hv : v.rawFree = true) (hcalls : KeepsCalls call (keyCalls (.str text))) :
    Repeats
      (p.plain.predicate (.str (String.ofList (conditionKey p.target.mark call text.toList))) v)
      (p.predicate (.str text) v) := by
  rw [Place.predicate_str, Place.predicate_str]
  refine RepeatsAs.then (.lift fun h => (conditionKey_written hp h hcalls).1) fun parsed => ?_
  refine (repeats_left hp parsed).bind fun column => ?_
  have hoperator : (parsed.marked p.target.mark).operator = parsed.operator := by
    unfold ConditionKey.marked
    split_ifs <;> rfl
  rw [hoperator]
  exact repeats_test _ _ column hv parsed.operator

theorem repeats_columns (hp : IsNamePart p.target.mark) (v : Value) :
    Repeats (p.plain.columns (conditions p.target.mark call v)) (p.columns v) := by
  cases v with
  | str text =>
      cases h : Key.columnComparison? text with
      | none =>
          simp only [Place.columns, h]
          exact .throw _ _
      | some found =>
          simp only [Place.columns, conditions, onText, h, columnComparison_comparison hp h]
          refine (Target.repeats_column hp (.str found.left)).bind fun left => ?_
          exact (Target.repeats_column hp (.str found.right)).map _
  | _ => exact .throw _ _

theorem repeats_columnsList (hp : IsNamePart p.target.mark) (items : List Value) :
    Repeats (p.plain.columnsList (conditionItems p.target.mark call items))
      (p.columnsList items) := by
  induction items with
  | nil => exact .refl _
  | cons v rest ih => exact (repeats_columns hp v).cons ih id

/-! Trees. -/

theorem repeats_joined (subject other : Value) (connective : Connective) (members : List Sql) :
    Repeats (p.plain.joined other connective members) (p.joined subject connective members) := by
  unfold Place.joined
  split_ifs
  · exact .throw _ _
  · exact .refl _

/-- The members of a group, joined and put between parentheses. -/
theorem repeats_parenthesized {m n : Compile (List Sql)} (h : Repeats n m) (subject other : Value)
    (connective : Connective) :
    Repeats
      (do
        let members ← n
        return parenthesized (← p.plain.joined other connective members))
      (do
        let members ← m
        return parenthesized (← p.joined subject connective members)) :=
  h.bind fun _ => (repeats_joined _ _ _ _).map _

theorem conditionItems_eq (items : List Value) :
    conditionItems pre call items = items.map (conditions pre call) := by
  induction items with
  | nil => rfl
  | cons v rest ih => rw [conditionItems, ih, List.map_cons]

theorem isDict_conditions (v : Value) : (conditions pre call v).isDict = v.isDict := by
  cases v <;> rfl

theorem all_conditionItems (pre : List Char) (call : List Char → List Char) (items : List Value) :
    (!(conditionItems pre call items).isEmpty && (conditionItems pre call items).all Value.isDict) =
      (!items.isEmpty && items.all Value.isDict) := by
  rw [conditionItems_eq, List.isEmpty_map, List.all_map]
  congr 2
  funext v
  exact isDict_conditions v

/-- A key that is no key of a condition is refused; any other key stays the key of a predicate. -/
theorem repeats_entry_predicate (hp : IsNamePart p.target.mark) (connective : Connective)
    {key v : Value} (hv : v.rawFree = true) (hcalls : KeepsCalls call (keyCalls key))
    (hrole : keyRole key = .predicate) :
    Repeats (entry p.plain connective (onText (conditionKey p.target.mark call) key) v)
      (entry p connective key v) := by
  cases key with
  | str text =>
      simp only [entry, hrole]
      cases h : Key.conditionKey text with
      | error fault =>
          rw [Place.predicate_str, h]
          exact .throw _ _
      | ok parsed =>
          have hrole' : keyRole (onText (conditionKey p.target.mark call) (.str text)) =
              .predicate := by
            simp only [keyRole, onText, (conditionKey_written hp h hcalls).2]
            exact hrole
          simp only [hrole']
          exact repeats_predicate hp hv hcalls
  | int i => cases hrole
  | bool b => cases hrole
  | _ => exact .throw _ _

/-- An entry of any role, followed by the others. -/
theorem repeats_entries_cons (hp : IsNamePart p.target.mark) (connective : Connective)
    {key v : Value} {rest : Dict} (hv : v.rawFree = true)
    (hcalls : KeepsCalls call (keyCalls key))
    (hlogical : ∀ inner, keyRole key = .logical inner →
      Repeats (logical p.plain connective key inner (conditions p.target.mark call v))
        (logical p connective key inner v))
    (hrest : Repeats (entries p.plain connective (conditionEntries p.target.mark call rest))
      (entries p connective rest)) :
    Repeats
      (entries p.plain connective (conditionEntries p.target.mark call ((key, v) :: rest)))
      (entries p connective ((key, v) :: rest)) := by
  rw [entries_cons]
  cases hrole : keyRole key with
  | logical inner =>
      simp only [conditionEntries, hrole, entries_cons, entry]
      exact (hlogical inner hrole).cons hrest id
  | position =>
      simp only [conditionEntries, hrole, entries_cons, entry]
      exact (repeats_columns hp v).cons hrest id
  | predicate =>
      simp only [conditionEntries, hrole, entries_cons]
      exact (repeats_entry_predicate hp connective hv hcalls hrole).cons hrest id

/-- The entries of a dictionary, the group under a logical key and the groups of a list repeat what
they say with the prefix. -/
theorem repeats_entries_logical_groups (hp : IsNamePart p.target.mark) :
    (∀ (connective : Connective) (es : List (Value × Value)), Value.rawFreeEntries es = true →
      KeepsCalls call (callsOfEntries es) →
      Repeats (entries p.plain connective (conditionEntries p.target.mark call es))
        (entries p connective es)) ∧
    (∀ (outer : Connective) (key : Value) (inner : Connective) (v : Value), v.rawFree = true →
      KeepsCalls call (calls v) →
      Repeats (logical p.plain outer key inner (conditions p.target.mark call v))
        (logical p outer key inner v)) ∧
    (∀ (inner : Connective) (items : List Value), Value.rawFreeItems items = true →
      KeepsCalls call (callsOfItems items) →
      Repeats (groups p.plain inner (conditionItems p.target.mark call items))
        (groups p inner items)) := by
  apply entries.mutual_induct p
  · intro outer key inner es ih hfree hcalls
    exact repeats_parenthesized (ih hfree hcalls) _ _ _
  · intro outer key inner items hitems ih hfree hcalls
    have hwritten := (all_conditionItems p.target.mark call items).trans hitems
    simp only [logical, conditions, if_pos hitems, if_pos hwritten]
    exact (ih hfree hcalls).map _
  · intro outer key inner items hitems _ _
    have hwritten := (all_conditionItems p.target.mark call items).trans_ne hitems
    simp only [logical, conditions, if_neg hitems, if_neg hwritten]
    exact repeats_parenthesized (repeats_columnsList hp items) _ _ _
  · intro v outer key inner hdict hlist _ _
    cases v with
    | dict es => exact absurd rfl (hdict es)
    | list items => exact absurd rfl (hlist items)
    | _ => exact .throw _ _
  · intro inner _ _
    exact .refl _
  · intro inner es rest ih ihrest hfree hcalls
    rw [Value.rawFreeItems, Bool.and_eq_true] at hfree
    rw [KeepsCalls, callsOfItems, List.forall_mem_append] at hcalls
    refine (ih hfree.1 hcalls.1).bind fun members => ?_
    exact (repeats_joined _ _ _ _).cons (ihrest hfree.2 hcalls.2) _
  · intro inner v rest hdict ihrest hfree hcalls
    rw [Value.rawFreeItems, Bool.and_eq_true] at hfree
    rw [KeepsCalls, callsOfItems, List.forall_mem_append] at hcalls
    have hrest := ihrest hfree.2 hcalls.2
    cases v with
    | dict es => exact absurd rfl (hdict es)
    | _ => exact hrest
  · intro connective _ _
    exact .refl _
  · intro connective key v rest inner hrole ihrest ih hfree hcalls
    rw [Value.rawFreeEntries, Bool.and_eq_true] at hfree
    rw [KeepsCalls, callsOfEntries, List.forall_mem_append, List.forall_mem_append] at hcalls
    refine repeats_entries_cons hp connective hfree.1 hcalls.1 (fun other hother => ?_)
      (ihrest hfree.2 hcalls.2.2)
    cases hrole.symm.trans hother
    exact ih hfree.1 hcalls.2.1
  · intro connective key v rest hrole ihrest hfree hcalls
    rw [Value.rawFreeEntries, Bool.and_eq_true] at hfree
    rw [KeepsCalls, callsOfEntries, List.forall_mem_append, List.forall_mem_append] at hcalls
    refine repeats_entries_cons hp connective hfree.1 hcalls.1 (fun other hother => ?_)
      (ihrest hfree.2 hcalls.2.2)
    cases hrole.symm.trans hother
  · intro connective key v rest hrole ihrest hfree hcalls
    rw [Value.rawFreeEntries, Bool.and_eq_true] at hfree
    rw [KeepsCalls, callsOfEntries, List.forall_mem_append, List.forall_mem_append] at hcalls
    refine repeats_entries_cons hp connective hfree.1 hcalls.1 (fun other hother => ?_)
      (ihrest hfree.2 hcalls.2.2)
    cases hrole.symm.trans hother

theorem repeats_compile (hp : IsNamePart p.target.mark) {v : Value} (hv : v.rawFree = true)
    (hcalls : KeepsCalls call (calls v)) (connective : Connective) :
    Repeats (compile p.plain connective (conditions p.target.mark call v))
      (compile p connective v) := by
  cases v with
  | dict es =>
      exact ((repeats_entries_logical_groups hp).1 connective es hv hcalls).bind fun members =>
        repeats_joined _ _ _ _
  | list items => exact (repeats_columnsList hp items).bind fun members => repeats_joined _ _ _ _
  | _ => exact .throw _ _

end Conditions

end QueryLoom
