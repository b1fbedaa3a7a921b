import QueryLoom.Proofs.Bindings.Supply
import QueryLoom.Proofs.Meaning.Preservation

/-!
What conditions bind. The values of a tree are bound in the order of its keys, each once: a scalar,
an item of a list, an operand and a pattern become one parameter each, a test for null and a
comparison of columns none. Raw values bring the parameters of their maps.
-/

namespace QueryLoom.Conditions

open Compile

/-! The bindings that a tree asks for. -/

/-- An operand is bound as it is. -/
def operandSupplies : Value → List Supply
  | .raw _ parameters => Supply.ofMap parameters
  | v => [.value v]

/-- A comparison with null binds nothing, one with a list each item. -/
def equalitySupplies : Value → List Supply
  | .null => []
  | .list items => items.map fun v => .value (bindScalar v)
  | .raw _ parameters => Supply.ofMap parameters
  | v => [.value (bindScalar v)]

def patternSupplies : Value → List Supply
  | .raw _ parameters => Supply.ofMap parameters
  | v => [.value (.str (patternOf v.plain))]

/-- The ends of a range, one after the other. -/
def rangeSupplies : Value → List Supply
  | .list ends => ends.flatMap operandSupplies
  | _ => []

def testSupplies (v : Value) : Option ConditionOperator → List Supply
  | none | some .not => equalitySupplies v
  | some .like | some .notLike => (patternItems (patternGroup v).2).flatMap patternSupplies
  | some .between | some .notBetween => rangeSupplies v
  | some .regexp | some .greater | some .greaterOrEqual | some .less | some .lessOrEqual =>
      operandSupplies v

mutual

def entriesSupplies : List (Value × Value) → List Supply
  | [] => []
  | (key, v) :: rest =>
      (match keyRole key with
      | .logical _ => groupSupplies v
      | .position => []
      | .predicate => testSupplies v (keyOperator key)) ++ entriesSupplies rest
termination_by structural es => es

/-- What stands under a logical key: entries, dictionaries of entries, or comparisons of columns. -/
def groupSupplies : Value → List Supply
  | .dict es => entriesSupplies es
  | .list items => if items.all Value.isDict then dictsSupplies items else []
  | _ => []
termination_by structural v => v

def dictsSupplies : List Value → List Supply
  | [] => []
  | .dict es :: rest => entriesSupplies es ++ dictsSupplies rest
  | _ :: rest => dictsSupplies rest
termination_by structural vs => vs

end

/-- The bindings that conditions ask for, in the order of their keys. -/
def supplies : Value → List Supply
  | .dict es => entriesSupplies es
  | _ => []

def entrySupplies (key v : Value) : List Supply :=
  match keyRole key with
  | .logical _ => groupSupplies v
  | .position => []
  | .predicate => testSupplies v (keyOperator key)

theorem entriesSupplies_cons (key v : Value) (rest : List (Value × Value)) :
    entriesSupplies ((key, v) :: rest) = entrySupplies key v ++ entriesSupplies rest := rfl

/-! Predicates. -/

variable {p : Place} {key v : Value}

theorem makes_malformed {α : Type} (subject : Value) (reason : Reason) (xs : List Supply) :
    Makes (p.malformed subject reason : Compile α) xs :=
  .refuse_showing rfl xs

theorem makes_checkScalar (key v : Value) : Makes (p.checkScalar key v) [] := by
  unfold Place.checkScalar
  split
  · exact makes_malformed _ _ _
  · exact makes_malformed _ _ _
  · exact makes_malformed _ _ _
  · exact .pure _

theorem makes_column (t : Target) (v : Value) : Makes (t.column v) [] :=
  .lift (Identifier.blameless_column _ v)

theorem makes_splice (t : Target) (raw : String) (parameters : Dict) :
    Makes (t.splice raw parameters) (Supply.ofMap parameters) :=
  .splice _ _ _

theorem makes_operand (v : Value) : Makes (p.operand key v) (operandSupplies v) := by
  cases v with
  | raw raw parameters => exact makes_splice _ _ _
  | _ => exact (makes_checkScalar _ _).after fun _ => .bindValue _

theorem makes_boundItems (items : List Value) :
    Makes (p.boundItems key items) (items.map fun v => .value (bindScalar v)) := by
  induction items with
  | nil => exact .pure _
  | cons v rest ih =>
      refine (makes_checkScalar key v).after fun _ => ?_
      exact (Makes.bindValue _).bind fun item => ih.map fun more => item :: more

theorem makes_equality (column : Sql) (negated : Bool) (v : Value) :
    Makes (p.equality key column negated v) (equalitySupplies v) := by
  cases v with
  | null => exact .pure _
  | list items =>
      cases items with
      | nil => exact makes_malformed _ _ _
      | cons v rest => exact (makes_boundItems (v :: rest)).map _
  | raw raw parameters => exact (makes_splice _ _ _).map _
  | _ => exact (makes_checkScalar _ _).after fun _ => (Makes.bindValue _).map _

theorem makes_comparison (column : Sql) (operator : ConditionOperator) (v : Value) :
    Makes (p.comparison key column operator v) (operandSupplies v) := by
  cases v with
  | null => exact makes_malformed _ _ _
  | list items => exact makes_malformed _ _ _
  | _ => exact (makes_operand _).map _

theorem makes_regexp (column : Sql) (v : Value) :
    Makes (p.regexp key column v) (operandSupplies v) := by
  cases v with
  | null => exact makes_malformed _ _ _
  | list items => exact makes_malformed _ _ _
  | _ => exact (makes_operand _).map _

theorem makes_between (column : Sql) (negated : Bool) (v : Value) :
    Makes (p.between key column negated v) (rangeSupplies v) := by
  unfold Place.between
  split
  · rename_i low high
    have hends : rangeSupplies (.list [low, high]) = operandSupplies low ++ operandSupplies high := by
      simp [rangeSupplies]
    rw [hends]
    exact (makes_operand low).bind fun lowSql => (makes_operand high).map _
  · exact makes_malformed _ _ _

/-- What goes on with the pattern for a value. -/
theorem makes_likePattern {α : Type} {k : String → Compile α} {xs : List Supply}
    (hk : ∀ pattern, pattern = patternOf v.plain → Makes (k pattern) xs) :
    Makes (Compile.lift (likePattern v) >>= k) xs := by
  refine (Makes.lift (blameless_likePattern v)).after_of fun pattern hpattern => ?_
  obtain ⟨_, _, hyields⟩ := hpattern
  exact hk pattern (likePattern_eq_ok.mp ((yields_lift _).mp hyields).1).2

theorem makes_likeItems (column : Sql) (operator : String) (items : List Value) :
    Makes (p.likeItems key column operator items) (items.flatMap patternSupplies) := by
  induction items with
  | nil => exact .pure _
  | cons v rest ih =>
      rw [List.flatMap_cons]
      cases v with
      | raw raw parameters =>
          exact (makes_splice _ _ _).bind fun right => ih.map fun more => _ :: more
      | null | dict es | list items =>
          exact Makes.bind (α := Sql) (makes_malformed _ _ _) fun right => ih.map fun more => _ :: more
      | _ =>
          refine makes_likePattern fun pattern hpattern => ?_
          rw [hpattern]
          exact (Makes.bindValue _).bind fun right => ih.map fun more => _ :: more

theorem makes_likeGroup (v : Value) : Makes (p.likeGroup key v) [] := by
  unfold Place.likeGroup
  split
  · split
    · exact .pure _
    · exact makes_malformed _ _ _
  · exact makes_malformed _ _ _
  · exact .pure _

theorem makes_like (column : Sql) (negated : Bool) (v : Value) :
    Makes (p.like key column negated v)
      ((patternItems (patternGroup v).2).flatMap patternSupplies) := by
  rw [Place.like_eq]
  refine (makes_likeGroup v).after_of fun group hgroup => ?_
  obtain ⟨_, _, hyields⟩ := hgroup
  rw [← yields_patternGroup hyields]
  split_ifs
  · exact makes_malformed _ _ _
  · exact (makes_likeItems _ _ _).map _

theorem makes_left (parsed : ConditionKey) : Makes (p.left parsed) [] := by
  unfold Place.left
  split_ifs
  · exact .pure _
  · exact makes_column _ _

theorem makes_test (column : Sql) (v : Value) (operator : Option ConditionOperator) :
    Makes (p.test key column v operator) (testSupplies v operator) := by
  cases operator with
  | none => exact makes_equality column false v
  | some operator =>
      cases operator with
      | not => exact makes_equality column true v
      | like => exact makes_like column false v
      | notLike => exact makes_like column true v
      | between => exact makes_between column false v
      | notBetween => exact makes_between column true v
      | regexp => exact makes_regexp column v
      | greater | greaterOrEqual | less | lessOrEqual => exact makes_comparison column _ v

theorem makes_predicate (key v : Value) :
    Makes (p.predicate key v) (testSupplies v (keyOperator key)) := by
  cases key with
  | str text =>
      rw [Place.predicate_str]
      refine (Makes.lift (Key.blameless_conditionKey text)).after_of fun parsed hparsed => ?_
      obtain ⟨_, _, hyields⟩ := hparsed
      have hoperator : keyOperator (.str text) = parsed.operator := by
        simp only [keyOperator, ((yields_lift _).mp hyields).1]
      rw [hoperator]
      exact (makes_left parsed).after fun column => makes_test column v _
  | _ => exact makes_malformed _ _ _

theorem makes_columns (v : Value) : Makes (p.columns v) [] := by
  unfold Place.columns
  dsimp only
  split
  · exact makes_malformed _ _ _
  · exact (makes_column _ _).after fun left => (makes_column _ _).map _

theorem makes_columnsList (items : List Value) : Makes (p.columnsList items) [] := by
  induction items with
  | nil => exact .pure _
  | cons v rest ih => exact (makes_columns v).after fun first => ih.map _

/-! Trees. -/

theorem makes_joined (subject : Value) (connective : Connective) (members : List Sql) :
    Makes (p.joined subject connective members) [] := by
  unfold Place.joined
  split_ifs
  · exact makes_malformed _ _ _
  · exact .pure _

/-- Joining members and putting them between parentheses binds nothing. -/
theorem makes_parenthesized (subject : Value) (connective : Connective) (members : List Sql) :
    Makes (do return parenthesized (← p.joined subject connective members)) [] :=
  (makes_joined subject connective members).map _

theorem makes_entries_logical_groups (p : Place) :
    (∀ (connective : Connective) (es : List (Value × Value)),
      Makes (entries p connective es) (entriesSupplies es)) ∧
    (∀ (outer : Connective) (key : Value) (inner : Connective) (v : Value),
      Makes (logical p outer key inner v) (groupSupplies v)) ∧
    (∀ (inner : Connective) (items : List Value),
      Makes (groups p inner items) (dictsSupplies items)) := by
  apply entries.mutual_induct p
  · intro outer key inner es ih
    exact Makes.before ih fun members => makes_parenthesized _ _ _
  · intro outer key inner items hitems ih
    have hall : items.all Value.isDict = true := (Bool.and_eq_true_iff.mp hitems).2
    simp only [logical, groupSupplies, if_pos hitems, if_pos hall]
    exact ih.map _
  · intro outer key inner items hitems
    have hsupplies : groupSupplies (.list items) = [] := by
      cases items with
      | nil => rfl
      | cons v rest =>
          have hall : ¬(v :: rest).all Value.isDict = true := by simpa using hitems
          simp only [groupSupplies, if_neg hall]
    rw [hsupplies]
    simp only [logical, if_neg hitems]
    exact (makes_columnsList items).before fun members => makes_parenthesized _ _ _
  · intro v outer key inner hdict hlist
    cases v with
    | dict es => exact absurd rfl (hdict es)
    | list items => exact absurd rfl (hlist items)
    | _ => exact makes_malformed _ _ _
  · intro inner
    exact .pure _
  · intro inner es rest ih ihrest
    refine Makes.bind ih fun members => ?_
    exact (makes_joined _ _ _).after fun first => ihrest.map _
  · intro inner v rest hdict ihrest
    cases v with
    | dict es => exact absurd rfl (hdict es)
    | _ => exact ihrest
  · intro connective
    exact .pure _
  · intro connective key v rest inner hrole ihrest ih
    rw [entries_cons, entriesSupplies_cons]
    simp only [entry, entrySupplies, hrole]
    exact ih.bind fun first => ihrest.map _
  · intro connective key v rest hrole ihrest
    rw [entries_cons, entriesSupplies_cons]
    simp only [entry, entrySupplies, hrole]
    exact (makes_columns v).bind fun first => ihrest.map _
  · intro connective key v rest hrole ihrest
    rw [entries_cons, entriesSupplies_cons]
    simp only [entry, entrySupplies, hrole]
    exact (makes_predicate key v).bind fun first => ihrest.map _

/-- Conditions bind what their tree asks for. -/
theorem makes_compile (p : Place) (connective : Connective) (v : Value) :
    Makes (compile p connective v) (supplies v) := by
  cases v with
  | dict es =>
      exact ((makes_entries_logical_groups p).1 connective es).before fun members =>
        makes_joined _ _ _
  | list items =>
      exact (makes_columnsList items).before fun members => makes_joined _ _ _
  | _ => exact makes_malformed _ _ _

end QueryLoom.Conditions
