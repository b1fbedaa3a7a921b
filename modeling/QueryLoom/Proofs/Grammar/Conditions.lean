import QueryLoom.Proofs.Conditions.Tree
import QueryLoom.Proofs.Grammar.Builds

/-!
Conditions are sentences of the grammar. A key with its value is a predicate, a group is predicates
between parentheses, and there is no group without a member.
-/

namespace QueryLoom.Conditions

open Compile Grammar

/-! Calls in keys. -/

/-- The call of a function that a key holds. -/
def keyCalls : Value → List String
  | .str text =>
      match Key.conditionKey text with
      | .ok parsed => if parsed.isFunction then [parsed.column] else []
      | .error _ => []
  | _ => []

mutual

/-- The calls of functions in the keys of conditions. -/
def calls : Value → List String
  | .dict es => callsOfEntries es
  | .list items => callsOfItems items
  | _ => []
termination_by structural v => v

def callsOfEntries : List (Value × Value) → List String
  | [] => []
  | (key, v) :: rest => keyCalls key ++ (calls v ++ callsOfEntries rest)
termination_by structural es => es

def callsOfItems : List Value → List String
  | [] => []
  | v :: rest => calls v ++ callsOfItems rest
termination_by structural vs => vs

end

variable {r : Rules} {p : Place} {key : Value} {column : Sql}

/-! Tests. -/

theorem builds_malformed {α : Type} {P : α → Prop} (subject : Value) (reason : Reason) :
    Builds (p.malformed subject reason) P :=
  .throw _

theorem builds_checkScalar (key v : Value) : Builds (p.checkScalar key v) fun _ => True := by
  unfold Place.checkScalar
  split
  · exact builds_malformed _ _
  · exact builds_malformed _ _
  · exact builds_malformed _ _
  · exact .pure trivial

theorem builds_checked (key v w : Value) :
    Builds (do p.checkScalar key v; bindValue w) Placeholder :=
  (builds_checkScalar key v).bind fun _ _ => .bindValue w

theorem builds_operand {v : Value} (hv : v.rawFree = true) :
    Builds (p.operand key v) Placeholder := by
  cases v with
  | raw raw parameters => cases hv
  | _ => exact builds_checked _ _ _

theorem builds_boundItems (items : List Value) :
    Builds (p.boundItems key items) (Rows Placeholder items.length) := by
  induction items with
  | nil => exact .pure .nil
  | cons v rest ih =>
      refine (builds_checkScalar key v).bind fun _ _ => ?_
      exact (Builds.bindValue _).cons ih fun _ h => h

theorem builds_equality (hcolumn : Left r column) (negated : Bool) {v : Value}
    (hv : v.rawFree = true) : Builds (p.equality key column negated v) (Predicate r) := by
  have hoperator : (if negated then " != " else " = ") ∈ operatorTexts := by
    cases negated <;> decide
  cases v with
  | null => exact .pure (.null negated hcolumn)
  | list items =>
      cases items with
      | nil => exact builds_malformed _ _
      | cons v rest =>
          exact (builds_boundItems (v :: rest)).map fun rows hrows =>
            .members negated hcolumn hrows.all hrows.ne_nil
  | raw raw parameters => cases hv
  | _ =>
      refine (builds_checkScalar _ _).bind fun _ _ => ?_
      exact (Builds.bindValue _).map fun right hright => .tested hcolumn hoperator hright

theorem builds_comparison (hcolumn : Left r column) {operator : ConditionOperator}
    (hoperator : " " ++ operator.text ++ " " ∈ operatorTexts) {v : Value} (hv : v.rawFree = true) :
    Builds (p.comparison key column operator v) (Predicate r) := by
  cases v with
  | null => exact builds_malformed _ _
  | list items => exact builds_malformed _ _
  | _ => exact (builds_operand hv).map fun right hright => .tested hcolumn hoperator hright

theorem builds_regexp (hcolumn : Left r column) {v : Value} (hv : v.rawFree = true) :
    Builds (p.regexp key column v) (Predicate r) := by
  have hoperator : " " ++ p.target.dialect.regexpOperator ++ " " ∈ operatorTexts := by
    cases p.target.dialect <;> decide
  cases v with
  | null => exact builds_malformed _ _
  | list items => exact builds_malformed _ _
  | _ => exact (builds_operand hv).map fun right hright => .tested hcolumn hoperator hright

theorem builds_between (hcolumn : Left r column) (negated : Bool) {v : Value}
    (hv : v.rawFree = true) : Builds (p.between key column negated v) (Predicate r) := by
  unfold Place.between
  split
  · rename_i low high
    have hends := Value.rawFree_list hv
    refine (builds_operand (hends low (by simp))).bind fun lowSql hlow => ?_
    refine (builds_operand (hends high (by simp))).map fun highSql hhigh => ?_
    simpa [parenthesized] using Predicate.range negated hcolumn hlow hhigh
  · exact builds_malformed _ _

theorem builds_likeItems (hcolumn : Left r column) {operator : String}
    (hoperator : " " ++ operator ++ " " ∈ operatorTexts) {items : List Value}
    (hitems : ∀ v ∈ items, v.rawFree = true) :
    Builds (p.likeItems key column operator items) (Rows (Predicate r) items.length) := by
  induction items with
  | nil => exact .pure .nil
  | cons v rest ih =>
      obtain ⟨hv, hrest⟩ := List.forall_mem_cons.mp hitems
      have htested : ∀ right, Placeholder right →
          Predicate r (column ++ .text (" " ++ operator ++ " ") :: right) := fun right hright =>
        .tested hcolumn hoperator hright
      cases v with
      | raw raw parameters => cases hv
      | null | dict es | list items =>
          exact Builds.cons (P := Placeholder) (builds_malformed _ _) (ih hrest) htested
      | _ =>
          refine Builds.bind (P := fun _ => True) (.lift fun _ _ => trivial) fun pattern _ => ?_
          exact (Builds.bindValue _).cons (ih hrest) htested

theorem builds_likeGroup {v : Value} (hv : v.rawFree = true) :
    Builds (p.likeGroup key v) fun group => ∀ w ∈ patternItems group.2, w.rawFree = true := by
  intro s group u hs h
  obtain ⟨connective, patterns⟩ := group
  obtain ⟨rfl, _⟩ := yields_likeGroup h
  exact ⟨rawFree_patterns hv h, hs⟩

theorem builds_like (hcolumn : Left r column) (negated : Bool) {v : Value}
    (hv : v.rawFree = true) : Builds (p.like key column negated v) (Predicate r) := by
  have hoperator : " " ++ p.likeText negated ++ " " ∈ operatorTexts := by
    unfold Place.likeText
    cases p.target.dialect <;> cases negated <;> decide
  rw [Place.like_eq]
  refine (builds_likeGroup hv).bind fun group hgroup => ?_
  split_ifs with hempty
  · exact builds_malformed _ _
  · refine (builds_likeItems hcolumn hoperator hgroup).map fun rows hrows => ?_
    refine .group group.1 hrows.all fun hnil => hempty ?_
    have hlength := hrows.length
    rw [hnil] at hlength
    exact List.isEmpty_iff.mpr (List.eq_nil_of_length_eq_zero hlength.symm)

theorem builds_test (hcolumn : Left r column) {v : Value} (hv : v.rawFree = true)
    (operator : Option ConditionOperator) :
    Builds (p.test key column v operator) (Predicate r) := by
  cases operator with
  | none => exact builds_equality hcolumn false hv
  | some operator =>
      cases operator with
      | not => exact builds_equality hcolumn true hv
      | like => exact builds_like hcolumn false hv
      | notLike => exact builds_like hcolumn true hv
      | between => exact builds_between hcolumn false hv
      | notBetween => exact builds_between hcolumn true hv
      | regexp => exact builds_regexp hcolumn hv
      | greater | greaterOrEqual | less | lessOrEqual =>
          exact builds_comparison hcolumn (by decide) hv

theorem builds_predicate {v : Value} (hv : v.rawFree = true)
    (hcalls : ∀ call ∈ keyCalls key, r.Call call) : Builds (p.predicate key v) (Predicate r) := by
  cases key with
  | str text =>
      rw [Place.predicate_str]
      refine Builds.bind (.lift fun parsed hparsed => hparsed) fun parsed hparsed => ?_
      have hleft : Builds (p.left parsed) (Left r) := by
        unfold Place.left
        split_ifs with hfunction
        · refine .pure (.call (hcalls _ ?_))
          simp [keyCalls, hparsed, hfunction]
        · exact (builds_column _).mono fun _ => .column
      exact hleft.bind fun column hcolumn => builds_test hcolumn hv _
  | _ => exact builds_malformed _ _

theorem builds_columns (v : Value) : Builds (p.columns v) (Predicate r) := by
  unfold Place.columns
  dsimp only
  split
  · exact builds_malformed _ _
  · refine (builds_column _).bind fun left hleft => ?_
    exact (builds_column _).map fun right hright => .columns _ hleft hright

theorem builds_columnsList (items : List Value) :
    Builds (p.columnsList items) (Rows (Predicate r) items.length) := by
  induction items with
  | nil => exact .pure .nil
  | cons v rest ih => exact (builds_columns v).cons ih fun _ h => h

/-! Trees. -/

/-- Members that are joined are not none. -/
theorem builds_joined {P : Sql → Prop} {count : Nat} {members : List Sql} (subject : Value)
    (connective : Connective) (h : Rows P count members) :
    Builds (p.joined subject connective members) fun sql =>
      ∃ rows, (∀ row ∈ rows, P row) ∧ rows ≠ [] ∧
        sql = Sql.join (" " ++ connective.text ++ " ") rows := by
  unfold Place.joined
  split_ifs with hempty
  · exact builds_malformed _ _
  · refine .pure ⟨members, h.all, fun hnil => hempty ?_, rfl⟩
    rw [hnil]
    rfl

theorem builds_parenthesized {count : Nat} {members : List Sql} (subject : Value)
    (connective : Connective) (h : Rows (Predicate r) count members) :
    Builds (do return parenthesized (← p.joined subject connective members)) (Predicate r) := by
  refine (builds_joined subject connective h).map ?_
  rintro _ ⟨rows, hrows, hne, rfl⟩
  exact .group connective hrows hne

theorem builds_entries_cons {connective : Connective} {key v : Value} {rest : Dict}
    (hfirst : Builds (entry p connective key v) (Predicate r))
    (hrest : Builds (entries p connective rest) (Rows (Predicate r) rest.length)) :
    Builds (entries p connective ((key, v) :: rest))
      (Rows (Predicate r) ((key, v) :: rest).length) := by
  rw [entries_cons]
  exact hfirst.cons hrest fun _ h => h

/-- What a tree is compiled to: a predicate for each entry and each group. -/
theorem builds_entries_logical_groups (p : Place) :
    (∀ (connective : Connective) (es : List (Value × Value)), Value.rawFreeEntries es = true →
      (∀ call ∈ callsOfEntries es, r.Call call) →
      Builds (entries p connective es) (Rows (Predicate r) es.length)) ∧
    (∀ (outer : Connective) (key : Value) (inner : Connective) (v : Value), v.rawFree = true →
      (∀ call ∈ calls v, r.Call call) → Builds (logical p outer key inner v) (Predicate r)) ∧
    (∀ (inner : Connective) (items : List Value), Value.rawFreeItems items = true →
      (∀ call ∈ callsOfItems items, r.Call call) → items.all Value.isDict = true →
      Builds (groups p inner items) (Rows (Predicate r) items.length)) := by
  apply entries.mutual_induct p
  · intro outer key inner es ih hfree hcalls
    exact (ih hfree hcalls).bind fun members hmembers => builds_parenthesized _ _ hmembers
  · intro outer key inner items hitems ih hfree hcalls
    obtain ⟨hsome, hall⟩ := Bool.and_eq_true_iff.mp hitems
    simp only [logical, if_pos hitems]
    refine (ih hfree hcalls hall).map fun found hfound => .group outer hfound.all ?_
    cases items with
    | nil => cases hsome
    | cons v rest => exact hfound.ne_nil
  · intro outer key inner items hitems _ _
    simp only [logical, if_neg hitems]
    exact (builds_columnsList items).bind fun members hmembers =>
      builds_parenthesized _ _ hmembers
  · intro v outer key inner hdict hlist _ _
    cases v with
    | dict es => exact absurd rfl (hdict es)
    | list items => exact absurd rfl (hlist items)
    | _ => exact builds_malformed _ _
  · intro inner _ _ _
    exact .pure .nil
  · intro inner es rest ih ihrest hfree hcalls hall
    rw [Value.rawFreeItems, Bool.and_eq_true] at hfree
    rw [callsOfItems, List.forall_mem_append] at hcalls
    refine (ih hfree.1 hcalls.1).bind fun members hmembers => ?_
    refine (builds_joined _ inner hmembers).cons (ihrest hfree.2 hcalls.2 hall) ?_
    rintro _ ⟨rows, hrows, hne, rfl⟩
    exact .group inner hrows hne
  · intro inner v rest hdict _ _ _ hall
    cases v with
    | dict es => exact absurd rfl (hdict es)
    | _ => cases hall
  · intro connective _ _
    exact .pure .nil
  · intro connective key v rest inner hrole ihrest ih hfree hcalls
    rw [Value.rawFreeEntries, Bool.and_eq_true] at hfree
    rw [callsOfEntries, List.forall_mem_append, List.forall_mem_append] at hcalls
    refine builds_entries_cons ?_ (ihrest hfree.2 hcalls.2.2)
    simp only [entry, hrole]
    exact ih hfree.1 hcalls.2.1
  · intro connective key v rest hrole ihrest hfree hcalls
    rw [Value.rawFreeEntries, Bool.and_eq_true] at hfree
    rw [callsOfEntries, List.forall_mem_append, List.forall_mem_append] at hcalls
    refine builds_entries_cons ?_ (ihrest hfree.2 hcalls.2.2)
    simp only [entry, hrole]
    exact builds_columns v
  · intro connective key v rest hrole ihrest hfree hcalls
    rw [Value.rawFreeEntries, Bool.and_eq_true] at hfree
    rw [callsOfEntries, List.forall_mem_append, List.forall_mem_append] at hcalls
    refine builds_entries_cons ?_ (ihrest hfree.2 hcalls.2.2)
    simp only [entry, hrole]
    exact builds_predicate hfree.1 hcalls.1

/-- Conditions that all have to hold are compiled to a conjunction of predicates. -/
theorem builds_compile {v : Value} (hv : v.rawFree = true) (hcalls : ∀ call ∈ calls v, r.Call call) :
    Builds (compile p .and v) (Conjunction r) := by
  have hjoined : ∀ {count : Nat} {members : List Sql} (subject : Value),
      Rows (Predicate r) count members → Builds (p.joined subject .and members) (Conjunction r) := by
    intro count members subject hmembers
    refine (builds_joined subject .and hmembers).mono ?_
    rintro _ ⟨rows, hrows, hne, rfl⟩
    exact .mk hrows hne
  cases v with
  | dict es =>
      exact ((builds_entries_logical_groups p).1 .and es hv hcalls).bind fun members hmembers =>
        hjoined _ hmembers
  | list items => exact (builds_columnsList items).bind fun members hmembers => hjoined _ hmembers
  | _ => exact builds_malformed _ _

end QueryLoom.Conditions
