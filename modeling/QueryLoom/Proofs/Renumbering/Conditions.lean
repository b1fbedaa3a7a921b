import QueryLoom.Proofs.Conditions.Tree
import QueryLoom.Proofs.Renumbering.Clauses

/-!
Conditions that are compiled further on. Every value that they bind takes the next number in both
runs, and conditions that are refused are refused in both at the same place.
-/

namespace QueryLoom.Conditions

open Compile Renumbering

variable {φ : Renumbering} {p : Place} {key : Value}

/-! Predicates. -/

theorem follows_malformed {α β : Type} {f : α → β} (subject : Value) (reason : Reason) :
    φ.Follows f (p.malformed subject reason) (p.malformed subject reason) :=
  .throw (.showing rfl)

theorem follows_checkScalar (key v : Value) :
    φ.Follows id (p.checkScalar key v) (p.checkScalar key v) := by
  unfold Place.checkScalar
  split
  · exact follows_malformed _ _
  · exact follows_malformed _ _
  · exact follows_malformed _ _
  · exact .pure rfl

/-- A scalar that is bound. -/
theorem follows_checked (key v w : Value) :
    φ.Follows φ.sql (do p.checkScalar key v; bindValue w) (do p.checkScalar key v; bindValue w) :=
  (follows_checkScalar key v).bind_id fun _ => follows_bindValue w

theorem follows_operand {v : Value} (h : v.BringsOnly φ.Brought) :
    φ.Follows φ.sql (p.operand key v) (p.operand key v) := by
  unfold Place.operand
  split
  · exact follows_fragment h
  · exact follows_checked key v v

theorem follows_boundItems (items : List Value) :
    φ.Follows (List.map φ.sql) (p.boundItems key items) (p.boundItems key items) := by
  induction items with
  | nil => exact .pure rfl
  | cons v rest ih =>
      refine (follows_checkScalar key v).bind_id fun _ => ?_
      exact (follows_bindValue _).cons ih fun _ => rfl

theorem follows_equality {v : Value} (h : v.BringsOnly φ.Brought) (column : Sql) (negated : Bool) :
    φ.Follows φ.sql (p.equality key column negated v) (p.equality key (φ.sql column) negated v) := by
  unfold Place.equality
  split
  · exact .pure (by simp)
  · exact follows_malformed _ _
  · exact (follows_boundItems _).map fun _ => by simp
  · exact (follows_fragment h).map fun _ => by simp
  · refine (follows_checkScalar key v).bind_id fun _ => ?_
    exact (follows_bindValue _).map fun _ => by simp

theorem follows_comparison {v : Value} (h : v.BringsOnly φ.Brought) (column : Sql)
    (operator : ConditionOperator) :
    φ.Follows φ.sql (p.comparison key column operator v)
      (p.comparison key (φ.sql column) operator v) := by
  unfold Place.comparison
  split
  · exact follows_malformed _ _
  · exact follows_malformed _ _
  · exact (follows_operand h).map fun _ => by simp

theorem follows_regexp {v : Value} (h : v.BringsOnly φ.Brought) (column : Sql) :
    φ.Follows φ.sql (p.regexp key column v) (p.regexp key (φ.sql column) v) := by
  unfold Place.regexp
  split
  · exact follows_malformed _ _
  · exact follows_malformed _ _
  · exact (follows_operand h).map fun _ => by simp

theorem follows_between {v : Value} (h : v.BringsOnly φ.Brought) (column : Sql) (negated : Bool) :
    φ.Follows φ.sql (p.between key column negated v) (p.between key (φ.sql column) negated v) := by
  unfold Place.between
  split
  · rw [Value.bringsOnly_list, List.forall_mem_cons, List.forall_mem_singleton] at h
    refine (follows_operand h.1).bind fun low => ?_
    exact (follows_operand h.2).map fun high => by simp
  · exact follows_malformed _ _

theorem follows_likeItems {items : List Value} (h : ∀ v ∈ items, v.BringsOnly φ.Brought)
    (column : Sql) (operator : String) :
    φ.Follows (List.map φ.sql) (p.likeItems key column operator items)
      (p.likeItems key (φ.sql column) operator items) := by
  induction items with
  | nil => exact .pure rfl
  | cons v rest ih =>
      rw [List.forall_mem_cons] at h
      unfold Place.likeItems
      split
      · exact (follows_fragment h.1).cons (ih h.2) fun _ => by simp
      · exact Follows.bind (f := φ.sql) (follows_malformed _ _) fun _ => (ih h.2).map fun _ => by simp
      · exact Follows.bind (f := φ.sql) (follows_malformed _ _) fun _ => (ih h.2).map fun _ => by simp
      · exact Follows.bind (f := φ.sql) (follows_malformed _ _) fun _ => (ih h.2).map fun _ => by simp
      · refine Follows.bind_id (follows_lift_id (blameless_likePattern v)) fun pattern => ?_
        exact (follows_bindValue _).cons (ih h.2) fun _ => by simp

theorem follows_likeGroup (v : Value) :
    φ.Follows id (p.likeGroup key v) (p.likeGroup key v) := by
  unfold Place.likeGroup
  split
  · split
    · exact .pure rfl
    · exact follows_malformed _ _
  · exact follows_malformed _ _
  · exact .pure rfl

theorem bringsOnly_patterns {P : String → Prop} {v patterns : Value} {connective : Connective}
    {s t : Parameters} (hv : v.BringsOnly P)
    (h : (p.likeGroup key v).Yields s (connective, patterns) t) :
    ∀ w ∈ patternItems patterns, w.BringsOnly P := by
  have hpatterns : patterns.BringsOnly P := by
    rcases (yields_likeGroup h).2 with ⟨_, rfl⟩ | ⟨name, rfl, _⟩
    · exact hv
    · exact Value.bringsOnly_dict.mp hv (.str name, patterns) (by simp)
  cases patterns with
  | list items => exact Value.bringsOnly_list.mp hpatterns
  | _ => simpa [patternItems] using hpatterns

theorem follows_like {v : Value} (h : v.BringsOnly φ.Brought) (column : Sql) (negated : Bool) :
    φ.Follows φ.sql (p.like key column negated v) (p.like key (φ.sql column) negated v) := by
  rw [Place.like_eq, Place.like_eq]
  refine (follows_likeGroup v).bind_of fun group hgroup => ?_
  obtain ⟨connective, patterns⟩ := group
  obtain ⟨_, _, hyields⟩ := hgroup
  dsimp only [id_eq]
  split_ifs
  · exact follows_malformed _ _
  · exact (follows_likeItems (bringsOnly_patterns h hyields) _ _).map fun _ => by
      simp [parenthesized]

theorem follows_left (parsed : ConditionKey) : φ.Follows φ.sql (p.left parsed) (p.left parsed) := by
  unfold Place.left
  split_ifs
  · exact .pure rfl
  · exact follows_column _

theorem follows_test {v : Value} (h : v.BringsOnly φ.Brought) (column : Sql)
    (operator : Option ConditionOperator) :
    φ.Follows φ.sql (p.test key column v operator) (p.test key (φ.sql column) v operator) := by
  cases operator with
  | none => exact follows_equality h column false
  | some operator =>
      cases operator with
      | not => exact follows_equality h column true
      | like => exact follows_like h column false
      | notLike => exact follows_like h column true
      | between => exact follows_between h column false
      | notBetween => exact follows_between h column true
      | regexp => exact follows_regexp h column
      | greater | greaterOrEqual | less | lessOrEqual => exact follows_comparison h column _

theorem follows_predicate {v : Value} (key : Value) (h : v.BringsOnly φ.Brought) :
    φ.Follows φ.sql (p.predicate key v) (p.predicate key v) := by
  cases key with
  | str text =>
      rw [Place.predicate_str]
      refine (follows_lift_id (Key.blameless_conditionKey text)).bind_id fun parsed => ?_
      exact (follows_left parsed).bind fun column => follows_test h column _
  | _ => exact follows_malformed _ _

theorem follows_columns (v : Value) : φ.Follows φ.sql (p.columns v) (p.columns v) := by
  unfold Place.columns
  dsimp only
  split
  · exact follows_malformed _ _
  · refine (follows_column _).bind fun left => ?_
    exact (follows_column _).map fun right => by simp

theorem follows_columnsList (items : List Value) :
    φ.Follows (List.map φ.sql) (p.columnsList items) (p.columnsList items) := by
  induction items with
  | nil => exact .pure rfl
  | cons v rest ih => exact (follows_columns v).cons ih fun _ => rfl

/-! Trees. -/

theorem follows_joined (subject : Value) (connective : Connective) (members : List Sql) :
    φ.Follows φ.sql (p.joined subject connective members)
      (p.joined subject connective (members.map φ.sql)) := by
  unfold Place.joined
  rw [List.isEmpty_map]
  split_ifs
  · exact follows_malformed _ _
  · exact .pure (by simp)

/-- The members of a group, joined and put between parentheses. -/
theorem follows_parenthesized {m : Compile (List Sql)} (h : φ.Follows (List.map φ.sql) m m)
    (subject : Value) (connective : Connective) :
    φ.Follows φ.sql
      (do
        let members ← m
        return parenthesized (← p.joined subject connective members))
      (do
        let members ← m
        return parenthesized (← p.joined subject connective members)) :=
  h.bind fun _ => (follows_joined _ _ _).map fun _ => by simp [parenthesized]

theorem follows_entries_cons {connective : Connective} {key v : Value} {rest : Dict}
    (hfirst : φ.Follows φ.sql (entry p connective key v) (entry p connective key v))
    (hrest : φ.Follows (List.map φ.sql) (entries p connective rest) (entries p connective rest)) :
    φ.Follows (List.map φ.sql) (entries p connective ((key, v) :: rest))
      (entries p connective ((key, v) :: rest)) := by
  rw [entries_cons]
  exact hfirst.cons hrest fun _ => rfl

theorem follows_entries_logical_groups (p : Place) :
    (∀ (connective : Connective) (es : List (Value × Value)),
      (∀ entry ∈ es, entry.2.BringsOnly φ.Brought) →
      φ.Follows (List.map φ.sql) (entries p connective es) (entries p connective es)) ∧
    (∀ (outer : Connective) (key : Value) (inner : Connective) (v : Value), v.BringsOnly φ.Brought →
      φ.Follows φ.sql (logical p outer key inner v) (logical p outer key inner v)) ∧
    (∀ (inner : Connective) (items : List Value), (∀ v ∈ items, v.BringsOnly φ.Brought) →
      φ.Follows (List.map φ.sql) (groups p inner items) (groups p inner items)) := by
  apply entries.mutual_induct p
  · intro outer key inner es ih h
    exact follows_parenthesized (ih (Value.bringsOnly_dict.mp h)) _ _
  · intro outer key inner items hitems ih h
    simp only [logical, if_pos hitems]
    exact (ih (Value.bringsOnly_list.mp h)).map fun _ => by simp [parenthesized]
  · intro outer key inner items hitems _
    simp only [logical, if_neg hitems]
    exact follows_parenthesized (follows_columnsList items) _ _
  · intro v outer key inner hdict hlist _
    cases v with
    | dict es => exact absurd rfl (hdict es)
    | list items => exact absurd rfl (hlist items)
    | _ => exact follows_malformed _ _
  · intro inner _
    exact .pure rfl
  · intro inner es rest ih ihrest h
    rw [List.forall_mem_cons] at h
    refine (ih (Value.bringsOnly_dict.mp h.1)).bind fun members => ?_
    exact (follows_joined _ _ _).cons (ihrest h.2) fun _ => by simp [parenthesized]
  · intro inner v rest hdict ihrest h
    rw [List.forall_mem_cons] at h
    cases v with
    | dict es => exact absurd rfl (hdict es)
    | _ => exact ihrest h.2
  · intro connective _
    exact .pure rfl
  · intro connective key v rest inner hrole ihrest ih h
    rw [List.forall_mem_cons] at h
    refine follows_entries_cons ?_ (ihrest h.2)
    simp only [entry, hrole]
    exact ih h.1
  · intro connective key v rest hrole ihrest h
    rw [List.forall_mem_cons] at h
    refine follows_entries_cons ?_ (ihrest h.2)
    simp only [entry, hrole]
    exact follows_columns v
  · intro connective key v rest hrole ihrest h
    rw [List.forall_mem_cons] at h
    refine follows_entries_cons ?_ (ihrest h.2)
    simp only [entry, hrole]
    exact follows_predicate key h.1

theorem follows_compile {v : Value} (h : v.BringsOnly φ.Brought) (connective : Connective) :
    φ.Follows φ.sql (compile p connective v) (compile p connective v) := by
  unfold compile
  split
  · refine ((follows_entries_logical_groups p).1 _ _ (Value.bringsOnly_dict.mp h)).bind fun _ => ?_
    exact follows_joined _ _ _
  · exact (follows_columnsList _).bind fun _ => follows_joined _ _ _
  · exact follows_malformed _ _

end QueryLoom.Conditions
