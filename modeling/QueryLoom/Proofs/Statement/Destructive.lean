import QueryLoom.Proofs.Conditions.Kept
import QueryLoom.Proofs.Grammar.Verbs

/-!
Statements that change or delete the rows that match. Whatever the where-specification holds besides the
keys of the clauses is represented in WHERE, so that a condition is not lost on the way to an update or
a deletion. Two keys are reserved for no clause, and what stands under them is lost.
-/

namespace QueryLoom

open Compile Conditions Statement

variable {t : Target} {s u : Parameters} {sql : Sql}

namespace Tail

/-- The keys under which the clauses behind WHERE stand. -/
def clauseKeys : List String := [groupKey, havingKey, orderKey, limitKey]

def isClauseKey : Value → Bool
  | .str key => clauseKeys.contains key
  | _ => false

/-- The entries that no clause is made of. -/
def unclaimedEntries (entries : Dict) : Dict := entries.filter fun (key, _) => !isClauseKey key

/-- The keys that are reserved although no clause stands under them. -/
def idleKeys : List String := ["LIKE", "MATCH"]

theorem reservedKeys_eq : reservedKeys = clauseKeys ++ idleKeys := rfl

theorem isReserved_of_not_idle {key : Value} (h : ∀ idle ∈ idleKeys, key ≠ .str idle) :
    isReserved key = isClauseKey key := by
  cases key with
  | str name =>
      have hidle : idleKeys.contains name = false := by
        rw [List.contains_eq_mem, decide_eq_false_iff_not]
        exact fun hmem => h name hmem rfl
      rw [isReserved, isClauseKey, reservedKeys_eq, List.contains_append, hidle, Bool.or_false]
  | _ => rfl

/-- The conditions are all entries that no clause is made of, if no key is reserved idly. -/
theorem conditionEntries_eq {entries : Dict}
    (h : ∀ e ∈ entries, ∀ idle ∈ idleKeys, e.1 ≠ .str idle) :
    conditionEntries entries = unclaimedEntries entries :=
  List.filter_congr fun e he => congrArg (!·) (isReserved_of_not_idle (h e he))

/-- A tail with conditions begins with WHERE, which represents each of them. -/
theorem represents_conditions {entries : Dict} (hne : conditionEntries entries ≠ [])
    (h : (compile t (.dict entries)).Yields s sql u) :
    ∃ predicates clauses,
      RepresentsAll ⟨t, .filter⟩ .and (conditionEntries entries) predicates ∧ predicates ≠ [] ∧
      sql = Sql.join " " ((.text "WHERE " :: Sql.join " AND " predicates) :: clauses) := by
  have htruthy : (Value.dict (conditionEntries entries)).truthy = true := by
    simpa [Value.truthy] using hne
  simp only [compile, yields_bind] at h
  obtain ⟨filter, _, hfilter, groupBy, _, -, having, _, -, orderBy, _, -, hlimit⟩ := h
  rw [whenTruthy, if_pos htruthy] at hfilter
  simp only [yields_bind, yields_pure] at hfilter
  obtain ⟨body, _, hbody, rfl, -⟩ := hfilter
  obtain ⟨predicates, hpredicates, hne, rfl⟩ := represents_compile hbody
  have hclauses : ∃ limit, sql = Sql.join " " ([.text "WHERE " :: Sql.join " AND " predicates] ++
      groupBy ++ having ++ orderBy ++ limit) := by
    split at hlimit
    · simp only [yields_bind, yields_pure] at hlimit
      obtain ⟨limit, _, -, rfl, -⟩ := hlimit
      exact ⟨limit, rfl⟩
    · simp only [yields_bind, yields_pure] at hlimit
      obtain ⟨_, _, -, limit, _, -, rfl, -⟩ := hlimit
      exact ⟨limit, rfl⟩
  obtain ⟨limit, rfl⟩ := hclauses
  exact ⟨predicates, groupBy ++ having ++ orderBy ++ limit, hpredicates, hne, rfl⟩

end Tail

namespace Statement

/-- A statement that begins with some words and has, before all other clauses, WHERE with a text for
each condition. -/
def Filters (t : Target) (opening : String) (conditions : Dict) (sql : Sql) : Prop :=
  ∃ middle predicates clauses,
    RepresentsAll ⟨t, .filter⟩ .and conditions predicates ∧ predicates ≠ [] ∧
    sql = .text opening :: middle ++ .text " " ::
      Sql.join " " ((.text "WHERE " :: Sql.join " AND " predicates) :: clauses)

/-- A statement that is finished behind its tail. -/
theorem filters_finish {entries : Dict} {opening : String} {middle : Sql} {c : Compiled}
    (hne : Tail.conditionEntries entries ≠ [])
    (h : (do finish t (append (.text opening :: middle) (← Tail.compile t (.dict entries))) none :
      Compile Compiled).Yields s c u) :
    Filters t opening (Tail.conditionEntries entries) c.sql := by
  simp only [finish, yields_bind, yields_get, yields_pure] at h
  obtain ⟨tail, _, htail, _, _, ⟨rfl, rfl⟩, rfl, -⟩ := h
  obtain ⟨predicates, clauses, hpredicates, hpredicates_ne, rfl⟩ :=
    Tail.represents_conditions hne htail
  refine ⟨middle, predicates, clauses, hpredicates, hpredicates_ne, ?_⟩
  have htext : (Sql.join " " ((.text "WHERE " :: Sql.join " AND " predicates) :: clauses)).text ≠
      "" := by
    cases clauses with
    | nil => exact Sql.text_ne_empty (by decide) _
    | cons clause rest => exact Sql.text_ne_empty (by decide) _
  rw [Compiled.sql, if_neg Bool.false_ne_true, append, if_neg]
  rwa [String.isEmpty_iff]

theorem filters_delete {table : Value} {entries : Dict} {c : Compiled}
    (hne : Tail.conditionEntries entries ≠ []) (h : (delete t table (.dict entries)).Yields s c u) :
    Filters t "DELETE FROM " (Tail.conditionEntries entries) c.sql := by
  unfold delete at h
  rw [yields_bind] at h
  obtain ⟨tableSql, _, -, h⟩ := h
  exact filters_finish hne h

theorem filters_update {table data : Value} {entries : Dict} {c : Compiled}
    (hne : Tail.conditionEntries entries ≠ [])
    (h : (update t table data (.dict entries)).Yields s c u) :
    Filters t "UPDATE " (Tail.conditionEntries entries) c.sql := by
  unfold update at h
  split at h
  · rw [yields_bind] at h
    obtain ⟨sets, _, -, h⟩ := h
    unfold updateOf at h
    rw [yields_bind] at h
    obtain ⟨tableSql, _, -, h⟩ := h
    exact filters_finish hne h
  · simp at h

end Statement

namespace Verb

/-- The words that a statement begins with that changes or deletes the rows that match. -/
def destructive? : Verb → Option String
  | .update => some "UPDATE "
  | .delete => some "DELETE FROM "
  | _ => none

/-- A verb that changes or deletes rows keeps every condition of its where-specification. -/
theorem filters_compileWith {verb : Verb} {opening : String} {values : List Value} {entries : Dict}
    {c : Compiled} (hverb : verb.destructive? = some opening)
    (hlength : values.length = verb.parameters.length)
    (hwheres : verb.wheres values = .dict entries) (hne : Tail.conditionEntries entries ≠ [])
    (h : (verb.compileWith t values).Yields s c u) :
    Filters t opening (Tail.conditionEntries entries) c.sql := by
  cases verb with
  | update =>
      cases hverb
      obtain ⟨table, data, wheres, rfl⟩ := List.length_eq_three.mp hlength
      obtain rfl : wheres = .dict entries := hwheres
      exact filters_update hne h
  | delete =>
      cases hverb
      obtain ⟨table, wheres, rfl⟩ := List.length_eq_two.mp hlength
      obtain rfl : wheres = .dict entries := hwheres
      exact filters_delete hne h
  | _ => cases hverb

/-- For every target, every counter and every update or deletion of which the where-specification holds
an entry that no clause is made of, raw values or not: if the call compiles, the statement has WHERE
with one text for each of these entries, in their order, provided that no key is LIKE or MATCH. A
predicate tests the column of its key by the operator of its key; under a logical key stands a group
that is not empty and in turn represents what it is made of. -/
theorem conditions_never_dropped {verb : Verb} {opening : String} {args : List Value}
    {entries : Dict} {next last : Nat} {c : Compiled} (hverb : verb.destructive? = some opening)
    (hwheres : verb.wheres args = .dict entries)
    (hidle : ∀ e ∈ entries, ∀ idle ∈ Tail.idleKeys, e.1 ≠ .str idle)
    (hsome : ∃ e ∈ entries, Tail.isClauseKey e.1 = false)
    (h : run (verb.compile t args) next = (.ok c, last)) :
    Filters t opening (Tail.unclaimedEntries entries) c.sql := by
  obtain ⟨u, hyields, -⟩ := yields_of_run h
  unfold compile at hyields
  simp only [yields_bind, yields_lift] at hyields
  obtain ⟨values, _, ⟨hbind, rfl⟩, hyields⟩ := hyields
  rw [← Tail.conditionEntries_eq hidle]
  have hne : Tail.conditionEntries entries ≠ [] := by
    obtain ⟨e, he, hunclaimed⟩ := hsome
    rw [Tail.conditionEntries_eq hidle]
    refine List.ne_nil_of_mem (a := e) (List.mem_filter.mpr ⟨he, ?_⟩)
    simp [hunclaimed]
  have hlength : values.length = verb.parameters.length := Signature.length_bind hbind
  exact filters_compileWith hverb hlength ((wheres_bind hbind).trans hwheres) hne hyields

/-- A deletion with a limit, a predicate and a group. -/
theorem conditions_never_dropped_of_deletion :
    ∃ c last,
      run (Verb.delete.compile ⟨.sqlite, ""⟩
        [.str "users", .dict [(.str "LIMIT", .int 5), (.str "age[>]", .int 30),
          (.str "OR", .dict [(.str "name", .null), (.str "state", .str "off")])]]) 0 =
        (.ok c, last) ∧
      c.text = "DELETE FROM \"users\" WHERE \"age\" > :param_0 AND " ++
        "(\"name\" IS NULL OR \"state\" = :param_1) LIMIT 5" ∧
      Filters ⟨.sqlite, ""⟩ "DELETE FROM "
        [(.str "age[>]", .int 30),
          (.str "OR", .dict [(.str "name", .null), (.str "state", .str "off")])] c.sql := by
  generalize hargs : [Value.str "users", .dict [(.str "LIMIT", .int 5), (.str "age[>]", .int 30),
    (.str "OR", .dict [(.str "name", .null), (.str "state", .str "off")])]] = args
  have htext : (run (Verb.delete.compile ⟨.sqlite, ""⟩ args) 0).1.toOption.map Compiled.text =
      some ("DELETE FROM \"users\" WHERE \"age\" > :param_0 AND " ++
        "(\"name\" IS NULL OR \"state\" = :param_1) LIMIT 5") := by
    subst hargs
    decide +kernel
  rcases hrun : run (Verb.delete.compile ⟨.sqlite, ""⟩ args) 0 with ⟨_ | c, last⟩
  · simp [hrun, Except.toOption] at htext
  · simp only [hrun, Except.toOption, Option.map_some, Option.some.injEq] at htext
    subst hargs
    exact ⟨c, last, rfl, htext, conditions_never_dropped rfl rfl (by simp [Tail.idleKeys])
      ⟨(.str "age[>]", .int 30), by simp, by decide⟩ hrun⟩

/-- A condition under an idle key leaves a deletion of all rows. -/
theorem idle_key_leaves_no_filter :
    ∃ c last,
      run (Verb.delete.compile ⟨.sqlite, ""⟩ [.str "users", .dict [(.str "MATCH", .str "x")]]) 0 =
        (.ok c, last) ∧
      c.text = "DELETE FROM \"users\"" ∧
      Tail.unclaimedEntries [(.str "MATCH", .str "x")] = [(.str "MATCH", .str "x")] ∧
      ¬ Filters ⟨.sqlite, ""⟩ "DELETE FROM " [(.str "MATCH", .str "x")] c.sql := by
  have hsql : (run (Verb.delete.compile ⟨.sqlite, ""⟩
      [.str "users", .dict [(.str "MATCH", .str "x")]]) 0).1.toOption.map Compiled.sql =
      some [.text "DELETE FROM ", .name "users"] := by
    decide +kernel
  rcases hrun : run (Verb.delete.compile ⟨.sqlite, ""⟩
    [.str "users", .dict [(.str "MATCH", .str "x")]]) 0 with ⟨_ | c, last⟩
  · simp [hrun, Except.toOption] at hsql
  · simp only [hrun, Except.toOption, Option.map_some, Option.some.injEq] at hsql
    refine ⟨c, last, rfl, ?_, rfl, ?_⟩
    · rw [Compiled.text, hsql]
      decide
    · rintro ⟨middle, predicates, clauses, -, -, heq⟩
      rw [hsql] at heq
      obtain ⟨-, hrest⟩ := List.cons.inj heq
      have hlength := congrArg List.length hrest
      cases clauses <;> simp [Sql.join] at hlength <;> omega

end Verb

end QueryLoom
