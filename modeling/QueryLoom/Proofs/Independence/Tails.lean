import QueryLoom.Proofs.Independence.Conditions
import QueryLoom.Proofs.Independence.Steady

/-!
The ends of statements. Tails of one shape have conditions of one shape, in HAVING as well, and the
same groups, orders and limits; they give the same SQL.
-/

namespace QueryLoom

open Compile Conditions

variable {t : Target}

theorem Dict.getD_cons (key v : Value) (rest : Dict) (name : String) :
    Dict.getD ((key, v) :: rest) name =
      if key == Value.str name then v else Dict.getD rest name := by
  unfold Dict.getD Dict.get?
  rw [Assoc.get?]
  split_ifs <;> rfl

namespace Tail

/-- What may stand under a reserved key: conditions of one shape under HAVING, and otherwise the same
value, save under keys that are not read. -/
inductive AlikeClause (name : String) : Value → Value → Prop
  | having {v w : Value} (hname : name = havingKey) (hv : AlikeConditions v w) : AlikeClause name v w
  | same {v : Value} (hname : name ≠ havingKey) : AlikeClause name v v
  | unread {v w : Value} (hname : name = "LIKE" ∨ name = "MATCH") : AlikeClause name v w

/-- Entries of tails of one shape. -/
inductive AlikeTailEntries : Dict → Dict → Prop
  | nil : AlikeTailEntries [] []
  | condition {key v w : Value} {rest others : Dict} (hkey : isReserved key = false)
      (hv : AlikeEntry key v w) (h : AlikeTailEntries rest others) :
      AlikeTailEntries ((key, v) :: rest) ((key, w) :: others)
  | clause {name : String} {v w : Value} {rest others : Dict} (hname : name ∈ reservedKeys)
      (hv : AlikeClause name v w) (h : AlikeTailEntries rest others) :
      AlikeTailEntries ((.str name, v) :: rest) ((.str name, w) :: others)

/-- Tails of one shape. -/
inductive AlikeTails : Value → Value → Prop
  | dict {entries others : Dict} (h : AlikeTailEntries entries others) :
      AlikeTails (.dict entries) (.dict others)
  | same {v : Value} (hdict : v.isDict = false) : AlikeTails v v

theorem isReserved_str {name : String} (h : name ∈ reservedKeys) : isReserved (.str name) = true := by
  rw [isReserved, List.contains_iff_mem]
  exact h

/-- A key that is not reserved is not found under a reserved name. -/
theorem beq_reserved {key : Value} {name : String} (hkey : isReserved key = false)
    (hname : name ∈ reservedKeys) : (key == Value.str name) = false := by
  cases hbeq : key == Value.str name with
  | false => rfl
  | true =>
      rw [Value.eq_str_of_beq hbeq, isReserved_str hname] at hkey
      cases hkey

theorem AlikeTailEntries.conditions {entries others : Dict} (h : AlikeTailEntries entries others) :
    AlikeConditionEntries (conditionEntries entries) (conditionEntries others) := by
  induction h with
  | nil => exact .nil
  | condition hkey hv _ ih =>
      simp only [conditionEntries, List.filter_cons, hkey, Bool.not_false, ↓reduceIte]
      exact .cons hv ih
  | clause hname _ _ ih =>
      simp only [conditionEntries, List.filter_cons, isReserved_str hname, Bool.not_true,
        Bool.false_eq_true, ↓reduceIte]
      exact ih

/-- Under a reserved key both tails hold alike values. -/
theorem AlikeTailEntries.getD {entries others : Dict} (h : AlikeTailEntries entries others)
    {name : String} (hname : name ∈ reservedKeys) :
    AlikeClause name (Dict.getD entries name) (Dict.getD others name) := by
  induction h with
  | nil =>
      by_cases hhaving : name = havingKey
      · have hnull : AlikeConditions .null .null := .same rfl (by simp)
        exact .having hhaving hnull
      · exact .same hhaving
  | condition hkey _ _ ih =>
      rw [Dict.getD_cons, Dict.getD_cons, beq_reserved hkey hname]
      exact ih
  | clause _ hv _ ih =>
      rw [Dict.getD_cons, Dict.getD_cons, Value.str_beq_str]
      split_ifs with heq
      · rw [beq_iff_eq] at heq
        rw [← heq]
        exact hv
      · exact ih

theorem AlikeTailEntries.getD_same {entries others : Dict} (h : AlikeTailEntries entries others)
    (name : String) (hname : name ∈ [groupKey, orderKey, limitKey]) :
    Dict.getD entries name = Dict.getD others name := by
  have hreserved : name ∈ reservedKeys := by
    simp only [reservedKeys, List.mem_cons, List.not_mem_nil, or_false] at hname ⊢
    tauto
  have hclause := h.getD hreserved
  generalize Dict.getD entries name = v at hclause ⊢
  generalize Dict.getD others name = w at hclause ⊢
  cases hclause with
  | having hhaving _ =>
      subst hhaving
      exact absurd hname (by decide)
  | same _ => rfl
  | unread hunread =>
      rcases hunread with rfl | rfl
      · exact absurd hname (by decide)
      · exact absurd hname (by decide)

theorem AlikeTailEntries.having {entries others : Dict} (h : AlikeTailEntries entries others) :
    AlikeConditions (Dict.getD entries havingKey) (Dict.getD others havingKey) := by
  have hreserved : havingKey ∈ reservedKeys := by decide
  have hclause := h.getD hreserved
  generalize Dict.getD entries havingKey = v at hclause ⊢
  generalize Dict.getD others havingKey = w at hclause ⊢
  cases hclause with
  | having _ hv => exact hv
  | same hne => exact absurd rfl hne
  | unread hunread => exact absurd hunread (by decide)

theorem agree_whenTruthy {v w : Value} {body other : Value → Compile Sql} (keyword : String)
    (htruthy : v.truthy = w.truthy) (hbody : Agree Eq (body v) (other w)) :
    Agree Eq (whenTruthy v keyword body) (whenTruthy w keyword other) := by
  unfold whenTruthy
  rw [htruthy]
  split_ifs
  · exact agree_map hbody _
  · exact steady_pure []

theorem truthy_of_alike {v w : Value} (h : AlikeConditions v w) : v.truthy = w.truthy := by
  cases h with
  | dict h => cases h <;> rfl
  | list h => cases h <;> rfl
  | same _ _ => rfl

theorem agree_having {v w : Value} (h : AlikeConditions v w) :
    Agree Eq (having t v) (having t w) := by
  have hcompile := Conditions.agree_compile (p := ⟨t, .having⟩) h .and
  cases h with
  | dict h => exact hcompile
  | list h => exact hcompile
  | same _ _ =>
      cases v with
      | raw sql parameters => exact steady_splice _ _ _
      | _ => exact hcompile

/-- Tails of one shape give the same SQL. -/
theorem agree_compile {v w : Value} (h : AlikeTails v w) :
    Agree Eq (compile t v) (compile t w) := by
  cases h with
  | dict h =>
      have hconditions : AlikeConditions _ _ := .dict h.conditions
      have hhaving := h.having
      have hgroup := h.getD_same groupKey (by decide)
      have horder := h.getD_same orderKey (by decide)
      have hlimit := h.getD_same limitKey (by decide)
      rw [compile, compile, hgroup, horder, hlimit]
      refine (agree_whenTruthy _ (truthy_of_alike hconditions)
        (Conditions.agree_compile hconditions _)).bind_eq fun filter => ?_
      refine (agree_whenTruthy _ rfl (steady_group _)).bind_eq fun groupBy => ?_
      refine (agree_whenTruthy _ (truthy_of_alike hhaving) (agree_having hhaving)).bind_eq
        fun having => ?_
      refine (agree_whenTruthy _ rfl (steady_order _)).bind_eq fun orderBy => ?_
      dsimp only
      split
      · exact steady_pure _
      · exact steady_bind (steady_limit _) fun _ => steady_pure _
  | same hdict =>
      cases v with
      | null => exact steady_pure []
      | raw sql parameters => exact steady_splice _ _ _
      | dict entries => cases hdict
      | _ => exact .throw_left

theorem AlikeTailEntries.erase {entries others : Dict} (h : AlikeTailEntries entries others)
    (key : Value) : AlikeTailEntries (Assoc.erase key entries) (Assoc.erase key others) := by
  induction h with
  | nil => exact .nil
  | condition hkey hv _ ih =>
      simp only [Assoc.erase, List.filter_cons] at ih ⊢
      split_ifs
      · exact .condition hkey hv ih
      · exact ih
  | clause hname hv _ ih =>
      simp only [Assoc.erase, List.filter_cons] at ih ⊢
      split_ifs
      · exact .clause hname hv ih
      · exact ih

theorem AlikeTailEntries.insert_order {entries others : Dict} (h : AlikeTailEntries entries others)
    (order : Value) :
    AlikeTailEntries (Assoc.insert (Value.str orderKey) order entries)
      (Assoc.insert (Value.str orderKey) order others) := by
  have horder : orderKey ∈ reservedKeys := by decide
  induction h with
  | nil => exact .clause horder (.same (by decide)) .nil
  | condition hkey hv h ih =>
      rw [Assoc.insert, Assoc.insert, beq_reserved hkey horder]
      exact .condition hkey hv ih
  | clause hname hv h ih =>
      rw [Assoc.insert, Assoc.insert, Value.str_beq_str]
      split_ifs with heq
      · rw [beq_iff_eq] at heq
        exact .clause hname (.same (by rw [heq]; decide)) h
      · exact .clause hname hv ih

end Tail

end QueryLoom
