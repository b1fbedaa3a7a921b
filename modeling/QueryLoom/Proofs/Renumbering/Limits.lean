import QueryLoom.Proofs.Renumbering.History

/-!
Selections that differ in their limit, or in where the counter stands. Such selections are refused with
the same fault, or their rows are shaped by the same column tree: limits that are numbers of rows are
never refused, and a clause before the limit does not see it.
-/

namespace QueryLoom

open Compile

/-! Steps side by side. -/

namespace Compile

variable {α β γ δ : Type} {R : α → β → Prop} {S : γ → δ → Prop}

/-- From each state both steps are refused with the same fault, or give related results, and lead to
the same state. -/
def SideBySide (R : α → β → Prop) (m : Compile α) (n : Compile β) : Prop :=
  ∀ s, ∃ x y u, (ExceptT.run m).run s = (x, u) ∧ (ExceptT.run n).run s = (y, u) ∧
    ((∃ f, x = .error f ∧ y = .error f) ∨ ∃ a b, x = .ok a ∧ y = .ok b ∧ R a b)

theorem SideBySide.pure {a : α} {b : β} (h : R a b) : SideBySide R (Pure.pure a) (Pure.pure b) :=
  fun s => ⟨_, _, s, rfl, rfl, .inr ⟨a, b, rfl, rfl, h⟩⟩

theorem SideBySide.refl {R : α → α → Prop} (m : Compile α) (h : ∀ a, R a a) :
    SideBySide R m m := by
  intro s
  cases hrun : (ExceptT.run m).run s with
  | mk x u =>
      refine ⟨x, x, u, rfl, rfl, ?_⟩
      cases x with
      | error f => exact .inl ⟨f, rfl, rfl⟩
      | ok a => exact .inr ⟨a, a, rfl, rfl, h a⟩

theorem SideBySide.bind {m : Compile α} {n : Compile β} {k : α → Compile γ} {l : β → Compile δ}
    (h : SideBySide R m n) (hk : ∀ a b, R a b → SideBySide S (k a) (l b)) :
    SideBySide S (m >>= k) (n >>= l) := by
  intro s
  obtain ⟨x, y, u, hm, hn, ⟨f, rfl, rfl⟩ | ⟨a, b, rfl, rfl, hab⟩⟩ := h s
  · simp only [ExceptT.run_bind, StateT.run_bind, hm, hn]
    exact ⟨_, _, u, rfl, rfl, .inl ⟨f, rfl, rfl⟩⟩
  · simp only [ExceptT.run_bind, StateT.run_bind, hm, hn]
    exact hk a b hab u

/-- What goes on in two ways from the result of one step. -/
theorem SideBySide.bind_same {m : Compile α} {k : α → Compile γ} {l : α → Compile δ}
    (hk : ∀ a, SideBySide S (k a) (l a)) : SideBySide S (m >>= k) (m >>= l) :=
  (SideBySide.refl (R := Eq) m fun _ => rfl).bind fun a b hab => by
    subst hab
    exact hk a

end Compile

/-! Entries next to the limit. -/

theorem Assoc.erase_insert {κ ν : Type} [BEq κ] {key : κ} (hkey : (key == key) = true) (value : ν)
    (entries : List (κ × ν)) : erase key (insert key value entries) = erase key entries := by
  unfold erase
  induction entries with
  | nil => simp [insert, hkey]
  | cons entry rest ih =>
      obtain ⟨k, v⟩ := entry
      rw [insert]
      split_ifs with hk
      · rw [List.filter_cons_of_neg (by simp [hk]), List.filter_cons_of_neg (by simp [hk])]
      · rw [List.filter_cons, List.filter_cons, ih]

namespace Dict

theorem getD_insert_self (entries : Dict) (key : String) (v : Value) :
    getD (Assoc.insert (.str key) v entries) key = v := by
  induction entries with
  | nil => rw [Assoc.insert, getD_cons, if_pos (by rw [Value.str_beq_str, beq_self_eq_true])]
  | cons entry rest ih =>
      obtain ⟨k, w⟩ := entry
      rw [Assoc.insert]
      split_ifs with hk
      · rw [getD_cons, if_pos hk]
      · rw [getD_cons, if_neg hk, ih]

theorem getD_erase (entries : Dict) (key name : String) :
    getD (Assoc.erase (.str key) entries) name =
      if key = name then .null else getD entries name := by
  induction entries with
  | nil =>
      have hempty : getD [] name = .null := rfl
      rw [Assoc.erase, List.filter_nil, hempty, ite_self]
  | cons entry rest ih =>
      obtain ⟨k, w⟩ := entry
      rw [Assoc.erase] at ih ⊢
      by_cases hk : (k == Value.str key) = true
      · rw [List.filter_cons_of_neg (by simpa using hk), ih, getD_cons, Value.eq_str_of_beq hk,
          Value.str_beq_str]
        simp only [beq_iff_eq]
        split_ifs <;> rfl
      · rw [List.filter_cons_of_pos (by simpa using hk), getD_cons, getD_cons, ih]
        by_cases hname : (k == Value.str name) = true
        · have hne : key ≠ name := fun heq => hk (by rw [heq]; exact hname)
          rw [if_pos hname, if_pos hname, if_neg hne]
        · rw [if_neg hname, if_neg hname]

end Dict

namespace Tail

variable {key : String} {entries others : Dict} {t : Target}

theorem conditionEntries_erase (h : key ∈ reservedKeys) (entries : Dict) :
    conditionEntries (Assoc.erase (.str key) entries) = conditionEntries entries := by
  have hreserved : isReserved (.str key) = true := by simpa [isReserved] using h
  unfold conditionEntries Assoc.erase
  rw [List.filter_filter]
  refine List.filter_congr fun entry _ => ?_
  by_cases hk : (entry.1 == Value.str key) = true
  · simp [Value.eq_str_of_beq hk, hreserved]
  · simp [hk]

/-- The clause of a limit is not refused. -/
def Accepted (v : Value) : Prop := v = .null ∨ ∃ sql, limit v = pure sql

theorem limit_chunk (passed taken : Nat) :
    limit (.list [.int passed, .int taken]) = (do
      Compile.requireText (.list [.int passed, .int taken])
      return [.text ("LIMIT " ++ toString taken ++ " OFFSET " ++ toString passed)]) := by
  simp [limit, count?]

theorem accepted_chunk {passed taken : Nat}
    (h : (Value.list [.int passed, .int taken]).hasText = true) :
    Accepted (.list [.int passed, .int taken]) := by
  refine .inr ⟨[.text ("LIMIT " ++ toString taken ++ " OFFSET " ++ toString passed)], ?_⟩
  rw [limit_chunk, Compile.requireText_of_hasText h, pure_bind]

/-- What goes on after the clause of an accepted limit. -/
theorem limit_of_accepted {α : Type} (v : Value) (k : List Sql → Compile α) :
    Accepted v → ∃ rows, (match v with
      | .null => do
          let limit ← pure []
          k limit
      | v => do
          let sql ← limit v
          let limit ← pure [sql]
          k limit) = k rows := by
  intro h
  split
  · exact ⟨[], pure_bind _ _⟩
  · rename_i hnull
    obtain rfl | ⟨sql, hsql⟩ := h
    · exact absurd rfl hnull
    · exact ⟨[sql], by rw [hsql, pure_bind, pure_bind]⟩

/-- Ends of statements that differ in accepted limits only. -/
theorem compile_sideBySide (hconditions : conditionEntries entries = conditionEntries others)
    (hclauses : ∀ key ∈ [groupKey, havingKey, orderKey],
      Dict.getD entries key = Dict.getD others key)
    (hentries : Accepted (Dict.getD entries limitKey))
    (hothers : Accepted (Dict.getD others limitKey)) :
    SideBySide (fun _ _ => True) (compile t (.dict entries)) (compile t (.dict others)) := by
  simp only [List.mem_cons, List.not_mem_nil, or_false, forall_eq_or_imp, forall_eq] at hclauses
  obtain ⟨hgroup, hhaving, horder⟩ := hclauses
  unfold compile
  dsimp only
  rw [hconditions, hgroup, hhaving, horder]
  refine .bind_same fun filter => .bind_same fun group => .bind_same fun having =>
    .bind_same fun order => ?_
  let k (limit : List Sql) : Compile Sql :=
    pure (Sql.join " " (filter ++ group ++ having ++ order ++ limit))
  obtain ⟨rows, hrows⟩ := limit_of_accepted _ k hentries
  obtain ⟨rest, hrest⟩ := limit_of_accepted _ k hothers
  have hpure : SideBySide (fun _ _ => True) (k rows) (k rest) := .pure trivial
  rw [← hrows, ← hrest] at hpure
  exact hpure

/-- Without entries there is no end. -/
theorem compile_nil : compile t (.dict []) = compile t .null := rfl

end Tail

namespace Statement

variable {t : Target} {table columns wheres others join : Value} {entries : Dict}

theorem selectFrom_sideBySide {head : Sql}
    (h : SideBySide (fun _ _ => True) (Tail.compile t wheres) (Tail.compile t others)) :
    SideBySide (fun _ _ => True) (selectFrom t head table wheres join)
      (selectFrom t head table others join) := by
  rw [selectFrom_eq, selectFrom_eq]
  refine .bind_same fun ref => .bind_same fun tableSql => .bind_same fun sql => ?_
  exact h.bind fun _ _ _ => .pure trivial

theorem select_sideBySide
    (h : SideBySide (fun _ _ => True) (Tail.compile t wheres) (Tail.compile t others)) :
    SideBySide (fun c d => c.columns = d.columns) (select t table columns wheres join)
      (select t table columns others join) := by
  refine .bind_same fun tree => .bind_same fun projection => ?_
  exact (selectFrom_sideBySide h).bind fun _ _ _ s => ⟨_, _, s, rfl, rfl, .inr ⟨_, _, rfl, rfl, rfl⟩⟩

/-- The fault that refuses a statement, or the column tree of its rows. -/
def verdict (step : Compile Compiled) (next : Nat) : Except Fault (Option ColumnTree) :=
  (run step next).1.map Compiled.columns

theorem verdict_eq_of_sideBySide {m m' : Compile Compiled}
    (h : SideBySide (fun c d => c.columns = d.columns) m m') (n : Nat) :
    verdict m n = verdict m' n := by
  obtain ⟨x, y, u, hm, hm', ⟨f, rfl, rfl⟩ | ⟨c, d, rfl, rfl, hcolumns⟩⟩ := h (Parameters.start n)
  · rw [verdict, verdict, run, run, hm, hm']
  · rw [verdict, verdict, run, run, hm, hm']
    exact congrArg Except.ok hcolumns

/-- Names that raw values bring are none that the counter gives. -/
def KeepsApart (v : Value) : Prop := v.BringsOnly fun name => Parameters.number? name = none

theorem verdict_eq_of_follows {m : Compile Compiled}
    (h : ∀ φ : Renumbering, (∀ name, Parameters.number? name = none → φ.Brought name) →
      φ.Follows φ.compiled m m) (n : Nat) : verdict m n = verdict m 0 := by
  rw [verdict, (Request.run_of_follows (fun _ hname => hname) h n).1, verdict]
  cases (run m 0).1 <;> rfl

/-- Where the counter stands says nothing about whether a selection is refused. -/
theorem verdict_select (hcolumns : KeepsApart columns) (hwheres : KeepsApart wheres) (n : Nat) :
    verdict (select t table columns wheres join) n =
      verdict (select t table columns wheres join) 0 :=
  verdict_eq_of_follows (fun _ hbrought => follows_select _ _
    (fun name hname => hbrought name (hcolumns name hname))
    (fun name hname => hbrought name (hwheres name hname))) n

theorem verdict_aggregate {function column : Value} (hcolumn : KeepsApart column)
    (hwheres : KeepsApart wheres) (n : Nat) :
    verdict (aggregate t function table column wheres join) n =
      verdict (aggregate t function table column wheres join) 0 :=
  verdict_eq_of_follows (fun _ hbrought => follows_aggregate _ _ _
    (fun name hname => hbrought name (hcolumn name hname))
    (fun name hname => hbrought name (hwheres name hname))) n

/-! Selections whose limit is given, or replaced. -/

/-- The entries of a where-specification; none if there is no specification. -/
def entriesOf : Value → Dict
  | .dict entries => entries
  | _ => []

/-- The limit of a where-specification; null if it has none. -/
def limitOf (wheres : Value) : Value := Dict.getD (entriesOf wheres) Tail.limitKey

/-- A where-specification with a limit, which replaces the one that it has. -/
def withLimit (limit wheres : Value) : Value :=
  .dict (Assoc.insert (.str Tail.limitKey) limit (entriesOf wheres))

/-- A where-specification, if there is one, is a dictionary. -/
def IsWheres (wheres : Value) : Prop := wheres = .null ∨ ∃ entries, wheres = .dict entries

theorem limitOf_withLimit (limit wheres : Value) : limitOf (withLimit limit wheres) = limit :=
  Dict.getD_insert_self _ _ _

theorem KeepsApart.entriesOf (h : KeepsApart wheres) : KeepsApart (.dict (entriesOf wheres)) := by
  cases wheres with
  | dict entries => exact h
  | _ => exact Value.bringsOnly_dict.mpr fun _ hentry => by cases hentry

/-- Numbers of rows bring no parameters. -/
theorem keepsApart_withLimit {limit : Value} (hlimit : limit.rawFree = true) (h : KeepsApart wheres) :
    KeepsApart (withLimit limit wheres) := by
  refine Value.bringsOnly_dict.mpr fun entry hentry => ?_
  have hkey : (Value.str Tail.limitKey == Value.str Tail.limitKey) = true := by
    rw [Value.str_beq_str, beq_self_eq_true]
  rcases Assoc.mem_of_mem_insert hkey hentry with ⟨k, _, rfl⟩ | hold
  · exact .of_rawFree hlimit
  · exact Value.bringsOnly_dict.mp h.entriesOf entry hold

theorem compile_entriesOf (h : IsWheres wheres) :
    Tail.compile t (.dict (entriesOf wheres)) = Tail.compile t wheres := by
  obtain rfl | ⟨entries, rfl⟩ := h
  · exact Tail.compile_nil
  · rfl

/-- The clauses before the limit do not see that the limit is left out. -/
theorem compile_withoutLimit_sideBySide (h : Tail.Accepted (Dict.getD entries Tail.limitKey)) :
    SideBySide (fun _ _ => True) (Tail.compile t (.dict entries))
      (Tail.compile t (withoutLimit (.dict entries))) := by
  have hclauses : ∀ key ∈ [Tail.groupKey, Tail.havingKey, Tail.orderKey],
      Dict.getD entries key = Dict.getD (Assoc.erase (.str Tail.limitKey) entries) key := by
    intro key hkey
    rw [Dict.getD_erase, if_neg]
    rintro rfl
    exact absurd hkey (by decide)
  have hconditions :
      Tail.conditionEntries (Assoc.erase (.str Tail.limitKey) entries) =
        Tail.conditionEntries entries := Tail.conditionEntries_erase (by decide) entries
  refine Tail.compile_sideBySide hconditions.symm hclauses h (.inl ?_)
  rw [Dict.getD_erase, if_pos rfl]

theorem withoutLimit_withLimit (limit wheres : Value) :
    withoutLimit (withLimit limit wheres) = withoutLimit (.dict (entriesOf wheres)) := by
  have hkey : (Value.str Tail.limitKey == Value.str Tail.limitKey) = true := by
    rw [Value.str_beq_str, beq_self_eq_true]
  exact congrArg Value.dict (Assoc.erase_insert hkey limit _)

/-- Selections whose limits are accepted are refused with the same fault, or have the same column
tree, wherever the counter stands: as the selection without a limit. -/
theorem verdict_of_accepted (hcolumns : KeepsApart columns) (hwheres : KeepsApart wheres)
    (h : IsWheres wheres) (hlimit : Tail.Accepted (limitOf wheres)) (n : Nat) :
    verdict (select t table columns wheres join) n =
      verdict (select t table columns (withoutLimit (.dict (entriesOf wheres))) join) 0 := by
  have hrest := compile_withoutLimit_sideBySide (t := t) hlimit
  rw [compile_entriesOf h] at hrest
  rw [verdict_select hcolumns hwheres, verdict_eq_of_sideBySide (select_sideBySide hrest)]

end Statement

end QueryLoom
