import QueryLoom.Proofs.Bindings.Collisions
import QueryLoom.Proofs.Statement.DataKeys

/-!
The assignments of an update. Every entry of the data becomes one assignment, and they stand in the
order of the data. Under a key with an arithmetic suffix the column is computed from itself and a
number, and a value that is no number is refused; under any other key the value is assigned. Raw values
stand outside of this: they are assigned as they are, whatever the suffix of their key.
-/

namespace QueryLoom

open Compile

variable {t : Target} {s u : Parameters} {v : Value}

/-! Values that are bound. -/

/-- A placeholder, and that the value or one that equals it is bound under its name. -/
def Carries (params : List (String × Value)) (sql : Sql) (v : Value) : Prop :=
  ∃ name w, sql = [.param name] ∧ Assoc.get? name params = some w ∧ w.StandsFor v

/-- A placeholder still carries its value after a step that binds what its input asks for. -/
theorem Carries.after {α : Type} {m : Compile α} {xs : List Supply} {a : α} {sql : Sql}
    (hv : v.isFlat = true) (h : Carries s.bound sql v) (hmakes : Makes m xs)
    (hm : m.Yields s a u) : Carries u.bound sql v := by
  obtain ⟨name, w, rfl, hget, hw⟩ := h
  obtain ⟨w', hget', hw'⟩ := hmakes.standsFor hm hv hget hw
  exact ⟨name, w', rfl, hget', hw'⟩

theorem carries_bindValue {sql : Sql} (h : (bindValue v).Yields s sql u) : Carries u.bound sql v := by
  obtain ⟨rfl, rfl⟩ := yields_bindValue h
  refine ⟨_, v, rfl, ?_, .inl rfl⟩
  change Assoc.get? _ (Assoc.insert _ v s.bound) = _
  rw [Assoc.get?_insert, if_pos rfl]

namespace Statement

/-! Values that are stored. -/

/-- What is stored for a value under a data key: a JSON text under a key for JSON and for containers, the
text `1` or `0` for a truth value, and any other value itself. -/
inductive Stored (key : DataKey) : Value → Value → Prop
  | json {v : Value} {text : String} (h : key.isJson = true ∨ v.isFlat = false)
      (hwrite : Json.write .line v = .ok text) : Stored key v (.str text)
  | bool {b : Bool} (h : key.isJson = false) : Stored key (.bool b) (.str (if b then "1" else "0"))
  | itself {v : Value} (h : key.isJson = false) (hflat : v.isFlat = true)
      (hbool : ∀ b, v ≠ .bool b) : Stored key v v

theorem storedValue_text {json : Bool} (h : json = true ∨ v.isFlat = false) :
    storedValue json v = (Json.write .line v).map .str := by
  rcases h with rfl | hflat
  · cases v <;> rfl
  · cases v with
    | list items => rfl
    | dict entries => rfl
    | _ => cases hflat

theorem stored_iff {key : DataKey} {stored : Value} :
    Stored key v stored ↔ storedValue key.isJson v = .ok stored := by
  constructor
  · intro h
    cases h with
    | json h hwrite =>
        rw [storedValue_text h, hwrite]
        rfl
    | bool h =>
        rw [h]
        rfl
    | itself h hflat hbool =>
        rw [h]
        cases v with
        | bool b => exact absurd rfl (hbool b)
        | list items => cases hflat
        | dict entries => cases hflat
        | _ => rfl
  · intro h
    by_cases htext : key.isJson = true ∨ v.isFlat = false
    · rw [storedValue_text htext] at h
      cases hwrite : Json.write .line v with
      | error fault =>
          rw [hwrite] at h
          cases h
      | ok text =>
          rw [hwrite] at h
          cases h
          exact .json htext hwrite
    · rw [not_or, Bool.not_eq_true, Bool.not_eq_false] at htext
      obtain ⟨hkey, hflat⟩ := htext
      rw [hkey] at h
      cases v with
      | list items => cases hflat
      | dict entries => cases hflat
      | bool b =>
          obtain rfl := Except.ok.inj h
          exact .bool hkey
      | _ =>
          obtain rfl := Except.ok.inj h
          exact .itself hkey rfl fun b hb => by cases hb

/-- What is stored holds no other values: containers are stored as texts. -/
theorem Stored.isFlat {key : DataKey} {stored : Value} (h : Stored key v stored) :
    stored.isFlat = true := by
  cases h with
  | json h hwrite => rfl
  | bool h => rfl
  | itself h hflat hbool => exact hflat

/-! Assignments. -/

/-- What an entry without an arithmetic suffix assigns: a raw value as its text, any other value as a
placeholder for what is stored. -/
inductive Operand (t : Target) (params : List (String × Value)) (key : DataKey) : Value → Sql → Prop
  | raw (sql : String) (parameters : Dict) :
      Operand t params key (.raw sql parameters) [.fragment (Fragment.expand t.tablePrefix sql)]
  | stored {v stored : Value} {sql : Sql} (hraw : v.isRaw = false)
      (hstored : storedValue key.isJson v = .ok stored) (h : Carries params sql stored) :
      Operand t params key v sql

/-- The assignment of an entry: under an arithmetic suffix the column is computed from itself and a
number, without one it receives the operand. -/
def Assigned (t : Target) (params : List (String × Value)) (entry : Value × Value) (set : Sql) :
    Prop :=
  ∃ key column operand, Key.dataKey entry.1 = .ok key ∧
    Identifier.column t.tablePrefix key.column = .ok column ∧
    match key.operator? with
    | some operator =>
        isNumber entry.2 = true ∧ Carries params operand entry.2 ∧
          set = column ++ .text " = " :: column ++ .text (" " ++ operator.text ++ " ") :: operand
    | none => Operand t params key entry.2 operand ∧ set = column ++ .text " = " :: operand

/-- The operator in the suffix of a key, if the key is one of data. -/
def suffix? (key : Value) : Option UpdateOperator :=
  match Key.dataKey key with
  | .ok parsed => parsed.operator?
  | .error _ => none

/-- Whether a raw value stands under a key with an arithmetic suffix. -/
def overwrites (entry : Value × Value) : Bool := (suffix? entry.1).isSome && entry.2.isRaw

theorem isFlat_of_isNumber (h : isNumber v = true) : v.isFlat = true := by
  cases v with
  | list items => cases h
  | dict entries => cases h
  | _ => rfl

theorem Operand.after {α : Type} {m : Compile α} {xs : List Supply} {a : α} {key : DataKey}
    {sql : Sql} (h : Operand t s.bound key v sql) (hmakes : Makes m xs) (hm : m.Yields s a u) :
    Operand t u.bound key v sql := by
  cases h with
  | raw sql parameters => exact .raw sql parameters
  | stored hraw hstored h =>
      exact .stored hraw hstored (h.after (stored_iff.mpr hstored).isFlat hmakes hm)

theorem Assigned.after {α : Type} {m : Compile α} {xs : List Supply} {a : α}
    {entry : Value × Value} {set : Sql} (h : Assigned t s.bound entry set) (hmakes : Makes m xs)
    (hm : m.Yields s a u) : Assigned t u.bound entry set := by
  obtain ⟨key, column, operand, hkey, hcolumn, h⟩ := h
  refine ⟨key, column, operand, hkey, hcolumn, ?_⟩
  split at h
  · obtain ⟨hnumber, hcarries, hset⟩ := h
    exact ⟨hnumber, hcarries.after (isFlat_of_isNumber hnumber) hmakes hm, hset⟩
  · exact ⟨h.1.after hmakes hm, h.2⟩

/-- One entry: unless a raw value stands under an arithmetic suffix, the assignment is of its form. -/
theorem assigned_assignment {key : Value} {set : Sql} (hraw : overwrites (key, v) = false)
    (h : (assignment t key v).Yields s set u) : Assigned t u.bound (key, v) set := by
  simp only [assignment, Target.column, yields_bind, yields_lift] at h
  obtain ⟨parsed, _, ⟨hparsed, rfl⟩, column, _, ⟨hcolumn, rfl⟩, h⟩ := h
  refine ⟨parsed, column, ?_⟩
  split at h
  · next sql parameters =>
      have hplain : parsed.operator? = none := by
        simpa [overwrites, suffix?, hparsed, Value.isRaw] using hraw
      simp only [Target.splice, Compile.splice, yields_bind, yields_pure] at h
      obtain ⟨_, _, ⟨_, _, _, rfl, rfl⟩, rfl, rfl⟩ := h
      refine ⟨[.fragment (Fragment.expand t.tablePrefix sql)], hparsed, hcolumn, ?_⟩
      rw [hplain]
      exact ⟨.raw sql parameters, rfl⟩
  · next operator hvalue hoperator =>
      split_ifs at h with hnumber
      · simp at h
      · simp only [yields_bind, yields_pure] at h
        obtain ⟨operand, _, hbind, rfl, rfl⟩ := h
        refine ⟨operand, hparsed, hcolumn, ?_⟩
        rw [hoperator]
        exact ⟨by simpa using hnumber, carries_bindValue hbind, rfl⟩
  · next v _ _ hvalue hoperator =>
      simp only [yields_bind, yields_lift, yields_pure] at h
      obtain ⟨stored, _, ⟨hstored, rfl⟩, operand, _, hbind, rfl, rfl⟩ := h
      have hnot : v.isRaw = false := by
        cases v with
        | raw sql parameters => exact absurd rfl (hvalue sql parameters)
        | _ => rfl
      refine ⟨operand, hparsed, hcolumn, ?_⟩
      rw [hoperator]
      exact ⟨.stored hnot hstored (carries_bindValue hbind), rfl⟩

/-- The assignments stand in the order of the entries. -/
theorem assigned_assignments {entries : Dict} {sets : List Sql}
    (h : (assignments t entries).Yields s sets u) :
    List.Forall₂ (fun entry set => overwrites entry = false → Assigned t u.bound entry set)
      entries sets := by
  induction entries generalizing s sets with
  | nil =>
      rw [assignments, yields_pure] at h
      rw [h.1]
      exact .nil
  | cons entry rest ih =>
      obtain ⟨key, v⟩ := entry
      simp only [assignments, yields_bind, yields_pure] at h
      obtain ⟨first, _, hfirst, more, _, hmore, rfl, rfl⟩ := h
      refine .cons (fun hraw => ?_) (ih hmore)
      exact (assigned_assignment hraw hfirst).after (makes_assignments rest) hmore

/-- A bind fails by the fault of its first part. -/
theorem run_bind_error {α β : Type} {m : Compile α} {k : α → Compile β} {fault : Fault}
    (h : ((ExceptT.run m).run s).1 = .error fault) :
    ((ExceptT.run (m >>= k)).run s).1 = .error fault := by
  rw [ExceptT.run_bind, StateT.run_bind]
  rcases hrun : (ExceptT.run m).run s with ⟨_ | _, _⟩
  · rw [hrun] at h
    cases h
    rfl
  · rw [hrun] at h
    cases h

/-- A value that is no number is refused under an arithmetic suffix. -/
theorem run_assignment_refused {key : Value} {operator : UpdateOperator}
    (hkey : suffix? key = some operator) (hraw : v.isRaw = false) (hnumber : isNumber v = false) :
    ((ExceptT.run (assignment t key v)).run s).1 =
      .error (.malformedColumn key .arithmeticNeedsNumber .set) := by
  unfold suffix? at hkey
  split at hkey
  · next parsed hparsed =>
      obtain ⟨column, hcolumn⟩ := Key.column_of_dataKey hparsed t.tablePrefix
      rw [assignment_eq hraw, hparsed]
      change ((ExceptT.run (do
        let column ← t.column parsed.column
        assigned key column parsed v)).run s).1 = _
      rw [Target.column, hcolumn]
      change ((ExceptT.run (assigned key column parsed v)).run s).1 = _
      unfold assigned
      rw [hkey]
      simp only [hnumber, Bool.not_false, if_true]
      obtain ⟨name, rfl⟩ := Key.exists_str_of_dataKey hparsed
      rfl
  · cases hkey

/-- Where the entries before it can be assigned, the fault is the one for the value. -/
theorem run_assignments_refused {before after : Dict} {key : Value} {operator : UpdateOperator}
    {sets : List Sql} (hkey : suffix? key = some operator) (hraw : v.isRaw = false)
    (hnumber : isNumber v = false) (h : (assignments t before).Yields s sets u) :
    ((ExceptT.run (assignments t (before ++ (key, v) :: after))).run s).1 =
      .error (.malformedColumn key .arithmeticNeedsNumber .set) := by
  induction before generalizing s sets with
  | nil =>
      exact run_bind_error (run_assignment_refused hkey hraw hnumber)
  | cons entry rest ih =>
      simp only [assignments, yields_bind, yields_pure] at h
      obtain ⟨first, w, hfirst, more, _, hmore, -, rfl⟩ := h
      rw [List.cons_append, assignments, ExceptT.run_bind, StateT.run_bind, hfirst.run]
      exact run_bind_error (ih hmore)

theorem update_eq {table wheres : Value} {entries : Dict} (h : entries ≠ []) :
    update t table (.dict entries) wheres = (do
      let sets ← assignments t entries
      updateOf t table sets wheres) := by
  cases entries with
  | nil => exact absurd rfl h
  | cons entry rest => rfl

/-- An update that compiles has one assignment for each entry. -/
theorem assigned_update {table wheres : Value} {entries : Dict} {c : Compiled}
    (h : (update t table (.dict entries) wheres).Yields s c u) :
    ∃ tableSql sets tail, Identifier.table t.tablePrefix table = .ok tableSql ∧
      c.sql = append (.text "UPDATE " :: tableSql ++ .text " SET " :: Sql.join ", " sets) tail ∧
      List.Forall₂ (fun entry set => overwrites entry = false → Assigned t c.params entry set)
        entries sets := by
  have hsome : entries ≠ [] := by
    rintro rfl
    simp [update] at h
  simp only [update_eq hsome, updateOf, finish, Target.table, yields_bind, yields_lift, yields_get,
    yields_pure] at h
  obtain ⟨sets, _, hsets, tableSql, _, ⟨htable, rfl⟩, tail, _, htail, _, _, ⟨rfl, rfl⟩, rfl, -⟩ := h
  refine ⟨tableSql, sets, tail, htable, rfl, (assigned_assignments hsets).imp ?_⟩
  exact fun entry set hset hraw => (hset hraw).after (Tail.makes_compile wheres) htail

/-- An update with a value that is no number under an arithmetic suffix does not compile. -/
theorem update_refused {table wheres key : Value} {before after : Dict} {operator : UpdateOperator}
    {next : Nat} (hkey : suffix? key = some operator) (hraw : v.isRaw = false)
    (hnumber : isNumber v = false) :
    ∃ fault,
      (run (update t table (.dict (before ++ (key, v) :: after)) wheres) next).1 = .error fault := by
  rcases hrun : run (update t table (.dict (before ++ (key, v) :: after)) wheres) next with
    ⟨fault | c, last⟩
  · exact ⟨fault, rfl⟩
  · obtain ⟨u, hyields, -⟩ := yields_of_run hrun
    obtain ⟨-, sets, -, -, -, hsets⟩ := assigned_update hyields
    have hfrom := List.forall₂_drop before.length hsets
    rw [List.drop_left, List.forall₂_cons_left_iff] at hfrom
    obtain ⟨set, -, hset, -, -⟩ := hfrom
    obtain ⟨parsed, column, operand, hparsed, -, h⟩ := hset (by simp [overwrites, hraw])
    have hoperator : parsed.operator? = some operator := by
      simpa [suffix?, hparsed] using hkey
    rw [hoperator] at h
    exact absurd h.1 (by simp [hnumber])

/-- For every target, every counter and every mapping of data: if an update compiles, it has one
assignment for each entry, in the order of the data. A key with an arithmetic suffix gives
`column = column operator placeholder` with one column on both sides and a number bound to the
placeholder, any other key gives `column = operand`; only raw values under an arithmetic suffix are
left out of this. An entry with such a suffix and a value that is neither raw nor a number refuses the
update, by the fault for that value if no entry before it is at fault. -/
theorem arithmetic_keys_compute (t : Target) (next : Nat) (table wheres : Value) (entries : Dict) :
    (∀ c last, run (update t table (.dict entries) wheres) next = (.ok c, last) →
      ∃ tableSql sets tail, Identifier.table t.tablePrefix table = .ok tableSql ∧
        c.sql = append (.text "UPDATE " :: tableSql ++ .text " SET " :: Sql.join ", " sets) tail ∧
        List.Forall₂ (fun entry set => overwrites entry = false → Assigned t c.params entry set)
          entries sets) ∧
    ∀ before key v after operator, entries = before ++ (key, v) :: after →
      suffix? key = some operator → v.isRaw = false → isNumber v = false →
      (∃ fault, (run (update t table (.dict entries) wheres) next).1 = .error fault) ∧
        ∀ sets u, (assignments t before).Yields (.start next) sets u →
          (run (update t table (.dict entries) wheres) next).1 =
            .error (.malformedColumn key .arithmeticNeedsNumber .set) := by
  constructor
  · intro c last hrun
    obtain ⟨u, hyields, -⟩ := yields_of_run hrun
    exact assigned_update hyields
  · rintro before key v after operator rfl hkey hraw hnumber
    refine ⟨update_refused hkey hraw hnumber, fun sets u hsets => ?_⟩
    rw [update_eq (by simp)]
    exact run_bind_error (run_assignments_refused hkey hraw hnumber hsets)

/-- A number is added to a column beside a plain assignment, and a text is refused in its place. -/
theorem arithmetic_keys_compute_of_score :
    (∃ c last,
      run (update ⟨.sqlite, ""⟩ (.str "users")
        (.dict [(.str "name", .str "x"), (.str "score[+]", .int 5)]) (.dict [(.str "id", .int 1)])) 0 =
        (.ok c, last) ∧
      c.text = "UPDATE \"users\" SET \"name\" = :param_0, \"score\" = \"score\" + :param_1 " ++
        "WHERE \"id\" = :param_2" ∧
      ∃ tableSql sets tail, Identifier.table "" (.str "users") = .ok tableSql ∧
        c.sql = append (.text "UPDATE " :: tableSql ++ .text " SET " :: Sql.join ", " sets) tail ∧
        List.Forall₂
          (fun entry set => overwrites entry = false → Assigned ⟨.sqlite, ""⟩ c.params entry set)
          [(.str "name", .str "x"), (.str "score[+]", .int 5)] sets) ∧
    (run (update ⟨.sqlite, ""⟩ (.str "users")
      (.dict [(.str "name", .str "x"), (.str "score[+]", .str "five")]) .null) 0).1 =
      .error (.malformedColumn (.str "score[+]") .arithmeticNeedsNumber .set) := by
  constructor
  · generalize hdata : [(Value.str "name", Value.str "x"), (Value.str "score[+]", Value.int 5)] = data
    have htext : (run (update ⟨.sqlite, ""⟩ (.str "users") (.dict data)
        (.dict [(.str "id", .int 1)])) 0).1.toOption.map Compiled.text =
        some ("UPDATE \"users\" SET \"name\" = :param_0, \"score\" = \"score\" + :param_1 " ++
          "WHERE \"id\" = :param_2") := by
      subst hdata
      decide +kernel
    rcases hrun : run (update ⟨.sqlite, ""⟩ (.str "users") (.dict data)
      (.dict [(.str "id", .int 1)])) 0 with ⟨_ | c, last⟩
    · simp [hrun, Except.toOption] at htext
    · simp only [hrun, Except.toOption, Option.map_some, Option.some.injEq] at htext
      exact ⟨c, last, rfl, htext,
        (arithmetic_keys_compute ⟨.sqlite, ""⟩ 0 _ _ data).1 c last hrun⟩
  · have hbefore : (assignments ⟨.sqlite, ""⟩ [(.str "name", .str "x")]).Yields (.start 0)
        [[.name "name", .text " = ", .param "param_0"]]
        ⟨"param_", 1, [("param_0", .str "x")]⟩ := ⟨rfl⟩
    exact ((arithmetic_keys_compute ⟨.sqlite, ""⟩ 0 (.str "users") .null _).2
      [(.str "name", .str "x")] (.str "score[+]") (.str "five") [] .add rfl (by decide) rfl rfl).2
      _ _ hbefore

/-- A raw value under an arithmetic suffix overwrites the column. -/
theorem raw_value_overwrites_column :
    ∃ c last,
      run (update ⟨.sqlite, ""⟩ (.str "t") (.dict [(.str "n[+]", .raw "5" [])]) .null) 0 =
        (.ok c, last) ∧
      c.text = "UPDATE \"t\" SET \"n\" = 5" ∧ suffix? (.str "n[+]") = some .add ∧
      ¬ ∃ operand tail,
        c.sql = append ([.text "UPDATE ", .name "t", .text " SET ", .name "n", .text " = ", .name "n",
          .text " + "] ++ operand) tail := by
  have hsql : (run (update ⟨.sqlite, ""⟩ (.str "t") (.dict [(.str "n[+]", .raw "5" [])])
      .null) 0).1.toOption.map Compiled.sql =
      some [.text "UPDATE ", .name "t", .text " SET ", .name "n", .text " = ", .fragment "5"] := by
    decide +kernel
  rcases hrun : run (update ⟨.sqlite, ""⟩ (.str "t") (.dict [(.str "n[+]", .raw "5" [])]) .null) 0
    with ⟨_ | c, last⟩
  · simp [hrun, Except.toOption] at hsql
  · simp only [hrun, Except.toOption, Option.map_some, Option.some.injEq] at hsql
    refine ⟨c, last, rfl, ?_, by decide, ?_⟩
    · rw [Compiled.text, hsql]
      decide
    · rintro ⟨operand, tail, heq⟩
      rw [hsql, append] at heq
      split_ifs at heq <;> simp at heq

end Statement

end QueryLoom
