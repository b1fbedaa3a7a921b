import QueryLoom.Proofs.Grammar.Verbs
import QueryLoom.Proofs.Values.Keys

/-!
The order of the entries of a where-specification. A reserved key is looked up, so it does not
matter where it stands; the conditions are compiled in their order, and nothing else of the order is
seen.
-/

namespace QueryLoom

open Statement

variable {t : Target} {entries others : Dict}

/-! Entries that are looked up. -/

namespace Dict

variable {key : String} {v w : Value}

theorem value_unique (h : Assoc.Distinct entries) (hv : (.str key, v) ∈ entries)
    (hw : (.str key, w) ∈ entries) : v = w := by
  have hkey : (Value.str key == Value.str key) = true := by
    rw [Value.str_beq_str, beq_self_eq_true]
  induction entries with
  | nil => cases hv
  | cons entry rest ih =>
      obtain ⟨hfirst, hrest⟩ := List.pairwise_cons.mp h
      rcases List.mem_cons.mp hv with rfl | hvrest
      · rcases List.mem_cons.mp hw with heq | hwrest
        · cases heq
          rfl
        · exact absurd hkey (hfirst (.str key, w) hwrest)
      · rcases List.mem_cons.mp hw with rfl | hwrest
        · exact absurd hkey (hfirst (.str key, v) hvrest)
        · exact ih hrest hvrest hwrest

theorem get?_of_mem (h : (.str key, v) ∈ entries) : ∃ w, Dict.get? entries key = some w := by
  have hkey : (Value.str key == Value.str key) = true := by
    rw [Value.str_beq_str, beq_self_eq_true]
  unfold Dict.get?
  induction entries with
  | nil => cases h
  | cons entry rest ih =>
      obtain ⟨k, w⟩ := entry
      rw [Assoc.get?]
      split_ifs with hk
      · exact ⟨w, rfl⟩
      · rcases List.mem_cons.mp h with heq | hrest
        · cases heq
          exact absurd hkey hk
        · exact ih hrest

/-- Of distinct keys a text is found wherever it stands. -/
theorem get?_eq_some_iff (h : ∀ v w, (.str key, v) ∈ entries → (.str key, w) ∈ entries → v = w) :
    Dict.get? entries key = some v ↔ (.str key, v) ∈ entries := by
  have hmem : ∀ {w}, Dict.get? entries key = some w → (.str key, w) ∈ entries := by
    intro w hw
    obtain ⟨k, hk, hkey⟩ := Assoc.mem_of_get? hw
    rwa [Value.eq_str_of_beq hkey] at hk
  constructor
  · exact hmem
  · intro hv
    obtain ⟨w, hw⟩ := get?_of_mem hv
    rw [hw, h v w hv (hmem hw)]

theorem getD_of_perm (hperm : entries.Perm others) (h : Assoc.Distinct entries) (key : String) :
    Dict.getD entries key = Dict.getD others key := by
  have hget : Dict.get? entries key = Dict.get? others key := by
    refine Option.ext fun v => ?_
    rw [get?_eq_some_iff fun _ _ => value_unique h, hperm.mem_iff, get?_eq_some_iff]
    intro v w hv hw
    exact value_unique h (hperm.mem_iff.mpr hv) (hperm.mem_iff.mpr hw)
  rw [Dict.getD, Dict.getD, hget]

end Dict

/-! Where-specifications. -/

namespace Tail

/-- Entries in another order, in which the conditions keep theirs. No key is there twice. -/
structure Rearranged (entries others : Dict) : Prop where
  perm : entries.Perm others
  distinct : Assoc.Distinct entries
  conditions : conditionEntries entries = conditionEntries others

theorem Rearranged.withoutLimit (h : Rearranged entries others) :
    Rearranged (Assoc.erase (.str limitKey) entries) (Assoc.erase (.str limitKey) others) where
  perm := h.perm.filter _
  distinct := h.distinct.filter _
  conditions := by
    rw [conditionEntries_erase (by decide), conditionEntries_erase (by decide), h.conditions]

theorem compile_rearranged (h : Rearranged entries others) :
    compile t (.dict entries) = compile t (.dict others) := by
  have hclauses := Dict.getD_of_perm h.perm h.distinct
  simp only [compile, h.conditions, hclauses]

end Tail

/-! Calls. -/

/-- Arguments by position are completed by what the parameters behind them have as defaults. -/
theorem Signature.bind_positional (parameters : List Parameter) (args : List Value) :
    bind ⟨parameters, []⟩ args [] =
      if parameters.length < args.length then .error .wrongKind
      else (fillNamed [] (parameters.drop args.length)).map (args ++ ·) := by
  simp only [bind, List.any_nil, Bool.false_eq_true, ↓reduceIte, List.append_nil]
  split_ifs
  · rfl
  · cases fillNamed [] (parameters.drop args.length) <;> rfl

namespace Verb

/-- A random order is written over the one that is given, where it stands; so this verb is apart. -/
theorem compileWith_rearranged (h : Tail.Rearranged entries others) {verb : Verb}
    (hverb : verb ≠ .rand) {before : List Value}
    (hposition : verb.wheresPosition? = some before.length) (after : List Value) :
    verb.compileWith t (before ++ .dict entries :: after) =
      verb.compileWith t (before ++ .dict others :: after) := by
  have htail := Tail.compile_rearranged (t := t) h
  have hselectFrom : ∀ head table join,
      selectFrom t head table (.dict entries) join = selectFrom t head table (.dict others) join := by
    intro head table join
    rw [selectFrom, selectFrom, htail]
  have hget : ∀ table columns join,
      Statement.get t table columns (.dict entries) join =
        Statement.get t table columns (.dict others) join := by
    intro table columns join
    simp only [Statement.get, Statement.select, selectFrom, withoutLimit,
      Tail.compile_rearranged (t := t) h.withoutLimit]
  cases verb with
  | insert => cases hposition
  | raw => cases hposition
  | rand => exact absurd rfl hverb
  | select =>
      obtain ⟨table, columns, rfl⟩ := List.length_eq_two.mp (Option.some.inj hposition).symm
      obtain _ | ⟨join, _ | ⟨more, rest⟩⟩ := after
      · rfl
      · simp only [List.cons_append, List.nil_append, compileWith, Statement.select, hselectFrom]
      · rfl
  | get =>
      obtain ⟨table, columns, rfl⟩ := List.length_eq_two.mp (Option.some.inj hposition).symm
      obtain _ | ⟨join, _ | ⟨more, rest⟩⟩ := after
      · rfl
      · exact hget table columns join
      · rfl
  | has =>
      obtain ⟨table, rfl⟩ := List.length_eq_one_iff.mp (Option.some.inj hposition).symm
      obtain _ | ⟨join, _ | ⟨more, rest⟩⟩ := after
      · rfl
      · simp only [List.cons_append, List.nil_append, compileWith, Statement.has, hselectFrom]
      · rfl
  | aggregate =>
      obtain ⟨function, table, column, rfl⟩ :=
        List.length_eq_three.mp (Option.some.inj hposition).symm
      obtain _ | ⟨join, _ | ⟨more, rest⟩⟩ := after
      · rfl
      · simp only [List.cons_append, List.nil_append, compileWith, Statement.aggregate, hselectFrom]
      · rfl
  | update =>
      obtain ⟨table, data, rfl⟩ := List.length_eq_two.mp (Option.some.inj hposition).symm
      obtain _ | ⟨more, rest⟩ := after
      · simp only [List.cons_append, List.nil_append, compileWith, Statement.update, updateOf, htail]
      · rfl
  | replace =>
      obtain ⟨table, columns, rfl⟩ := List.length_eq_two.mp (Option.some.inj hposition).symm
      obtain _ | ⟨more, rest⟩ := after
      · simp only [List.cons_append, List.nil_append, compileWith, Statement.replace, updateOf, htail]
      · rfl
  | delete =>
      obtain ⟨table, rfl⟩ := List.length_eq_one_iff.mp (Option.some.inj hposition).symm
      obtain _ | ⟨more, rest⟩ := after
      · simp only [List.cons_append, List.nil_append, compileWith, Statement.delete, htail]
      · rfl

/-- Calls whose where-specifications are rearranged compile to the same. -/
theorem compile_rearranged (h : Tail.Rearranged entries others) {verb : Verb}
    (hverb : verb ≠ .rand) {args : List Value} {i : Nat}
    (hposition : verb.wheresPosition? = some i) (hi : args[i]? = some (.dict entries)) :
    verb.compile t (args.set i (.dict others)) = verb.compile t args := by
  obtain ⟨hlt, hvalue⟩ := List.getElem?_eq_some_iff.mp hi
  obtain ⟨before, after, hargs, rfl, hset⟩ : ∃ before after, args = before ++ args[i] :: after ∧
      before.length = i ∧ args.set i (.dict others) = before ++ .dict others :: after :=
    List.exists_of_set hlt
  rw [hvalue] at hargs
  have hlength : (before ++ Value.dict others :: after).length =
      (before ++ Value.dict entries :: after).length := by simp
  rw [hset, hargs, compile, compile, Signature.bind_positional, Signature.bind_positional, hlength]
  split_ifs
  · rfl
  · cases Signature.fillNamed [] (verb.parameters.drop
      (before ++ Value.dict entries :: after).length) with
    | error fault => rfl
    | ok defaults =>
        simp only [Except.map, Compile.lift, pure_bind, List.append_assoc, List.cons_append]
        exact (compileWith_rearranged h hverb hposition _).symm

end Verb

end QueryLoom
