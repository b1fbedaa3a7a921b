import QueryLoom.Proofs.Bindings.Collisions
import QueryLoom.Proofs.Numbers.Digits
import QueryLoom.Proofs.Statement.Alignment

/-!
The floating point numbers that are bound. A call makes texts of some of its values, but no numbers:
if all numbers in its arguments are of 64 bits, so are all those that it binds.
-/

namespace QueryLoom

open Compile

namespace Value

mutual

/-- Whether the floating point numbers in a value are of 64 bits, those in its keys included. -/
def Doubles : Value → Prop
  | .float x => x.IsDouble
  | .list items => DoublesItems items
  | .dict entries => DoublesEntries entries
  | .raw _ parameters => DoublesEntries parameters
  | _ => True
termination_by structural v => v

def DoublesItems : List Value → Prop
  | [] => True
  | v :: rest => Doubles v ∧ DoublesItems rest
termination_by structural vs => vs

def DoublesEntries : List (Value × Value) → Prop
  | [] => True
  | (k, v) :: rest => Doubles k ∧ Doubles v ∧ DoublesEntries rest
termination_by structural es => es

end

theorem doublesItems_iff {items : List Value} : DoublesItems items ↔ ∀ v ∈ items, v.Doubles := by
  induction items with
  | nil => simp [DoublesItems]
  | cons v rest ih => simp [DoublesItems, ih]

theorem doublesEntries_iff {entries : Dict} :
    DoublesEntries entries ↔ ∀ e ∈ entries, e.1.Doubles ∧ e.2.Doubles := by
  induction entries with
  | nil => simp [DoublesEntries]
  | cons e rest ih =>
      obtain ⟨k, v⟩ := e
      simp [DoublesEntries, ih, and_assoc]

theorem doubles_list {items : List Value} : (Value.list items).Doubles ↔ ∀ v ∈ items, v.Doubles :=
  doublesItems_iff

theorem doubles_dict {entries : Dict} :
    (Value.dict entries).Doubles ↔ ∀ e ∈ entries, e.1.Doubles ∧ e.2.Doubles :=
  doublesEntries_iff

theorem doubles_null : Value.null.Doubles := trivial

theorem doubles_getD {entries : Dict} (h : (Value.dict entries).Doubles) (key : String) :
    (Dict.getD entries key).Doubles := by
  unfold Dict.getD
  cases hget : Dict.get? entries key with
  | none => exact doubles_null
  | some v =>
      obtain ⟨k, hmem, _⟩ := Assoc.mem_of_get? hget
      exact (doubles_dict.mp h _ hmem).2

end Value

namespace Supply

/-- All that is supplied has numbers of 64 bits. -/
def Doubles (xs : List Supply) : Prop := ∀ x ∈ xs, x.payload.Doubles

theorem doubles_append {xs ys : List Supply} (hxs : Doubles xs) (hys : Doubles ys) :
    Doubles (xs ++ ys) :=
  List.forall_mem_append.mpr ⟨hxs, hys⟩

theorem doubles_value {v : Value} (h : v.Doubles) : Doubles [.value v] :=
  List.forall_mem_singleton.mpr h

theorem doubles_flatMap {α : Type} {items : List α} {f : α → List Supply}
    (h : ∀ a ∈ items, Doubles (f a)) : Doubles (items.flatMap f) := by
  intro x hx
  obtain ⟨a, ha, hxa⟩ := List.mem_flatMap.mp hx
  exact h a ha x hxa

theorem doubles_ofMap {raw : String} {parameters : Dict} (h : (Value.raw raw parameters).Doubles) :
    Doubles (ofMap parameters) := by
  intro x hx
  obtain ⟨e, he, rfl⟩ := List.mem_map.mp hx
  exact (Value.doublesEntries_iff.mp h e he).2

theorem doubles_ofRaw {v : Value} (h : v.Doubles) : Doubles (ofRaw v) := by
  cases v with
  | raw raw parameters => exact doubles_ofMap h
  | _ => simp [Doubles, ofRaw]

end Supply

/-- What holds of all that is supplied holds of all that is bound. -/
theorem Compile.bound_of_supply {P : Value → Prop} {xs : List Supply} {s u : Parameters}
    (h : (supply xs).Yields s () u) (hs : ∀ b ∈ s.bound, P b.2) (hxs : ∀ x ∈ xs, P x.payload) :
    ∀ b ∈ u.bound, P b.2 := by
  have hinsert : ∀ {s : Parameters} {name : String} {v : Value}, (∀ b ∈ s.bound, P b.2) → P v →
      ∀ b ∈ Assoc.insert name v s.bound, P b.2 := by
    intro s name v hs hv b hb
    rcases Assoc.mem_of_mem_insert (beq_self_eq_true name) hb with ⟨_, _, rfl⟩ | hold
    · exact hv
    · exact hs b hold
  induction xs generalizing s with
  | nil =>
      rw [supply, yields_pure] at h
      rw [h.2]
      exact hs
  | cons x rest ih =>
      rw [List.forall_mem_cons] at hxs
      cases x with
      | value v =>
          rw [supply, yields_bind] at h
          obtain ⟨name, w, hadd, hrest⟩ := h
          refine ih hrest ?_ hxs.2
          rw [(yields_addValue hadd).2]
          exact hinsert hs hxs.1
      | entry key v =>
          rw [supply, yields_bind] at h
          obtain ⟨_, w, hbind, hrest⟩ := h
          refine ih hrest ?_ hxs.2
          rw [yields_bindName hbind]
          exact hinsert hs hxs.1

/-! Conditions. -/

namespace Conditions

open Supply (doubles_value doubles_flatMap doubles_ofMap doubles_append)

variable {v : Value}

theorem doubles_bindScalar (h : v.Doubles) : (bindScalar v).Doubles := by
  cases v with
  | bool b => exact trivial
  | _ => exact h

theorem doubles_operandSupplies (h : v.Doubles) : Supply.Doubles (operandSupplies v) := by
  cases v with
  | raw raw parameters => exact doubles_ofMap h
  | _ => exact doubles_value h

theorem doubles_equalitySupplies (h : v.Doubles) : Supply.Doubles (equalitySupplies v) := by
  cases v with
  | null => simp [Supply.Doubles, equalitySupplies]
  | list items =>
      intro x hx
      obtain ⟨item, hitem, rfl⟩ := List.mem_map.mp hx
      exact doubles_bindScalar (Value.doubles_list.mp h item hitem)
  | raw raw parameters => exact doubles_ofMap h
  | _ => exact doubles_value (doubles_bindScalar h)

theorem doubles_patternSupplies (h : v.Doubles) : Supply.Doubles (patternSupplies v) := by
  cases v with
  | raw raw parameters => exact doubles_ofMap h
  | _ => exact doubles_value trivial

theorem doubles_patternItems (h : v.Doubles) :
    ∀ w ∈ patternItems (patternGroup v).2, w.Doubles := by
  have hgroup : (patternGroup v).2.Doubles := by
    unfold patternGroup
    split
    · split
      · exact (Value.doubles_dict.mp h _ List.mem_cons_self).2
      · exact h
    · exact h
  cases hcase : (patternGroup v).2 with
  | list items =>
      rw [hcase] at hgroup
      exact Value.doubles_list.mp hgroup
  | _ => simpa [patternItems, hcase] using hgroup

theorem doubles_testSupplies (h : v.Doubles) (operator : Option ConditionOperator) :
    Supply.Doubles (testSupplies v operator) := by
  have hpatterns : Supply.Doubles ((patternItems (patternGroup v).2).flatMap patternSupplies) :=
    doubles_flatMap fun w hw => doubles_patternSupplies (doubles_patternItems h w hw)
  have hrange : Supply.Doubles (rangeSupplies v) := by
    cases v with
    | list ends =>
        exact doubles_flatMap fun w hw => doubles_operandSupplies (Value.doubles_list.mp h w hw)
    | _ => simp [Supply.Doubles, rangeSupplies]
  cases operator with
  | none => exact doubles_equalitySupplies h
  | some operator =>
      cases operator with
      | not => exact doubles_equalitySupplies h
      | like | notLike => exact hpatterns
      | between | notBetween => exact hrange
      | regexp | greater | greaterOrEqual | less | lessOrEqual => exact doubles_operandSupplies h

theorem doubles_entriesSupplies :
    (∀ es : List (Value × Value), Value.DoublesEntries es → Supply.Doubles (entriesSupplies es)) ∧
    (∀ v : Value, v.Doubles → Supply.Doubles (groupSupplies v)) ∧
    (∀ items : List Value, Value.DoublesItems items → Supply.Doubles (dictsSupplies items)) := by
  have hnil : Supply.Doubles [] := by simp [Supply.Doubles]
  apply entriesSupplies.mutual_induct
  · intro es ih h
    exact ih h
  · intro items hall ih h
    simp only [groupSupplies, if_pos hall]
    exact ih h
  · intro items hall _
    simp only [groupSupplies, if_neg hall]
    exact hnil
  · intro v hdict hlist _
    cases v with
    | dict es => exact absurd rfl (hdict es)
    | list items => exact absurd rfl (hlist items)
    | _ => exact hnil
  · intro _
    exact hnil
  · intro es rest ih ihrest h
    exact doubles_append (ih h.1) (ihrest h.2)
  · intro v rest hdict ihrest h
    cases v with
    | dict es => exact absurd rfl (hdict es)
    | _ => exact ihrest h.2
  · intro _
    exact hnil
  · intro key v rest ih ihrest h
    obtain ⟨_, hv, hrest⟩ := h
    rw [entriesSupplies_cons]
    refine doubles_append ?_ (ihrest hrest)
    unfold entrySupplies
    split
    · exact ih hv
    · exact hnil
    · exact doubles_testSupplies hv _

theorem doubles_supplies (h : v.Doubles) : Supply.Doubles (supplies v) := by
  cases v with
  | dict es => exact doubles_entriesSupplies.1 es h
  | _ => simp [Supply.Doubles, supplies]

end Conditions

/-! Columns. -/

/-- Without raw values no column brings anything. -/
theorem Projection.supplies_of_rawFree {columns : Value} (h : columns.rawFree = true) :
    supplies columns = [] := by
  have hnodes : (∀ n : ColumnNode, n.rawFree = true → n.leaves.flatMap leafSupplies = []) ∧
      (∀ ns : List ColumnNode, ColumnNode.rawFreeList ns = true →
        (ColumnNode.leavesOf ns).flatMap leafSupplies = []) := by
    apply ColumnNode.rawFree.mutual_induct
    · intro ref _
      rfl
    · intro name sql parameters hfree
      cases hfree
    · intro name children ih hfree
      exact ih hfree
    · intro _
      rfl
    · intro n rest ih ihrest hfree
      rw [ColumnNode.rawFreeList, Bool.and_eq_true] at hfree
      rw [ColumnNode.leavesOf, List.flatMap_append, ih hfree.1, ihrest hfree.2]
      rfl
  unfold supplies
  cases hparse : ColumnSpec.parse columns with
  | error fault => rfl
  | ok tree => exact hnodes.2 _ (ColumnSpec.rawFree_parse h hparse)

/-! Ends of statements. -/

section Tails

open Supply (doubles_append doubles_flatMap doubles_ofMap doubles_ofRaw)

variable {v : Value}

theorem Tail.doubles_supplies (h : v.Doubles) : Supply.Doubles (supplies v) := by
  cases v with
  | raw raw parameters => exact doubles_ofMap h
  | dict entries =>
      have hconditions : (Value.dict (conditionEntries entries)).Doubles :=
        Value.doubles_dict.mpr fun e he => Value.doubles_dict.mp h e (List.mem_filter.mp he).1
      have hhaving : ∀ {w : Value}, w.Doubles → Supply.Doubles (havingSupplies w) := by
        intro w hw
        cases w with
        | raw raw parameters => exact doubles_ofMap hw
        | _ => exact Conditions.doubles_supplies hw
      have horder : ∀ {w : Value}, w.Doubles → Supply.Doubles (orderSupplies w) := by
        intro w hw
        cases w with
        | list items =>
            exact doubles_flatMap fun item hitem =>
              doubles_ofRaw (Value.doubles_list.mp hw item hitem)
        | _ => exact doubles_ofRaw hw
      exact doubles_append (doubles_append (doubles_append (Conditions.doubles_supplies hconditions)
        (doubles_ofRaw (Value.doubles_getD h groupKey))) (hhaving (Value.doubles_getD h havingKey)))
        (horder (Value.doubles_getD h orderKey))
  | _ => simp [Supply.Doubles, supplies]

namespace Statement

theorem doubles_withoutLimit (h : v.Doubles) : (withoutLimit v).Doubles := by
  cases v with
  | dict entries =>
      exact Value.doubles_dict.mpr fun e he => Value.doubles_dict.mp h e (List.mem_filter.mp he).1
  | _ => exact h

/-- A random order is a text, and what it replaces is an entry. -/
theorem doubles_randomOrder {t : Target} {ordered : Value} (h : v.Doubles)
    (hordered : randomOrder t v = .ok ordered) : ordered.Doubles := by
  unfold randomOrder at hordered
  split at hordered
  · cases hordered
  · dsimp only at hordered
    split at hordered
    · rename_i entries _
      cases hordered
      refine Value.doubles_dict.mpr fun e he => ?_
      rcases Assoc.mem_of_mem_insert (by decide) he with ⟨k, hk, rfl⟩ | hold
      · rw [Value.eq_str_of_beq hk]
        exact ⟨trivial, trivial⟩
      · exact Value.doubles_dict.mp h e hold
    · split_ifs at hordered
      cases hordered
      exact Value.doubles_dict.mpr (List.forall_mem_singleton.mpr ⟨trivial, trivial⟩)

theorem doubles_randomSupplies {t : Target} (h : v.Doubles) :
    Supply.Doubles (randomSupplies t v) := by
  unfold randomSupplies
  cases hordered : randomOrder t v with
  | error fault => simp [Supply.Doubles]
  | ok ordered => exact Tail.doubles_supplies (doubles_randomOrder h hordered)

end Statement

end Tails

/-! Statements that write. -/

namespace Statement

open Supply (doubles_append doubles_flatMap doubles_ofMap doubles_value)

variable {v : Value}

/-- What is stored as JSON is a text. -/
theorem doubles_storedSupplies (json : Bool) (h : v.Doubles) :
    Supply.Doubles (storedSupplies json v) := by
  have hencoded : ∀ {stored : Value}, (Json.write .line v).map Value.str = .ok stored →
      stored.Doubles := by
    intro stored hstored
    cases hwrite : Json.write .line v with
    | error fault =>
        rw [hwrite] at hstored
        cases hstored
    | ok text =>
        rw [hwrite] at hstored
        cases hstored
        exact trivial
  unfold storedSupplies
  cases hstored : storedValue json v with
  | error fault => simp [Supply.Doubles]
  | ok stored =>
      refine doubles_value ?_
      unfold storedValue at hstored
      dsimp only at hstored
      split at hstored
      · exact hencoded hstored
      · exact hencoded hstored
      · split_ifs at hstored
        · exact hencoded hstored
        · cases hstored
          exact Conditions.doubles_bindScalar h

theorem doubles_insertSupplies (h : v.Doubles) : Supply.Doubles (insertSupplies v) := by
  have hrows : ∀ row ∈ insertedRows v, row.Doubles := by
    cases v with
    | dict entries => exact List.forall_mem_singleton.mpr h
    | str s =>
        intro row hrow
        obtain ⟨c, _, rfl⟩ := List.mem_map.mp hrow
        exact trivial
    | list items => exact Value.doubles_list.mp h
    | bytes octets =>
        intro row hrow
        obtain ⟨o, _, rfl⟩ := List.mem_map.mp hrow
        exact trivial
    | _ => simp [insertedRows, Value.sequence?]
  refine doubles_flatMap fun row hrow => ?_
  have hrow' := hrows row hrow
  cases row with
  | dict entries =>
      refine doubles_flatMap fun key _ => ?_
      unfold cellSupplies
      split
      · exact doubles_value trivial
      · rename_i raw parameters hget
        obtain ⟨k, hmem, _⟩ := Assoc.mem_of_get? hget
        exact doubles_ofMap (Value.doubles_dict.mp hrow' _ hmem).2
      · rename_i w _ hget
        obtain ⟨k, hmem, _⟩ := Assoc.mem_of_get? hget
        exact doubles_storedSupplies _ (Value.doubles_dict.mp hrow' _ hmem).2
  | _ => simp [Supply.Doubles, rowSupplies]

theorem doubles_entrywise {f : Value × Value → List Supply} (h : v.Doubles)
    (hf : ∀ {key w : Value}, w.Doubles → Supply.Doubles (f (key, w))) :
    Supply.Doubles (entrywise f v) := by
  cases v with
  | dict entries => exact doubles_flatMap fun e he => hf (Value.doubles_dict.mp h e he).2
  | _ => simp [Supply.Doubles, entrywise]

theorem doubles_assignmentSupplies {key : Value} (h : v.Doubles) :
    Supply.Doubles (assignmentSupplies (key, v)) := by
  unfold assignmentSupplies
  split
  · rename_i raw parameters heq
    cases heq
    exact doubles_ofMap h
  · rename_i other w _ heq
    cases heq
    split
    · split_ifs
      · exact doubles_value h
      · exact doubles_storedSupplies _ h
    · simp [Supply.Doubles]

theorem doubles_replacementSupplies {key : Value} (h : v.Doubles) :
    Supply.Doubles (replacementSupplies (key, v)) := by
  cases v with
  | dict pairs =>
      refine doubles_flatMap fun pair hpair => ?_
      obtain ⟨hold, hnew⟩ := Value.doubles_dict.mp h pair hpair
      exact doubles_append (doubles_value hold) (doubles_value hnew)
  | _ => simp [Supply.Doubles, replacementSupplies]

end Statement

/-! Calls. -/

namespace Verb

open Statement
open Supply (doubles_append)

variable {t : Target} {verb : Verb} {args : List Value}

theorem doubles_suppliesWith (hfree : ∀ v ∈ args, v.rawFree = true)
    (h : ∀ v ∈ args, v.Doubles) : Supply.Doubles (verb.suppliesWith t args) := by
  have hraw : ∀ {v : Value}, v ∈ args → Supply.Doubles (Supply.ofRaw v) :=
    fun hv => Supply.doubles_ofRaw (h _ hv)
  have htail : ∀ {v : Value}, v ∈ args → Supply.Doubles (Tail.supplies v) :=
    fun hv => Tail.doubles_supplies (h _ hv)
  have hcolumns : ∀ {v : Value}, v ∈ args → Supply.Doubles (Projection.supplies v) := by
    intro v hv
    simp [Projection.supplies_of_rawFree (hfree v hv), Supply.Doubles]
  unfold suppliesWith
  split
  · exact doubles_append (hcolumns (by simp)) (htail (by simp))
  · exact doubles_append (hcolumns (by simp))
      (Tail.doubles_supplies (doubles_withoutLimit (h _ (by simp))))
  · exact doubles_append (hcolumns (by simp)) (doubles_randomSupplies (h _ (by simp)))
  · exact htail (by simp)
  · exact doubles_append (hraw (by simp)) (htail (by simp))
  · exact doubles_insertSupplies (h _ (by simp))
  · exact doubles_append (doubles_entrywise (h _ (by simp)) doubles_assignmentSupplies)
      (htail (by simp))
  · exact htail (by simp)
  · exact doubles_append (doubles_entrywise (h _ (by simp)) doubles_replacementSupplies)
      (htail (by simp))
  · exact hraw (by simp)
  · simp [Supply.Doubles]

/-- No default of a verb is a number. -/
theorem doubles_default (verb : Verb) :
    ∀ p ∈ verb.parameters, ∀ v, p.default = some v → v.Doubles := by
  cases verb <;> simp [Verb.parameters, Signature.required, Signature.optional, Value.Doubles]

/-- If all numbers in the arguments of a call without raw values are of 64 bits, so are all that the
call binds. -/
theorem doubles_params {c : Compiled} {next last : Nat} (hfree : ∀ v ∈ args, v.rawFree = true)
    (h : ∀ v ∈ args, v.Doubles) (hrun : run (verb.compile t args) next = (.ok c, last)) :
    ∀ b ∈ c.params, b.2.Doubles := by
  obtain ⟨u, hyields, _⟩ := yields_of_run hrun
  have hsupplies : Supply.Doubles (verb.supplies t args) := by
    unfold supplies
    cases hvalues : Signature.bind ⟨verb.parameters, []⟩ args [] with
    | error fault => simp [Supply.Doubles]
    | ok values =>
        refine doubles_suppliesWith (rawFree_bind hfree hvalues) fun v hv => ?_
        obtain ⟨defaults, hdefaults, rfl⟩ := Signature.bind_eq_append hvalues
        rcases List.mem_append.mp hv with harg | hdefault
        · exact h v harg
        · obtain ⟨p, hp, hpv⟩ := Signature.default_of_mem_fillNamed hdefaults hdefault
          exact doubles_default verb p (List.mem_of_mem_drop hp) v hpv
  rw [params_of_yields hyields]
  exact bound_of_supply ((makes_compile verb args).yields hyields) (by simp [Parameters.start])
    hsupplies

end Verb

end QueryLoom
