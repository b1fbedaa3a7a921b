import QueryLoom.Proofs.Grammar.Verbs
import QueryLoom.Proofs.Independence.Tails
import QueryLoom.Proofs.Prefixes.Conditions

/-!
Where-specifications that a prefix was written into. Reserved keys stay, and no other key becomes one
of them, so each clause is found where it was.
-/

namespace QueryLoom

open Compile Prefixed Conditions

variable {t : Target} {pre : List Char} {call : List Char → List Char}

/-! Values that count as true. -/

namespace Prefixed

theorem truthy_onText {f : List Char → List Char} (hf : ∀ cs, f cs = [] ↔ cs = []) (v : Value) :
    (onText f v).truthy = v.truthy := by
  cases v with
  | str s =>
      have hempty : String.ofList (f s.toList) = "" ↔ s = "" := by
        rw [← String.toList_eq_nil_iff, String.toList_ofList, hf, String.toList_eq_nil_iff]
      rw [Bool.eq_iff_iff]
      simp only [onText, Value.truthy, bne_iff_ne, ne_eq, hempty]
  | _ => rfl

theorem path_eq_nil (cs : List Char) : path pre cs = [] ↔ cs = [] := by
  constructor
  · intro h
    have hsubset := subset_path (p := pre) cs
    rw [h] at hsubset
    exact List.subset_nil.mp hsubset
  · rintro rfl
    exact path_of_not_mem List.not_mem_nil

theorem behind_eq_nil {c : Char} {f : List Char → List Char} (cs : List Char) :
    behind c f cs = [] ↔ cs = [] := by
  rw [← List.head?_eq_none_iff, head?_behind, List.head?_eq_none_iff]

theorem truthy_column (v : Value) : (column pre v).truthy = v.truthy := truthy_onText path_eq_nil v

theorem truthy_conditions (v : Value) : (conditions pre call v).truthy = v.truthy := by
  cases v with
  | str s =>
      refine truthy_onText (fun cs => ?_) (.str s)
      rw [comparison, path_eq_nil, behind_eq_nil]
  | list items =>
      rw [conditions, conditionItems_eq, Value.truthy, Value.truthy, List.isEmpty_map]
  | dict entries => cases entries <;> rfl
  | _ => rfl

theorem truthy_group (v : Value) : (group pre v).truthy = v.truthy := by
  cases v with
  | list items => rw [group, Value.truthy, Value.truthy, List.isEmpty_map]
  | str s => exact truthy_column (.str s)
  | _ => rfl

theorem truthy_orderItem (v : Value) : (orderItem pre v).truthy = v.truthy := by
  cases v with
  | dict entries => rw [orderItem, Value.truthy, Value.truthy, List.isEmpty_map]
  | str s => exact truthy_column (.str s)
  | _ => rfl

theorem truthy_order (v : Value) : (order pre v).truthy = v.truthy := by
  cases v with
  | list items => rw [order, Value.truthy, Value.truthy, List.isEmpty_map]
  | str s => exact truthy_orderItem (.str s)
  | dict entries => exact truthy_orderItem (.dict entries)
  | _ => rfl

end Prefixed

namespace Tail

/-! Keys. -/

theorem isNameChar_of_reserved {name : String} (h : name ∈ reservedKeys) :
    IsNamePart name.toList := by
  have hall : ∀ name ∈ reservedKeys, name.toList.all Key.isNameChar = true := by decide
  exact List.all_eq_true.mp (hall name h)

/-- A condition does not come under a reserved key: its key holds a parenthesis or a dot, or stays. -/
theorem isReserved_conditionKey (hcall : ∀ cs, cs ⊆ call cs) {key : Value}
    (hkey : isReserved key = false) : isReserved (onText (conditionKey pre call) key) = false := by
  cases key with
  | str text =>
      rw [Bool.eq_false_iff]
      intro hreserved
      change isReserved (.str (String.ofList (conditionKey pre call text.toList))) = true at hreserved
      rw [isReserved, List.contains_iff_mem] at hreserved
      have hname := isNameChar_of_reserved hreserved
      rw [String.toList_ofList] at hname
      unfold conditionKey at hname hreserved
      split_ifs at hname hreserved with hholds
      · have hkept : ∀ c ∈ text.toList.takeWhile Key.isConditionChar, Key.isNameChar c = true :=
          fun c hc => hname c (List.mem_append_left _ (hcall _ hc))
        unfold holdsCall at hholds
        rw [Bool.or_eq_true, List.contains_iff_mem, List.contains_iff_mem] at hholds
        rcases hholds with hopen | hclose
        · cases hkept '(' hopen
        · cases hkept ')' hclose
      · have hdot : '.' ∉ text.toList := fun hmem => by cases hname '.' (subset_path _ hmem)
        rw [path_of_not_mem hdot, String.ofList_toList] at hreserved
        rw [isReserved_str hreserved] at hkey
        cases hkey
  | _ => rfl

theorem isReserved_tailEntry (hcall : ∀ cs, cs ⊆ call cs) (entry : Value × Value) :
    isReserved (tailEntry pre call entry).1 = isReserved entry.1 := by
  unfold tailEntry
  split_ifs with hreserved
  · rfl
  · rw [Bool.not_eq_true] at hreserved
    unfold condition
    split
    · rw [isReserved_conditionKey hcall hreserved, hreserved]
    · rfl

theorem tailEntry_beq (hcall : ∀ cs, cs ⊆ call cs) (entry : Value × Value) {name : String}
    (hname : name ∈ reservedKeys) :
    ((tailEntry pre call entry).1 == Value.str name) = (entry.1 == Value.str name) := by
  cases hreserved : isReserved entry.1 with
  | true => rw [tailEntry, if_pos hreserved]
  | false =>
      have hwritten : isReserved (tailEntry pre call entry).1 = isReserved entry.1 :=
        isReserved_tailEntry hcall entry
      rw [hreserved] at hwritten
      rw [beq_reserved hreserved hname, beq_reserved hwritten hname]

/-- What is written into an entry under a reserved key. -/
theorem tailEntry_of_beq (entry : Value × Value) {name : String} (hname : name ∈ reservedKeys)
    (h : (entry.1 == Value.str name) = true) :
    tailEntry pre call entry = (entry.1, clause pre call (.str name) entry.2) := by
  obtain ⟨key, v⟩ := entry
  obtain rfl := Value.eq_str_of_beq h
  rw [tailEntry, if_pos (isReserved_str hname)]

/-! Entries. -/

theorem conditionEntries_tail (hcall : ∀ cs, cs ⊆ call cs) (entries : Dict) :
    conditionEntries (entries.map (tailEntry pre call)) =
      Prefixed.conditionEntries pre call (conditionEntries entries) := by
  induction entries with
  | nil => rfl
  | cons entry rest ih =>
      have hkey : isReserved (tailEntry pre call entry).1 = isReserved entry.1 :=
        isReserved_tailEntry hcall entry
      unfold conditionEntries at ih ⊢
      rw [List.map_cons, List.filter_cons, List.filter_cons]
      simp only [hkey]
      split_ifs with hreserved
      · rw [ih]
        rw [Bool.not_eq_true'] at hreserved
        rw [tailEntry, hreserved, if_neg Bool.false_ne_true]
        rfl
      · exact ih

theorem clause_null (key : Value) : clause pre call key .null = .null := by
  unfold clause
  split_ifs <;> rfl

theorem getD_tail (hcall : ∀ cs, cs ⊆ call cs) (entries : Dict) {name : String}
    (hname : name ∈ reservedKeys) :
    Dict.getD (entries.map (tailEntry pre call)) name =
      clause pre call (.str name) (Dict.getD entries name) := by
  induction entries with
  | nil => exact (clause_null _).symm
  | cons entry rest ih =>
      rw [List.map_cons, Dict.getD_cons entry.1, Dict.getD_cons (tailEntry pre call entry).1,
        tailEntry_beq hcall entry hname]
      split_ifs with hbeq
      · rw [tailEntry_of_beq entry hname hbeq]
      · exact ih

theorem erase_tail (hcall : ∀ cs, cs ⊆ call cs) (entries : Dict) {name : String}
    (hname : name ∈ reservedKeys) :
    Assoc.erase (Value.str name) (entries.map (tailEntry pre call)) =
      (Assoc.erase (Value.str name) entries).map (tailEntry pre call) := by
  unfold Assoc.erase
  rw [List.filter_map]
  congr 2
  funext entry
  exact congrArg (!·) (tailEntry_beq hcall entry hname)

theorem insert_tail (hcall : ∀ cs, cs ⊆ call cs) (entries : Dict) {name : String}
    (hname : name ∈ reservedKeys) (v : Value) :
    Assoc.insert (Value.str name) (clause pre call (.str name) v)
        (entries.map (tailEntry pre call)) =
      (Assoc.insert (Value.str name) v entries).map (tailEntry pre call) := by
  have hself : (Value.str name == Value.str name) = true := by
    rw [Value.str_beq_str, beq_self_eq_true]
  induction entries with
  | nil =>
      rw [List.map_nil, Assoc.insert, Assoc.insert, List.map_singleton,
        tailEntry_of_beq (.str name, v) hname hself]
  | cons entry rest ih =>
      obtain ⟨key, w⟩ := entry
      have hbeq : ((tailEntry pre call (key, w)).1 == Value.str name) = (key == Value.str name) :=
        tailEntry_beq hcall (key, w) hname
      rw [List.map_cons, Assoc.insert, Assoc.insert, hbeq]
      split_ifs with hkey
      · rw [List.map_cons, tailEntry_of_beq (key, v) hname hkey,
          tailEntry_of_beq (key, w) hname hkey]
      · rw [List.map_cons, ih]

/-! Clauses. -/

theorem repeats_whenTruthy {v w : Value} {body other : Value → Compile Sql} (keyword : String)
    (htruthy : w.truthy = v.truthy) (hbody : Repeats (other w) (body v)) :
    Repeats (whenTruthy w keyword other) (whenTruthy v keyword body) := by
  unfold whenTruthy
  rw [htruthy]
  split_ifs
  · exact hbody.map _
  · exact .refl _

theorem repeats_having (ht : IsNamePart t.mark) {v : Value} (hv : v.rawFree = true)
    (hcalls : KeepsCalls call (Conditions.calls v)) :
    Repeats (having t.plain (conditions t.mark call v)) (having t v) := by
  have hcompile := Conditions.repeats_compile (p := ⟨t, .having⟩) ht hv hcalls .and
  cases v with
  | raw sql parameters => cases hv
  | _ => exact hcompile

/-- Rules by which the calls of functions are those that are written as they were. -/
def keptCalls (call : List Char → List Char) (d : Dialect) : Grammar.Rules :=
  ⟨fun text => call text.toList = text.toList, d, True⟩

theorem repeats_compile (ht : IsNamePart t.mark) (hcall : ∀ cs, cs ⊆ call cs) {v : Value}
    (hv : Fits (keptCalls call t.dialect) t v) :
    Repeats (compile t.plain (tail t.mark call v)) (compile t v) := by
  cases v with
  | dict entries =>
      have hentries : Trusted t entries := hv.trusted
      have hcalls : KeepsCalls call (calls (.dict entries)) := hv.calls
      obtain ⟨hconditions, hhaving⟩ := List.forall_mem_append.mp hcalls
      rw [tail, compile, compile, conditionEntries_tail hcall, getD_tail hcall _ (by decide),
        getD_tail hcall _ (by decide), getD_tail hcall _ (by decide), getD_tail hcall _ (by decide)]
      refine (repeats_whenTruthy _ (truthy_conditions (.dict (conditionEntries entries)))
        (Conditions.repeats_compile (p := ⟨t, .filter⟩) ht hentries.conditions hconditions _)).bind
        fun filter => ?_
      refine (repeats_whenTruthy _ (truthy_group _)
        (repeats_group ht (hentries.getD_rawFree (by decide)))).bind fun groupBy => ?_
      refine (repeats_whenTruthy _ (truthy_conditions _)
        (repeats_having ht (hentries.getD_rawFree (by decide)) hhaving)).bind fun having => ?_
      refine (repeats_whenTruthy _ (truthy_order _) (repeats_order ht ?_)).bind fun orderBy => ?_
      · rcases hentries.getD orderKey with hfree | ⟨_, hrandom⟩
        · exact .inl hfree
        · exact .inr hrandom
      · exact .refl _
  | null => exact .refl _
  | raw sql parameters => cases hv.trusted
  | _ => exact .throw _ _

end Tail

end QueryLoom
