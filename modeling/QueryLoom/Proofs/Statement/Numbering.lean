import QueryLoom.Proofs.Statement.Yields

/-!
The names of bound values. A counter numbers them, so a value that is added is bound under a name
that no value has been bound under before, as long as all names so far came from the counter.
-/

namespace QueryLoom

namespace Parameters

/-- The names bound so far. -/
def names (s : Parameters) : List String := s.bound.map Prod.fst

/-- The name that the counter gives for a number. -/
def numbered (s : Parameters) (i : Nat) : String := s.stem ++ toString i

/-- Every name bound so far was given by the counter. -/
def Numbered (s : Parameters) : Prop := ∀ name ∈ s.names, ∃ i < s.next, name = s.numbered i

/-- From one state to another, the next numbered names were bound, in order. -/
structure Binds (s t : Parameters) (names : List String) : Prop where
  stem : t.stem = s.stem
  next : t.next = s.next + names.length
  fresh : names = (List.range' s.next names.length).map s.numbered
  bound : t.names = s.names ++ names

theorem numbered_start (next : Nat) : (start next).Numbered := by
  simp [Numbered, names, start]

theorem numbered_injective (s : Parameters) {i j : Nat} (h : s.numbered i = s.numbered j) :
    i = j := by
  have hchars := congrArg String.toList h
  simp only [numbered, String.toList_append, Nat.toString_eq_ofList_toDigits,
    String.toList_ofList, List.append_cancel_left_eq] at hchars
  have hvalue := congrArg (fun ds => Nat.ofDigitChars 10 ds 0) hchars
  simpa using hvalue

variable {s t u : Parameters} {first rest : List String}

/-- From one state to another the counter gave names, in order, whatever else was bound. -/
structure Counts (s t : Parameters) (names : List String) : Prop where
  stem : t.stem = s.stem
  next : t.next = s.next + names.length
  fresh : names = (List.range' s.next names.length).map s.numbered

/-- The counter has given a name, which has a number below the one where the counter stands. -/
def Gave (s : Parameters) (name : String) : Prop := ∃ i < s.next, name = s.numbered i

theorem Counts.numbered_eq (h : Counts s t first) : t.numbered = s.numbered := by
  funext i
  rw [numbered, numbered, h.stem]

theorem Counts.refl (s : Parameters) : Counts s s [] := by
  constructor <;> simp

theorem Counts.trans (hfirst : Counts s t first) (hrest : Counts t u rest) :
    Counts s u (first ++ rest) := by
  have hrange : List.range' s.next (first.length + rest.length) =
      List.range' s.next first.length ++ List.range' t.next rest.length := by
    rw [hfirst.next, List.range'_append_1]
  have hlast := hrest.fresh
  rw [hfirst.numbered_eq] at hlast
  constructor
  · rw [hrest.stem, hfirst.stem]
  · rw [hrest.next, hfirst.next, List.length_append, Nat.add_assoc]
  · rw [List.length_append, hrange, List.map_append, ← hfirst.fresh, ← hlast]

theorem Counts.gave (h : Counts s t first) {name : String} (hname : name ∈ first) : t.Gave name := by
  rw [h.fresh, List.mem_map] at hname
  obtain ⟨i, hi, rfl⟩ := hname
  rw [List.mem_range'_1, ← h.next] at hi
  exact ⟨i, hi.2, by rw [h.numbered_eq]⟩

theorem Gave.after {name : String} (h : s.Gave name) (hcounts : Counts s t first) : t.Gave name := by
  obtain ⟨i, hi, rfl⟩ := h
  refine ⟨i, ?_, by rw [hcounts.numbered_eq]⟩
  rw [hcounts.next]
  exact Nat.lt_add_right _ hi

theorem Binds.counts (h : Binds s t first) : Counts s t first := ⟨h.stem, h.next, h.fresh⟩

theorem Binds.refl (s : Parameters) : Binds s s [] := by
  constructor <;> simp

theorem Binds.trans (hfirst : Binds s t first) (hrest : Binds t u rest) :
    Binds s u (first ++ rest) := by
  obtain ⟨hstem, hnext, hfresh⟩ := hfirst.counts.trans hrest.counts
  refine ⟨hstem, hnext, hfresh, ?_⟩
  rw [hrest.bound, hfirst.bound, List.append_assoc]

theorem Binds.numbered (h : Binds s t first) (hs : s.Numbered) : t.Numbered := by
  intro name hname
  rw [h.bound, List.mem_append] at hname
  rcases hname with hold | hnew
  · exact Gave.after (hs name hold) h.counts
  · exact h.counts.gave hnew

/-- Names that the counter gives are different from each other. -/
theorem Binds.nodup (h : Binds s t first) : first.Nodup := by
  rw [h.fresh, List.Nodup, List.pairwise_map]
  exact List.Pairwise.imp (fun hne heq => hne (s.numbered_injective heq)) List.nodup_range'

end Parameters

/-! Binding a name, and adding a value. -/

variable {s t : Parameters}

theorem Assoc.insert_of_not_mem {ν : Type} {name : String} {value : ν} {entries : List (String × ν)}
    (h : name ∉ entries.map Prod.fst) :
    Assoc.insert name value entries = entries ++ [(name, value)] := by
  induction entries with
  | nil => rfl
  | cons entry rest ih =>
      simp only [List.map_cons, List.mem_cons, not_or] at h
      have hne : ¬(entry.1 == name) = true := by
        simpa using Ne.symm h.1
      rw [Assoc.insert, if_neg hne, ih h.2, List.cons_append]

theorem Assoc.map_fst_insert {ν : Type} (name : String) (value : ν) (entries : List (String × ν)) :
    (Assoc.insert name value entries).map Prod.fst =
      if name ∈ entries.map Prod.fst then entries.map Prod.fst
      else entries.map Prod.fst ++ [name] := by
  induction entries with
  | nil => rfl
  | cons entry rest ih =>
      by_cases hname : entry.1 = name
      · simp [Assoc.insert, hname]
      · have hne : name ≠ entry.1 := Ne.symm hname
        simp only [Assoc.insert, beq_iff_eq, hname, ↓reduceIte, List.map_cons, ih, List.mem_cons,
          hne, false_or]
        split_ifs <;> rfl

/-- Binding a name keeps what stands before it and moves nothing else. -/
theorem Compile.yields_bindName {name : String} {value : Value} {x : Unit}
    (h : (Compile.bindName name value).Yields s x t) :
    t = { s with bound := Assoc.insert name value s.bound } := by
  unfold Compile.bindName at h
  cases hget : Assoc.get? name s.bound with
  | none => simpa [hget] using h
  | some existing =>
      cases hequal : existing.equal? value with
      | none => simp [hget, hequal] at h
      | some same =>
          cases same with
          | false => simp [hget, hequal] at h
          | true => simpa [hget, hequal] using h

/-- Adding a value binds the name that the counter gives. -/
theorem Compile.yields_addValue {value : Value} {name : String}
    (h : (Compile.addValue value).Yields s name t) :
    name = s.numbered s.next ∧
      t = { s with next := s.next + 1, bound := Assoc.insert name value s.bound } := by
  simp only [Compile.addValue, yields_bind, yields_get, yields_set, yields_pure] at h
  obtain ⟨_, _, ⟨rfl, rfl⟩, _, _, rfl, _, _, hbind, rfl, rfl⟩ := h
  rw [Compile.yields_bindName hbind]
  exact ⟨rfl, rfl⟩

/-- A value that is bound leaves a placeholder with the name that the counter gives. -/
theorem Compile.yields_bindValue {value : Value} {sql : Sql}
    (h : (Compile.bindValue value).Yields s sql t) :
    sql = [.param (s.numbered s.next)] ∧
      t = { s with
        next := s.next + 1
        bound := Assoc.insert (s.numbered s.next) value s.bound } := by
  simp only [Compile.bindValue, yields_bind, yields_pure] at h
  obtain ⟨_, _, hadd, rfl, rfl⟩ := h
  obtain ⟨rfl, rfl⟩ := Compile.yields_addValue hadd
  exact ⟨rfl, rfl⟩

/-- If all names so far came from the counter, the name of an added value is the next one. -/
theorem binds_addValue {value : Value} {name : String} (hs : s.Numbered)
    (h : (Compile.addValue value).Yields s name t) : Parameters.Binds s t [name] := by
  obtain ⟨hname, rfl⟩ := Compile.yields_addValue h
  have hnew : name ∉ s.bound.map Prod.fst := by
    intro hmem
    obtain ⟨i, hi, heq⟩ := hs name hmem
    rw [hname] at heq
    have hsame := s.numbered_injective heq
    omega
  refine ⟨rfl, rfl, ?_, ?_⟩
  · simp [hname]
  · simp [Parameters.names, Assoc.insert_of_not_mem hnew]

end QueryLoom
