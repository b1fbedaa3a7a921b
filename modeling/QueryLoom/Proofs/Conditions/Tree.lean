import QueryLoom.Proofs.Conditions.Predicate

/-!
What trees of conditions write. The functions that compile a tree call each other as the tree is
nested; the statements about them are proved together, by the induction that these calls give.
-/

namespace QueryLoom.Conditions

open Lexer

/-- The condition for one entry of a dictionary. -/
def entry (p : Place) (connective : Connective) (key v : Value) : Compile Sql :=
  match keyRole key with
  | .logical inner => logical p connective key inner v
  | .position => p.columns v
  | .predicate => p.predicate key v

section Steps

variable {p : Place} {s t : Parameters} {sql : Sql} {rows : List Sql}

theorem entries_cons (p : Place) (connective : Connective) (key v : Value)
    (rest : List (Value × Value)) :
    entries p connective ((key, v) :: rest) = (do
      let first ← entry p connective key v
      return first :: (← entries p connective rest)) := by
  simp only [entries, entry]
  cases keyRole key <;> rfl

/-- A group that is joined has a member. -/
theorem yields_joined {subject : Value} {connective : Connective} {members : List Sql}
    (h : (p.joined subject connective members).Yields s sql t) :
    members ≠ [] ∧ sql = Sql.join (" " ++ connective.text ++ " ") members ∧ t = s := by
  unfold Place.joined at h
  split_ifs at h with hempty
  · simp at h
  · rw [Compile.yields_pure] at h
    rw [List.isEmpty_iff] at hempty
    exact ⟨hempty, h⟩

theorem yields_entries_cons {connective : Connective} {key v : Value}
    {rest : List (Value × Value)}
    (h : (entries p connective ((key, v) :: rest)).Yields s rows t) :
    ∃ first u more, (entry p connective key v).Yields s first u ∧
      (entries p connective rest).Yields u more t ∧ rows = first :: more := by
  simp only [entries_cons, Compile.yields_bind, Compile.yields_pure] at h
  obtain ⟨first, u, hfirst, more, _, hmore, rfl, rfl⟩ := h
  exact ⟨first, u, more, hfirst, hmore, rfl⟩

theorem yields_logical_dict {outer inner : Connective} {key : Value} {es : List (Value × Value)}
    (h : (logical p outer key inner (.dict es)).Yields s sql t) :
    ∃ members, (entries p inner es).Yields s members t ∧ members ≠ [] ∧
      sql = parenthesized (Sql.join (" " ++ inner.text ++ " ") members) := by
  simp only [logical, Compile.yields_bind, Compile.yields_pure] at h
  obtain ⟨members, _, hmembers, _, _, hjoined, rfl, rfl⟩ := h
  obtain ⟨hne, rfl, rfl⟩ := yields_joined hjoined
  exact ⟨members, hmembers, hne, rfl⟩

theorem yields_logical_groups {outer inner : Connective} {key : Value} {items : List Value}
    (hitems : (!items.isEmpty && items.all Value.isDict) = true)
    (h : (logical p outer key inner (.list items)).Yields s sql t) :
    ∃ found, (groups p inner items).Yields s found t ∧
      sql = parenthesized (Sql.join (" " ++ outer.text ++ " ") found) := by
  simp only [logical, hitems, ↓reduceIte, Compile.yields_bind, Compile.yields_pure] at h
  obtain ⟨found, _, hfound, rfl, rfl⟩ := h
  exact ⟨found, hfound, rfl⟩

theorem yields_logical_columns {outer inner : Connective} {key : Value} {items : List Value}
    (hitems : ¬(!items.isEmpty && items.all Value.isDict) = true)
    (h : (logical p outer key inner (.list items)).Yields s sql t) :
    ∃ members, (p.columnsList items).Yields s members t ∧ members ≠ [] ∧
      sql = parenthesized (Sql.join (" " ++ inner.text ++ " ") members) := by
  simp only [logical, if_neg hitems, Compile.yields_bind, Compile.yields_pure] at h
  obtain ⟨members, _, hmembers, _, _, hjoined, rfl, rfl⟩ := h
  obtain ⟨hne, rfl, rfl⟩ := yields_joined hjoined
  exact ⟨members, hmembers, hne, rfl⟩

/-- A logical key takes a dictionary or a list. -/
theorem not_yields_logical {outer inner : Connective} {key v : Value}
    (hdict : ∀ es, v = .dict es → False) (hlist : ∀ items, v = .list items → False)
    (h : (logical p outer key inner v).Yields s sql t) : False := by
  cases v with
  | dict es => exact hdict es rfl
  | list items => exact hlist items rfl
  | _ => simp [logical] at h

theorem yields_groups_cons {inner : Connective} {es : List (Value × Value)} {rest : List Value}
    (h : (groups p inner (.dict es :: rest)).Yields s rows t) :
    ∃ members u more, (entries p inner es).Yields s members u ∧ members ≠ [] ∧
      (groups p inner rest).Yields u more t ∧
      rows = parenthesized (Sql.join (" " ++ inner.text ++ " ") members) :: more := by
  simp only [groups, Compile.yields_bind, Compile.yields_pure] at h
  obtain ⟨members, u, hmembers, _, _, hjoined, more, _, hmore, rfl, rfl⟩ := h
  obtain ⟨hne, rfl, rfl⟩ := yields_joined hjoined
  exact ⟨members, _, more, hmembers, hne, hmore, rfl⟩

/-- Dictionaries in a list make at least one group. -/
theorem groups_ne_nil {inner : Connective} {items : List Value}
    (hitems : (!items.isEmpty && items.all Value.isDict) = true)
    (h : (groups p inner items).Yields s rows t) : rows ≠ [] := by
  cases items with
  | nil => cases hitems
  | cons v rest =>
      cases v with
      | dict es =>
          obtain ⟨_, _, _, _, _, _, rfl⟩ := yields_groups_cons h
          simp
      | _ => simp [Value.isDict] at hitems

end Steps

variable {backslash : Bool} {p : Place} {s t : Parameters}

theorem written_members {members : List Sql} (h : WrittenAll backslash s members t)
    (connective : Connective) :
    Written backslash s (Sql.join (" " ++ connective.text ++ " ") members) t :=
  h.join (isSpacer_connective connective)

/-- An entry of any kind, followed by the others. -/
theorem writtenAll_entries_cons {connective : Connective} {key v : Value}
    {rest : List (Value × Value)} {rows : List Sql} (hs : s.NamesTokens)
    (hentry : ∀ {u sql}, (entry p connective key v).Yields s sql u → Written backslash s sql u)
    (hrest : ∀ {u t rows}, u.NamesTokens → (entries p connective rest).Yields u rows t →
      WrittenAll backslash u rows t)
    (h : (entries p connective ((key, v) :: rest)).Yields s rows t) :
    WrittenAll backslash s rows t := by
  obtain ⟨first, u, more, hfirst, hmore, rfl⟩ := yields_entries_cons h
  have hwritten := hentry hfirst
  exact .cons hwritten (hrest (hwritten.advances.namesTokens hs) hmore)

/-- The entries of a dictionary, the group under a logical key and the groups of a list are aligned
rows of what they bind. -/
theorem written_entries_logical_groups (hp : p.target.PlainPrefix backslash) :
    (∀ (connective : Connective) (es : List (Value × Value)), Value.rawFreeEntries es = true →
      ∀ {s t rows}, s.NamesTokens → (entries p connective es).Yields s rows t →
        WrittenAll backslash s rows t) ∧
    (∀ (outer : Connective) (key : Value) (inner : Connective) (v : Value), v.rawFree = true →
      ∀ {s t sql}, s.NamesTokens → (logical p outer key inner v).Yields s sql t →
        Written backslash s sql t) ∧
    (∀ (inner : Connective) (items : List Value), Value.rawFreeItems items = true →
      ∀ {s t rows}, s.NamesTokens → (groups p inner items).Yields s rows t →
        WrittenAll backslash s rows t) := by
  apply entries.mutual_induct p
  · intro outer key inner es ih hfree s t sql hs h
    obtain ⟨members, hmembers, _, rfl⟩ := yields_logical_dict h
    exact written_parenthesized (written_members (ih hfree hs hmembers) inner)
  · intro outer key inner items hitems ih hfree s t sql hs h
    obtain ⟨found, hfound, rfl⟩ := yields_logical_groups hitems h
    exact written_parenthesized (written_members (ih hfree hs hfound) outer)
  · intro outer key inner items hitems _ s t sql _ h
    obtain ⟨members, hmembers, _, rfl⟩ := yields_logical_columns hitems h
    exact written_parenthesized (written_members (writtenAll_columnsList hp hmembers) inner)
  · intro v outer key inner hdict hlist _ s t sql _ h
    exact absurd h (not_yields_logical hdict hlist)
  · intro inner _ s t rows _ h
    simp only [groups, Compile.yields_pure] at h
    obtain ⟨rfl, rfl⟩ := h
    exact .nil
  · intro inner es rest ih ihrest hfree s t rows hs h
    rw [Value.rawFreeItems, Bool.and_eq_true] at hfree
    obtain ⟨members, u, more, hmembers, _, hmore, rfl⟩ := yields_groups_cons h
    have hfirst := written_parenthesized (written_members (ih hfree.1 hs hmembers) inner)
    exact .cons hfirst (ihrest hfree.2 (hfirst.advances.namesTokens hs) hmore)
  · intro inner v rest hdict ihrest hfree s t rows hs h
    rw [Value.rawFreeItems, Bool.and_eq_true] at hfree
    refine ihrest hfree.2 hs ?_
    cases v with
    | dict es => exact absurd rfl (hdict es)
    | _ => exact h
  · intro connective _ s t rows _ h
    simp only [entries, Compile.yields_pure] at h
    obtain ⟨rfl, rfl⟩ := h
    exact .nil
  · intro connective key v rest inner hrole ihrest ih hfree s t rows hs h
    rw [Value.rawFreeEntries, Bool.and_eq_true] at hfree
    refine writtenAll_entries_cons hs (fun h => ?_) (ihrest hfree.2) h
    simp only [entry, hrole] at h
    exact ih hfree.1 hs h
  · intro connective key v rest hrole ihrest hfree s t rows hs h
    rw [Value.rawFreeEntries, Bool.and_eq_true] at hfree
    refine writtenAll_entries_cons hs (fun h => ?_) (ihrest hfree.2) h
    simp only [entry, hrole] at h
    exact written_columns hp h
  · intro connective key v rest hrole ihrest hfree s t rows hs h
    rw [Value.rawFreeEntries, Bool.and_eq_true] at hfree
    refine writtenAll_entries_cons hs (fun h => ?_) (ihrest hfree.2) h
    simp only [entry, hrole] at h
    exact written_predicate hp hs hfree.1 h

theorem written_entry {connective : Connective} {key v : Value} {sql : Sql}
    (hp : p.target.PlainPrefix backslash) (hs : s.NamesTokens) (hv : v.rawFree = true)
    (h : (entry p connective key v).Yields s sql t) : Written backslash s sql t := by
  unfold entry at h
  split at h
  · exact (written_entries_logical_groups hp).2.1 _ _ _ v hv hs h
  · exact written_columns hp h
  · exact written_predicate hp hs hv h

/-- Conditions without raw values are an aligned row of what they bind. -/
theorem written_compile {connective : Connective} {v : Value} {sql : Sql}
    (hp : p.target.PlainPrefix backslash) (hs : s.NamesTokens) (hv : v.rawFree = true)
    (h : (compile p connective v).Yields s sql t) : Written backslash s sql t := by
  cases v with
  | dict es =>
      simp only [compile, Compile.yields_bind] at h
      obtain ⟨members, _, hmembers, hjoined⟩ := h
      obtain ⟨_, rfl, rfl⟩ := yields_joined hjoined
      have hall := (written_entries_logical_groups hp).1 _ es hv hs hmembers
      exact written_members hall connective
  | list items =>
      simp only [compile, Compile.yields_bind] at h
      obtain ⟨members, _, hmembers, hjoined⟩ := h
      obtain ⟨_, rfl, rfl⟩ := yields_joined hjoined
      exact written_members (writtenAll_columnsList hp hmembers) connective
  | _ => simp [compile] at h

end QueryLoom.Conditions
