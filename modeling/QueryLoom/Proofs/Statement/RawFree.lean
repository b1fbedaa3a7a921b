import QueryLoom.Proofs.Values.Keys
import QueryLoom.Statement.Read

/-!
Values without raw SQL. A statement made of such values holds no text that the caller vouches for,
apart from the function that orders rows at random. A raw value as a key is refused everywhere, so
only the values under keys are asked for.
-/

namespace QueryLoom

namespace Value

mutual

/-- Whether no raw value stands in a value. -/
def rawFree : Value → Bool
  | .raw _ _ => false
  | .list items => rawFreeItems items
  | .dict entries => rawFreeEntries entries
  | _ => true
termination_by structural v => v

def rawFreeItems : List Value → Bool
  | [] => true
  | v :: rest => rawFree v && rawFreeItems rest
termination_by structural vs => vs

def rawFreeEntries : List (Value × Value) → Bool
  | [] => true
  | (_, v) :: rest => rawFree v && rawFreeEntries rest
termination_by structural es => es

end

theorem rawFreeItems_eq (items : List Value) : rawFreeItems items = items.all rawFree := by
  induction items with
  | nil => rfl
  | cons v rest ih => simp [rawFreeItems, ih]

theorem rawFreeEntries_eq (entries : Dict) :
    rawFreeEntries entries = entries.all fun entry => entry.2.rawFree := by
  induction entries with
  | nil => rfl
  | cons entry rest ih => simp [rawFreeEntries, ih]

theorem rawFree_list {items : List Value} (h : (Value.list items).rawFree = true) :
    ∀ v ∈ items, v.rawFree = true := by
  rwa [rawFree, rawFreeItems_eq, List.all_eq_true] at h

theorem rawFree_dict {entries : Dict} :
    (Value.dict entries).rawFree = true ↔ ∀ entry ∈ entries, entry.2.rawFree = true := by
  rw [rawFree, rawFreeEntries_eq, List.all_eq_true]

/-- Octets that are gone through as numbers are free of raw values. -/
theorem rawFree_octets (octets : List UInt8) :
    ∀ v ∈ octets.map fun o => Value.int o.toNat, v.rawFree = true := by
  simp [rawFree]

end Value

variable {κ : Type} [BEq κ]

theorem Assoc.mem_of_get? {ν : Type} {key : κ} {v : ν} {entries : List (κ × ν)}
    (h : Assoc.get? key entries = some v) : ∃ k, (k, v) ∈ entries ∧ (k == key) = true := by
  induction entries with
  | nil => simp [Assoc.get?] at h
  | cons entry rest ih =>
      obtain ⟨k, w⟩ := entry
      rw [Assoc.get?] at h
      split_ifs at h with hk
      · cases h
        exact ⟨k, by simp, hk⟩
      · obtain ⟨k', hmem, hkey⟩ := ih h
        exact ⟨k', by simp [hmem], hkey⟩

/-- An entry after a key was written: the new one, under the key it was found at, or an old one. -/
theorem Assoc.mem_of_mem_insert {ν : Type} {key : κ} {value : ν} {entries : List (κ × ν)}
    {entry : κ × ν} (hkey : (key == key) = true) (h : entry ∈ Assoc.insert key value entries) :
    (∃ k, (k == key) = true ∧ entry = (k, value)) ∨ entry ∈ entries := by
  induction entries with
  | nil =>
      rw [Assoc.insert, List.mem_singleton] at h
      exact .inl ⟨key, hkey, h⟩
  | cons first rest ih =>
      obtain ⟨k, v⟩ := first
      rw [Assoc.insert] at h
      split_ifs at h with hk
      · rcases List.mem_cons.mp h with rfl | hmem
        · exact .inl ⟨k, hk, rfl⟩
        · exact .inr (List.mem_cons_of_mem _ hmem)
      · rcases List.mem_cons.mp h with rfl | hmem
        · exact .inr (by simp)
        · rcases ih hmem with hnew | hold
          · exact .inl hnew
          · exact .inr (List.mem_cons_of_mem _ hold)

theorem Value.rawFree_withoutLimit {v : Value} (h : v.rawFree = true) :
    (Statement.withoutLimit v).rawFree = true := by
  cases v with
  | dict entries =>
      rw [Statement.withoutLimit, Value.rawFree_dict]
      rw [Value.rawFree_dict] at h
      intro entry hentry
      exact h entry (List.mem_filter.mp hentry).1
  | _ => exact h

end QueryLoom
