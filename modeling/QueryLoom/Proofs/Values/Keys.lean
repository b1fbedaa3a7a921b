import Mathlib.Tactic.Common
import QueryLoom.Value.Equality

/-!
Maps that are put together of parts. Writing the entries of a map is the same as writing all that was
written to make it: of equal keys the first keeps its place and the last gives its value. Equality of
keys need not be reflexive for that, as it is not for numbers that are not numbers. Under a key that
equals nothing but itself the value written last is found.
-/

namespace QueryLoom

/-- Texts are equal as keys only if they are the same. -/
theorem Value.str_beq_str (a b : String) : (Value.str a == Value.str b) = (a == b) := by
  change (Value.equal? (.str a) (.str b) == some true) = (a == b)
  have hequal : Value.equal? (.str a) (.str b) = some (a == b) := rfl
  rw [hequal]
  cases a == b <;> rfl

theorem Value.eq_str_of_beq {v : Value} {a : String} (h : (v == Value.str a) = true) :
    v = .str a := by
  cases v with
  | str b =>
      rw [Value.str_beq_str, beq_iff_eq] at h
      rw [h]
  | _ => cases h

namespace Assoc

variable {κ ν : Type} [BEq κ] {P : κ → Prop} {key k j : κ} {value v w : ν}
  {entries found : List (κ × ν)}

/-- Equality of some keys is symmetric and transitive. -/
structure Comparable (P : κ → Prop) : Prop where
  symm : ∀ {a b}, P a → P b → (a == b) = true → (b == a) = true
  trans : ∀ {a b c}, P a → P b → P c → (a == b) = true → (b == c) = true → (a == c) = true

/-- No key equals one that stands before it. -/
def Distinct (entries : List (κ × ν)) : Prop :=
  entries.Pairwise fun e f => ¬ (e.1 == f.1) = true

theorem forall_key_insert (hkey : P key) (h : ∀ e ∈ entries, P e.1) :
    ∀ e ∈ insert key value entries, P e.1 := by
  induction entries with
  | nil => simpa [insert] using hkey
  | cons entry rest ih =>
      obtain ⟨k, v⟩ := entry
      have hk : P k := h (k, v) List.mem_cons_self
      have hrest : ∀ e ∈ rest, P e.1 := fun e he => h e (List.mem_cons_of_mem _ he)
      rw [insert]
      split_ifs
      · exact List.forall_mem_cons.mpr ⟨hk, hrest⟩
      · exact List.forall_mem_cons.mpr ⟨hk, ih hrest⟩

theorem forall_key_merge (hfound : ∀ e ∈ found, P e.1) (h : ∀ e ∈ entries, P e.1) :
    ∀ e ∈ merge found entries, P e.1 := by
  induction entries generalizing found with
  | nil => exact hfound
  | cons entry rest ih =>
      obtain ⟨hkey, hrest⟩ := List.forall_mem_cons.mp h
      exact ih (forall_key_insert hkey hfound) hrest

theorem distinct_insert (h : Distinct entries) : Distinct (insert key value entries) := by
  induction entries with
  | nil => simp [insert, Distinct]
  | cons entry rest ih =>
      obtain ⟨k, v⟩ := entry
      obtain ⟨hfirst, hrest⟩ := List.pairwise_cons.mp h
      rw [insert]
      split_ifs with hk
      · exact List.pairwise_cons.mpr ⟨hfirst, hrest⟩
      · refine List.pairwise_cons.mpr ⟨?_, ih hrest⟩
        exact forall_key_insert (P := fun j => ¬ (k == j) = true) hk hfirst

theorem distinct_merge (h : Distinct found) (entries : List (κ × ν)) :
    Distinct (merge found entries) := by
  induction entries generalizing found with
  | nil => exact h
  | cons entry rest ih => exact ih (distinct_insert h)

theorem get?_map_entries {μ : Type} (f : ν → μ) (key : κ) (entries : List (κ × ν)) :
    get? key (entries.map fun entry => (entry.1, f entry.2)) = (get? key entries).map f := by
  induction entries with
  | nil => rfl
  | cons entry rest ih =>
      obtain ⟨k, v⟩ := entry
      rw [List.map_cons, get?, get?, ih]
      split_ifs <;> rfl

/-- Keys that were found are found after another entry was written. -/
theorem found_insert {Q : κ → Prop} (h : ∃ e ∈ entries, Q e.1) :
    ∃ e ∈ insert key value entries, Q e.1 := by
  induction entries with
  | nil => simp at h
  | cons entry rest ih =>
      obtain ⟨k, v⟩ := entry
      rw [insert]
      obtain ⟨e, he, hkey⟩ := h
      rcases List.mem_cons.mp he with rfl | he
      · split_ifs
        · exact ⟨_, List.mem_cons_self, hkey⟩
        · exact ⟨_, List.mem_cons_self, hkey⟩
      · split_ifs
        · exact ⟨e, List.mem_cons_of_mem _ he, hkey⟩
        · obtain ⟨e, he, hkey⟩ := ih ⟨e, he, hkey⟩
          exact ⟨e, List.mem_cons_of_mem _ he, hkey⟩

/-- The written key is found under itself or under one that equals it. -/
theorem key_insert (key : κ) (value : ν) (entries : List (κ × ν)) :
    ∃ e ∈ insert key value entries, e.1 = key ∨ (e.1 == key) = true := by
  induction entries with
  | nil => exact ⟨(key, value), by simp [insert], .inl rfl⟩
  | cons entry rest ih =>
      obtain ⟨k, v⟩ := entry
      rw [insert]
      split_ifs with h
      · exact ⟨(k, value), List.mem_cons_self, .inr h⟩
      · obtain ⟨e, he, hkey⟩ := ih
        exact ⟨e, List.mem_cons_of_mem _ he, hkey⟩

/-! Keys that equal nothing but themselves. -/

section Plain

variable {name : κ} {before after more : List (κ × ν)}

/-- A key that equals nothing but itself. -/
structure Plain (name : κ) : Prop where
  left : ∀ k, (name == k) = true ↔ k = name
  right : ∀ k, (k == name) = true ↔ k = name

theorem Plain.get?_insert (h : Plain name) (key : κ) (v : ν) (entries : List (κ × ν)) :
    get? name (insert key v entries) = if key == name then some v else get? name entries := by
  induction entries with
  | nil => rfl
  | cons entry rest ih =>
      obtain ⟨k, w⟩ := entry
      rw [insert, get?]
      by_cases hk : (k == key) = true
      · rw [if_pos hk, get?]
        by_cases hname : (k == name) = true
        · obtain rfl := (h.right k).mp hname
          rw [if_pos hname, if_pos ((h.right key).mpr ((h.left key).mp hk))]
        · have hkey : ¬(key == name) = true := fun heq => by
            obtain rfl := (h.right key).mp heq
            exact hname hk
          rw [if_neg hname, if_neg hkey, if_neg hname]
      · rw [if_neg hk, get?, ih]
        by_cases hname : (k == name) = true
        · obtain rfl := (h.right k).mp hname
          have hkey : ¬(key == k) = true := fun heq => by
            obtain rfl := (h.right key).mp heq
            exact hk ((h.left key).mpr rfl)
          rw [if_pos hname, if_neg hkey, if_pos hname]
        · rw [if_neg hname, if_neg hname]

theorem Plain.get?_of_forall_ne (h : Plain name) (hentries : ∀ e ∈ entries, e.1 ≠ name) :
    get? name entries = none := by
  induction entries with
  | nil => rfl
  | cons entry rest ih =>
      obtain ⟨hentry, hrest⟩ := List.forall_mem_cons.mp hentries
      rw [get?, if_neg fun heq => hentry ((h.right entry.1).mp heq)]
      exact ih hrest

/-- Entries under other keys leave what is found under a key. -/
theorem Plain.get?_merge_other (h : Plain name) (hmore : ∀ e ∈ more, e.1 ≠ name) :
    get? name (merge found more) = get? name found := by
  induction more generalizing found with
  | nil => rfl
  | cons entry rest ih =>
      obtain ⟨hentry, hrest⟩ := List.forall_mem_cons.mp hmore
      have hkey : ¬(entry.1 == name) = true := fun heq => hentry ((h.right _).mp heq)
      change get? name (merge (insert entry.1 entry.2 found) rest) = _
      rw [ih hrest, h.get?_insert, if_neg hkey]

/-- What is written last under a key is found there. -/
theorem Plain.get?_merge_last (h : Plain name) (hafter : ∀ e ∈ after, e.1 ≠ name) :
    get? name (merge found (before ++ (name, v) :: after)) = some v := by
  have hsplit : merge found (before ++ (name, v) :: after) =
      merge (insert name v (merge found before)) after := by
    simp [merge]
  rw [hsplit, h.get?_merge_other hafter, h.get?_insert, if_pos ((h.right name).mpr rfl)]

/-- Of the entries that were written the last one counts, and without one what was there before. -/
theorem Plain.get?_merge (h : Plain name) (hdistinct : Distinct more) :
    get? name (merge found more) = (get? name more).or (get? name found) := by
  induction more generalizing found with
  | nil => rfl
  | cons entry rest ih =>
      obtain ⟨key, v⟩ := entry
      obtain ⟨hfirst, hrest⟩ := List.pairwise_cons.mp hdistinct
      change get? name (merge (insert key v found) rest) = _
      rw [ih hrest, h.get?_insert, get?]
      split_ifs with hkey
      · obtain rfl := (h.right key).mp hkey
        rw [h.get?_of_forall_ne fun e he heq => hfirst e he ((h.left e.1).mpr heq)]
        rfl
      · rfl

theorem plain_string (name : String) : Plain name where
  left := fun _ => beq_iff_eq.trans eq_comm
  right := fun _ => beq_iff_eq

theorem plain_str (name : String) : Plain (Value.str name) where
  left := fun k => by
    cases k with
    | str other => rw [Value.str_beq_str, beq_iff_eq, Value.str.injEq, eq_comm]
    | _ => exact ⟨nofun, nofun⟩
  right := fun k => by
    refine ⟨Value.eq_str_of_beq, ?_⟩
    rintro rfl
    rw [Value.str_beq_str, beq_self_eq_true]

end Plain

variable (hP : Comparable P)
include hP

/-- Writing an equal key again replaces the value that was written before. -/
theorem insert_insert_of_beq (hk : P k) (hkey : P key) (hfound : ∀ e ∈ found, P e.1)
    (h : (k == key) = true) : insert key w (insert k v found) = insert k w found := by
  induction found with
  | nil => simp [insert, h]
  | cons entry rest ih =>
      obtain ⟨a, x⟩ := entry
      obtain ⟨ha, hrest⟩ := List.forall_mem_cons.mp hfound
      have hsame : (a == key) = true ↔ (a == k) = true :=
        ⟨fun hakey => hP.trans ha hkey hk hakey (hP.symm hk hkey h),
          fun hak => hP.trans ha hk hkey hak h⟩
      by_cases hak : (a == k) = true
      · simp [insert, hak, hsame.mpr hak]
      · have hakey : ¬ (a == key) = true := fun hakey => hak (hsame.mp hakey)
        simp [insert, hak, hakey, ih hrest]

/-- Where a key is found, the writing of another one may come before or after. -/
theorem insert_comm_of_found (hkey : P key) (hj : P j) (hfound : ∀ e ∈ found, P e.1)
    (h : ¬ (key == j) = true) (hhas : ∃ e ∈ found, (e.1 == key) = true) :
    insert key value (insert j w found) = insert j w (insert key value found) := by
  induction found with
  | nil => simp at hhas
  | cons entry rest ih =>
      obtain ⟨a, x⟩ := entry
      obtain ⟨ha, hrest⟩ := List.forall_mem_cons.mp hfound
      by_cases hakey : (a == key) = true
      · have haj : ¬ (a == j) = true := fun haj =>
          h (hP.trans hkey ha hj (hP.symm ha hkey hakey) haj)
        simp [insert, hakey, haj]
      · obtain ⟨e, he, hekey⟩ := hhas
        have hlater : ∃ e ∈ rest, (e.1 == key) = true := by
          rcases List.mem_cons.mp he with rfl | he
          · exact absurd hekey hakey
          · exact ⟨e, he, hekey⟩
        by_cases haj : (a == j) = true
        · simp [insert, hakey, haj]
        · simp [insert, hakey, haj, ih hrest hlater]

/-- Where a key is found, it may be written before other entries or after them. -/
theorem insert_merge_of_found (hkey : P key) (hfound : ∀ e ∈ found, P e.1)
    (hentries : ∀ e ∈ entries, P e.1) (h : ∀ e ∈ entries, ¬ (key == e.1) = true)
    (hhas : ∃ e ∈ found, (e.1 == key) = true) :
    insert key value (merge found entries) = merge (insert key value found) entries := by
  induction entries generalizing found with
  | nil => rfl
  | cons entry rest ih =>
      obtain ⟨j, w⟩ := entry
      obtain ⟨hj, hrest⟩ := List.forall_mem_cons.mp hentries
      obtain ⟨hkeyj, hother⟩ := List.forall_mem_cons.mp h
      have hstill : ∃ e ∈ insert j w found, (e.1 == key) = true :=
        found_insert (Q := fun a => (a == key) = true) hhas
      calc insert key value (merge (insert j w found) rest)
          = merge (insert key value (insert j w found)) rest :=
            ih (forall_key_insert hj hfound) hrest hother hstill
        _ = merge (insert j w (insert key value found)) rest := by
            rw [insert_comm_of_found hP hkey hj hfound hkeyj hhas]

/-- An entry may be written before the others are merged or after. -/
theorem merge_insert (hkey : P key) (hfound : ∀ e ∈ found, P e.1)
    (hentries : ∀ e ∈ entries, P e.1) (hdistinct : Distinct entries) :
    merge found (insert key value entries) = insert key value (merge found entries) := by
  induction entries generalizing found with
  | nil => rfl
  | cons entry rest ih =>
      obtain ⟨k, v⟩ := entry
      obtain ⟨hk, hrest⟩ := List.forall_mem_cons.mp hentries
      obtain ⟨hfirst, hlater⟩ := List.pairwise_cons.mp hdistinct
      rw [insert]
      split_ifs with h
      · have hwritten : ∀ e ∈ insert k v found, P e.1 := forall_key_insert hk hfound
        have hhas : ∃ e ∈ insert k v found, (e.1 == key) = true := by
          obtain ⟨e, he, heq | hek⟩ := key_insert k v found
          · exact ⟨e, he, by rwa [heq]⟩
          · exact ⟨e, he, hP.trans (hwritten e he) hk hkey hek h⟩
        have hother : ∀ e ∈ rest, ¬ (key == e.1) = true := fun e he hsame =>
          hfirst e he (hP.trans hk hkey (hrest e he) h hsame)
        calc merge found ((k, value) :: rest)
            = merge (insert key value (insert k v found)) rest := by
              rw [insert_insert_of_beq hP hk hkey hfound h]
              rfl
          _ = insert key value (merge (insert k v found) rest) :=
              (insert_merge_of_found hP hkey hwritten hrest hother hhas).symm
      · exact ih (forall_key_insert hk hfound) hrest hlater

/-- Merging is associative. -/
theorem merge_merge (hfound : ∀ e ∈ found, P e.1) (hentries : ∀ e ∈ entries, P e.1)
    (hdistinct : Distinct entries) {more : List (κ × ν)} (hmore : ∀ e ∈ more, P e.1) :
    merge found (merge entries more) = merge (merge found entries) more := by
  induction more generalizing entries with
  | nil => rfl
  | cons entry rest ih =>
      obtain ⟨k, v⟩ := entry
      obtain ⟨hk, hrest⟩ := List.forall_mem_cons.mp hmore
      calc merge found (merge (insert k v entries) rest)
          = merge (merge found (insert k v entries)) rest :=
            ih (forall_key_insert hk hentries) (distinct_insert hdistinct) hrest
        _ = merge (insert k v (merge found entries)) rest := by
            rw [merge_insert hP hk hfound hentries hdistinct]

/-- Merging a map is writing the entries that it was made of. -/
theorem merge_ofList (hfound : ∀ e ∈ found, P e.1) (hentries : ∀ e ∈ entries, P e.1) :
    merge found (ofList entries) = merge found entries :=
  merge_merge hP hfound (by simp) List.Pairwise.nil hentries

/-- Maps that are merged in order make the map of all their entries. -/
theorem foldl_merge_ofList {parts : List (List (κ × ν))} (hparts : ∀ part ∈ parts, ∀ e ∈ part, P e.1)
    (hfound : ∀ e ∈ found, P e.1) :
    (parts.map ofList).foldl merge found = merge found parts.flatten := by
  induction parts generalizing found with
  | nil => rfl
  | cons part rest ih =>
      obtain ⟨hpart, hrest⟩ := List.forall_mem_cons.mp hparts
      calc ((part :: rest).map ofList).foldl merge found
          = (rest.map ofList).foldl merge (merge found part) := by
            rw [List.map_cons, List.foldl_cons, merge_ofList hP hfound hpart]
        _ = merge (merge found part) rest.flatten := ih hrest (forall_key_merge hfound hpart)
        _ = merge found (part :: rest).flatten := by
            rw [List.flatten_cons, merge, merge, merge, List.foldl_append]

end Assoc

/-! Equality of values that can be keys. -/

namespace Fraction

variable {a b c : Fraction}

theorem same_symm (h : a.same b = true) : b.same a = true := by
  rw [same, beq_iff_eq] at h ⊢
  exact h.symm

theorem same_trans (hpos : 0 < b.denominator) (hab : a.same b = true) (hbc : b.same c = true) :
    a.same c = true := by
  rw [same, beq_iff_eq] at hab hbc ⊢
  have hne : (b.denominator : Int) ≠ 0 := by omega
  apply Int.eq_of_mul_eq_mul_right hne
  calc a.numerator * c.denominator * b.denominator
      = a.numerator * b.denominator * c.denominator := Int.mul_right_comm _ _ _
    _ = b.numerator * c.denominator * a.denominator := by rw [hab, Int.mul_right_comm]
    _ = c.numerator * a.denominator * b.denominator := by rw [hbc, Int.mul_right_comm]

end Fraction

namespace Quantity

variable {x y z : Quantity}

/-- A quantity whose fraction, if it has one, has a denominator. -/
def Proper : Quantity → Prop
  | .exact f => 0 < f.denominator
  | _ => True

theorem equal?_symm (h : x.equal? y = some true) : y.equal? x = some true := by
  cases x <;> cases y <;> simp_all [equal?, Fraction.same_symm]

theorem equal?_trans (hy : y.Proper) (hxy : x.equal? y = some true)
    (hyz : y.equal? z = some true) : x.equal? z = some true := by
  cases x <;> cases y <;> cases z <;> simp_all [equal?]
  exact Fraction.same_trans hy hxy hyz

theorem proper_ofBinary64 (x : Binary64) : (ofBinary64 x).Proper := by
  cases x with
  | nan => trivial
  | infinite negative => trivial
  | finite negative mantissa exponent =>
      change 0 < 1 <<< (-exponent).toNat
      rw [Nat.one_shiftLeft]
      exact Nat.two_pow_pos _

theorem proper_ofDecimal (d : Decimal) : (ofDecimal d).Proper := by
  cases d with
  | finite negative coefficient exponent => exact Nat.pow_pos (by decide)
  | infinite negative => trivial
  | notANumber negative signalling payload => cases signalling <;> trivial

end Quantity

namespace Value

variable {a b c : Value}

theorem proper_of_quantity? {x : Quantity} (h : a.quantity? = some x) : x.Proper := by
  cases a with
  | bool | int =>
      cases h
      exact Nat.one_pos
  | float y =>
      cases h
      exact Quantity.proper_ofBinary64 y
  | decimal d =>
      cases h
      exact Quantity.proper_ofDecimal d
  | _ => cases h

/-- Values that denote no number are equal if they are of one kind and look alike. -/
def sameLook (a b : Value) : Bool :=
  match a, b with
  | .null, .null => true
  | .str s, .str t => s == t
  | .bytes s, .bytes t => s == t
  | .date s, .date t => s == t
  | .moment s, .moment t => s.same t
  | .clock s, .clock t => s.same t
  | _, _ => false

theorem quantity?_of_sameLook (h : sameLook a b = true) :
    a.quantity? = none ∧ b.quantity? = none := by
  unfold sameLook at h
  split at h <;> first | exact ⟨rfl, rfl⟩ | cases h

theorem sameLook_symm (h : sameLook a b = true) : sameLook b a = true := by
  unfold sameLook at h
  split at h <;> simp_all [sameLook, Moment.same, Clock.same]

theorem sameLook_trans (hab : sameLook a b = true) (hbc : sameLook b c = true) :
    sameLook a c = true := by
  unfold sameLook at hab
  split at hab <;> cases c <;> simp_all [sameLook, Moment.same, Clock.same]

theorem equalLeaf?_eq (a b : Value) :
    equalLeaf? a b = match a.quantity?, b.quantity? with
      | some x, some y => x.equal? y
      | _, _ => some (sameLook a b) := rfl

/-- Two keys are equal if they denote equal numbers, or denote none and look alike. -/
theorem beq_iff_of_hashable (h : a.isHashable = true) : (a == b) = true ↔
    (∃ x y, a.quantity? = some x ∧ b.quantity? = some y ∧ x.equal? y = some true) ∨
      sameLook a b = true := by
  have hleaf : (a == b) = (equalLeaf? a b == some true) := by
    cases a with
    | list items => cases h
    | dict entries => cases h
    | _ => rfl
  rw [hleaf, equalLeaf?_eq, beq_iff_eq]
  cases hx : a.quantity? with
  | none =>
      simp
  | some x =>
      have hlook : ¬ sameLook a b = true := fun hlook => by
        rw [(quantity?_of_sameLook hlook).1] at hx
        cases hx
      cases hy : b.quantity? with
      | none => simp [hlook]
      | some y => simp [hlook]

/-- Equality of keys is symmetric and transitive, also among numbers of different kinds. -/
theorem comparable_hashable : Assoc.Comparable fun v : Value => v.isHashable = true where
  symm := by
    intro a b ha hb h
    rw [beq_iff_of_hashable ha] at h
    rw [beq_iff_of_hashable hb]
    obtain ⟨x, y, hx, hy, hxy⟩ | hlook := h
    · exact .inl ⟨y, x, hy, hx, Quantity.equal?_symm hxy⟩
    · exact .inr (sameLook_symm hlook)
  trans := by
    intro a b c ha hb hc hab hbc
    rw [beq_iff_of_hashable ha] at hab
    rw [beq_iff_of_hashable hb] at hbc
    rw [beq_iff_of_hashable ha]
    obtain ⟨x, y, hx, hy, hxy⟩ | hab := hab
    · obtain ⟨y', z, hy', hz, hyz⟩ | hbc := hbc
      · cases hy.symm.trans hy'
        exact .inl ⟨x, z, hx, hz, Quantity.equal?_trans (proper_of_quantity? hy) hxy hyz⟩
      · rw [(quantity?_of_sameLook hbc).1] at hy
        cases hy
    · obtain ⟨y, z, hy, hz, hyz⟩ | hbc := hbc
      · rw [(quantity?_of_sameLook hab).2] at hy
        cases hy
      · exact .inr (sameLook_trans hab hbc)

end Value

end QueryLoom
