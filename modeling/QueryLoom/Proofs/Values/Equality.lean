import QueryLoom.Proofs.Values.Keys

/-!
Equality of values is transitive. Values that hold no others are equal if they denote equal numbers
or look alike; lists are equal item by item; a dictionary equals another one if each of its entries
stands there under an equal key, which needs keys that can be told apart, as all keys of
dictionaries can.
-/

namespace QueryLoom.Value

/-! Values that hold no others. -/

theorem equalLeaf?_eq_true {a b : Value} : equalLeaf? a b = some true ↔
    (∃ x y, a.quantity? = some x ∧ b.quantity? = some y ∧ x.equal? y = some true) ∨
      sameLook a b = true := by
  rw [equalLeaf?_eq]
  cases hx : a.quantity? with
  | none => simp
  | some x =>
      have hlook : ¬ sameLook a b = true := fun hlook => by
        rw [(quantity?_of_sameLook hlook).1] at hx
        cases hx
      cases hy : b.quantity? with
      | none => simp [hlook]
      | some y => simp [hlook]

theorem equalLeaf?_trans {a b c : Value} (hab : equalLeaf? a b = some true)
    (hbc : equalLeaf? b c = some true) : equalLeaf? a c = some true := by
  rw [equalLeaf?_eq_true] at hab hbc ⊢
  obtain ⟨x, y, hx, hy, hxy⟩ | hab := hab
  · obtain ⟨y', z, hy', hz, hyz⟩ | hbc := hbc
    · cases hy.symm.trans hy'
      exact .inl ⟨x, z, hx, hz, Quantity.equal?_trans (proper_of_quantity? hy) hxy hyz⟩
    · rw [(quantity?_of_sameLook hbc).1] at hy
      cases hy
  · obtain ⟨y, z, hy, hz, hyz⟩ | hbc := hbc
    · rw [(quantity?_of_sameLook hab).2] at hy
      cases hy
    · exact .inr (sameLook_trans hab hbc)

/-- Whether a value is neither a list nor a dictionary. -/
def isFlat : Value → Bool
  | .list _ | .dict _ => false
  | _ => true

/-- What equals a value that holds no others holds none either. -/
theorem isFlat_of_equalLeaf? {a b : Value} (h : equalLeaf? a b = some true) :
    a.isFlat = true ∧ b.isFlat = true := by
  have hflat : ∀ {v : Value} {x : Quantity}, v.quantity? = some x → v.isFlat = true := by
    intro v x hv
    cases v with
    | list items => cases hv
    | dict entries => cases hv
    | _ => rfl
  obtain ⟨x, y, hx, hy, _⟩ | hlook := equalLeaf?_eq_true.mp h
  · exact ⟨hflat hx, hflat hy⟩
  · unfold sameLook at hlook
    split at hlook <;> first | exact ⟨rfl, rfl⟩ | cases hlook

theorem equal?_of_isFlat {a : Value} (h : a.isFlat = true) (b : Value) :
    equal? a b = equalLeaf? a b := by
  cases a with
  | list items => cases h
  | dict entries => cases h
  | _ => rfl

theorem equal?_list_eq_true {xs : List Value} {b : Value} :
    equal? (.list xs) b = some true ↔
      ∃ ys, b = .list ys ∧ xs.length = ys.length ∧ equalItems? xs ys = some true := by
  cases b with
  | list ys =>
      rw [equal?]
      split_ifs with hlength
      · simpa using fun _ => by simpa using hlength
      · simpa using fun heq => absurd heq (by simpa using hlength)
  | _ => simp [equal?, equalLeaf?, quantity?]

theorem equal?_dict_eq_true {es : Dict} {b : Value} :
    equal? (.dict es) b = some true ↔
      ∃ fs, b = .dict fs ∧ es.length = fs.length ∧ equalEntries? es fs = some true := by
  cases b with
  | dict fs =>
      rw [equal?]
      split_ifs with hlength
      · simpa using fun _ => by simpa using hlength
      · simpa using fun heq => absurd heq (by simpa using hlength)
  | _ => simp [equal?, equalLeaf?, quantity?]

/-! Lists and dictionaries. -/

theorem equalItems?_cons_eq_true {x y : Value} {xs ys : List Value} :
    equalItems? (x :: xs) (y :: ys) = some true ↔
      equal? x y = some true ∧ equalItems? xs ys = some true := by
  rw [equalItems?]
  rcases equal? x y with _ | _ | _ <;> simp

/-- Every entry of a dictionary stands in another one: under the first key that equals its own
stands a value that equals its value. -/
theorem equalEntries?_eq_true {es fs : Dict} : equalEntries? es fs = some true ↔
    ∀ entry ∈ es, ∃ found, (fs.find? fun (key, _) => entry.1 == key) = some found ∧
      equal? entry.2 found.2 = some true := by
  induction es with
  | nil => simp [equalEntries?]
  | cons entry rest ih =>
      obtain ⟨k, v⟩ := entry
      have hfind : (fs.find? fun (key, _) => equal? k key == some true) =
          fs.find? fun (key, _) => k == key := rfl
      rw [equalEntries?, hfind, List.forall_mem_cons, ← ih]
      cases fs.find? fun (key, _) => k == key with
      | none => simp
      | some found =>
          dsimp only
          rcases hequal : equal? v found.2 with _ | _ | _ <;> simp [hequal]

mutual

/-- Whether all keys of dictionaries inside a value can be keys. -/
def wellKeyed : Value → Bool
  | .list items => wellKeyedItems items
  | .dict entries => wellKeyedEntries entries
  | _ => true
termination_by structural v => v

def wellKeyedItems : List Value → Bool
  | [] => true
  | v :: rest => wellKeyed v && wellKeyedItems rest
termination_by structural vs => vs

def wellKeyedEntries : List (Value × Value) → Bool
  | [] => true
  | (key, v) :: rest => key.isHashable && (wellKeyed v && wellKeyedEntries rest)
termination_by structural es => es

end

theorem wellKeyedEntries_iff {es : Dict} : wellKeyedEntries es = true ↔
    ∀ entry ∈ es, entry.1.isHashable = true ∧ entry.2.wellKeyed = true := by
  induction es with
  | nil => simp [wellKeyedEntries]
  | cons entry rest ih => simp [wellKeyedEntries, ih, and_assoc]

/-- Equal keys are found at the same place. -/
theorem find?_of_beq {k j : Value} {fs : Dict} (hk : k.isHashable = true) (hj : j.isHashable = true)
    (hfs : ∀ entry ∈ fs, entry.1.isHashable = true) (hkj : (k == j) = true) :
    (fs.find? fun (key, _) => k == key) = fs.find? fun (key, _) => j == key := by
  have hsame : ∀ entry ∈ fs, (k == entry.1) = (j == entry.1) := by
    intro entry hentry
    have hkey := hfs entry hentry
    rw [Bool.eq_iff_iff]
    exact ⟨comparable_hashable.trans hj hk hkey (comparable_hashable.symm hk hj hkj),
      comparable_hashable.trans hk hj hkey hkj⟩
  induction fs with
  | nil => rfl
  | cons entry rest ih =>
      obtain ⟨hfirst, hrest⟩ := List.forall_mem_cons.mp hsame
      have hlater := ih (fun e he => hfs e (List.mem_cons_of_mem _ he)) hrest
      simp only [List.find?_cons, hfirst, hlater]

theorem equal?_trans_all :
    (∀ a b : Value, ∀ c : Value, a.wellKeyed = true → b.wellKeyed = true → c.wellKeyed = true →
      equal? a b = some true → equal? b c = some true → equal? a c = some true) ∧
    (∀ es fs : Dict, ∀ gs : Dict, wellKeyedEntries es = true → wellKeyedEntries fs = true →
      wellKeyedEntries gs = true → equalEntries? es fs = some true →
      equalEntries? fs gs = some true → equalEntries? es gs = some true) ∧
    (∀ xs ys : List Value, ∀ zs : List Value, wellKeyedItems xs = true →
      wellKeyedItems ys = true → wellKeyedItems zs = true → xs.length = ys.length →
      ys.length = zs.length → equalItems? xs ys = some true → equalItems? ys zs = some true →
      equalItems? xs zs = some true) := by
  apply equal?.mutual_induct
  · intro xs ys _ ih c ha hb hc hab hbc
    obtain ⟨_, heq, hxy, hitems⟩ := equal?_list_eq_true.mp hab
    obtain ⟨zs, rfl, hyz, hmore⟩ := equal?_list_eq_true.mp hbc
    cases heq
    exact equal?_list_eq_true.mpr ⟨zs, rfl, hxy.trans hyz, ih zs ha hb hc hxy hyz hitems hmore⟩
  · intro xs ys hne c _ _ _ hab _
    obtain ⟨_, heq, hxy, _⟩ := equal?_list_eq_true.mp hab
    cases heq
    exact absurd (beq_iff_eq.mpr hxy) hne
  · intro es fs _ ih c ha hb hc hab hbc
    obtain ⟨_, heq, hef, hentries⟩ := equal?_dict_eq_true.mp hab
    obtain ⟨gs, rfl, hfg, hmore⟩ := equal?_dict_eq_true.mp hbc
    cases heq
    exact equal?_dict_eq_true.mpr ⟨gs, rfl, hef.trans hfg, ih gs ha hb hc hentries hmore⟩
  · intro es fs hne c _ _ _ hab _
    obtain ⟨_, heq, hef, _⟩ := equal?_dict_eq_true.mp hab
    cases heq
    exact absurd (beq_iff_eq.mpr hef) hne
  · intro a b hlist hdict c _ _ _ hab hbc
    have hflat : a.isFlat = true := by
      cases a with
      | list xs =>
          obtain ⟨ys, rfl, _⟩ := equal?_list_eq_true.mp hab
          exact (hlist xs ys rfl rfl).elim
      | dict es =>
          obtain ⟨fs, rfl, _⟩ := equal?_dict_eq_true.mp hab
          exact (hdict es fs rfl rfl).elim
      | _ => rfl
    rw [equal?_of_isFlat hflat] at hab ⊢
    rw [equal?_of_isFlat (isFlat_of_equalLeaf? hab).2] at hbc
    exact equalLeaf?_trans hab hbc
  · intro x xs y ys _ ih ihrest zs hx hy hz hxy hyz hitems hmore
    cases zs with
    | nil => cases hyz
    | cons z zs =>
        rw [wellKeyedItems, Bool.and_eq_true] at hx hy hz
        rw [equalItems?_cons_eq_true] at hitems hmore ⊢
        exact ⟨ih z hx.1 hy.1 hz.1 hitems.1 hmore.1,
          ihrest zs hx.2 hy.2 hz.2 (Nat.succ.inj hxy) (Nat.succ.inj hyz) hitems.2 hmore.2⟩
  · intro x xs y ys hne _ zs _ _ _ _ _ hitems _
    exact absurd (equalItems?_cons_eq_true.mp hitems).1 hne
  · intro xs ys hcons zs _ _ _ hxy hyz _ _
    cases xs with
    | nil => cases zs <;> rfl
    | cons x xs =>
        cases ys with
        | nil => cases hxy
        | cons y ys => exact (hcons x xs y ys rfl rfl).elim
  · intro fs gs _ _ _ _ _
    rfl
  · intro k v rest fs hnone _ gs _ _ _ hentries _
    obtain ⟨found, hfound, _⟩ := equalEntries?_eq_true.mp hentries (k, v) List.mem_cons_self
    exact absurd (hnone.symm.trans hfound) (by simp)
  · intro k v rest fs j w hfound _ _ ih ihrest gs hes hfs hgs hentries hmore
    obtain ⟨⟨hk, hv⟩, hrest⟩ := List.forall_mem_cons.mp (wellKeyedEntries_iff.mp hes)
    have hall := equalEntries?_eq_true.mp hentries
    obtain ⟨⟨_, hsome, hvw⟩, hlater⟩ := List.forall_mem_cons.mp hall
    cases hfound.symm.trans hsome
    have hmem : (j, w) ∈ fs := List.mem_of_find?_eq_some hfound
    have hkj : (k == j) = true := List.find?_some (p := fun entry : Value × Value => k == entry.1) hfound
    obtain ⟨hj, hw⟩ := wellKeyedEntries_iff.mp hfs (j, w) hmem
    obtain ⟨last, hlast, hwlast⟩ := equalEntries?_eq_true.mp hmore (j, w) hmem
    have hkeys := wellKeyedEntries_iff.mp hgs
    rw [equalEntries?_eq_true, List.forall_mem_cons]
    refine ⟨⟨last, ?_, ?_⟩, ?_⟩
    · rw [find?_of_beq hk hj (fun entry hentry => (hkeys entry hentry).1) hkj]
      exact hlast
    · exact ih last.2 hv hw (hkeys last (List.mem_of_find?_eq_some hlast)).2 hvw hwlast
    · exact equalEntries?_eq_true.mp (ihrest gs (wellKeyedEntries_iff.mpr hrest) hfs hgs
        (equalEntries?_eq_true.mpr hlater) hmore)
  · intro k v rest fs j w hfound hne _ _ gs _ _ _ hentries _
    obtain ⟨found, hsome, hequal⟩ := equalEntries?_eq_true.mp hentries (k, v) List.mem_cons_self
    cases hfound.symm.trans hsome
    exact absurd hequal hne

/-- Equality of values is transitive, also inside lists and dictionaries. -/
theorem equal?_trans {a b c : Value} (ha : a.wellKeyed = true) (hb : b.wellKeyed = true)
    (hc : c.wellKeyed = true) (hab : equal? a b = some true) (hbc : equal? b c = some true) :
    equal? a c = some true :=
  equal?_trans_all.1 a b c ha hb hc hab hbc

end QueryLoom.Value
