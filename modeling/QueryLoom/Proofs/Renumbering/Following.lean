import QueryLoom.Proofs.Renumbering.Names

/-!
Two runs of compilation, the second of which starts when the counter stands further on. One step
follows another if from such states it ends in the same way: with the same fault, or with the same
result but for the numbers of its names, and with the counter again so much further on. Steps that
follow each other may be put one after the other.
-/

namespace QueryLoom

open Parameters (generated renumber)

/-- What the second run does to names. Numbers that are given by the counter are moved; what would be
done to other placeholders is left open, as there are none. Names that raw values bring are the same
in both runs. -/
structure Renumbering where
  offset : Nat
  /-- The least number that is given. -/
  least : Nat
  /-- The first number that is not given any more. -/
  limit : Nat
  /-- What names raw values may bring. -/
  Brought : String → Prop
  /-- What is done to placeholders. -/
  placed : String → String
  placed_generated : ∀ i, least ≤ i → i < limit → placed (generated i) = generated (i + offset)
  renumber_brought : ∀ name, Brought name → renumber offset name = name

/-- A result that does not blame a name for being bound twice. -/
def Blameless {α : Type} (x : Except Fault α) : Prop :=
  ∀ name v w, x ≠ .error (.duplicateParameter name v w)

/-- Whether a fault blames a name for being bound twice. -/
def Fault.blamesName : Fault → Bool
  | .duplicateParameter _ _ _ => true
  | _ => false

theorem Fault.blamesName_showing {v : Value} {f : Fault} (h : f.blamesName = false) :
    (Fault.showing v f).blamesName = false := by
  unfold showing
  split_ifs
  · exact h
  · rfl

theorem Blameless.error {α : Type} {fault : Fault} (h : fault.blamesName = false) :
    Blameless (.error fault : Except Fault α) := by
  intro name v w heq
  cases heq
  cases h

theorem Blameless.showing {α : Type} {v : Value} {fault : Fault} (h : fault.blamesName = false) :
    Blameless (.error (.showing v fault) : Except Fault α) :=
  .error (Fault.blamesName_showing h)

namespace Renumbering

variable {α β γ δ : Type} {φ : Renumbering} {s u : Parameters}

/-- A state that a compilation can be in: names that are bound were given by the counter, or brought
by raw values. -/
structure Ready (φ : Renumbering) (s : Parameters) : Prop where
  stem : s.stem = Parameters.defaultStem
  least : φ.least ≤ s.next
  names : ∀ name ∈ s.names,
    (∃ i, φ.least ≤ i ∧ i < s.next ∧ name = generated i) ∨ φ.Brought name

/-- How a run ends that starts in a state: it gives no number back, and finds no name bound twice but
one that a raw value brought. -/
structure Outcome (φ : Renumbering) (s : Parameters) (result : Except Fault α) (u : Parameters) :
    Prop where
  ready : φ.Ready u
  next : s.next ≤ u.next
  brought : ∀ name v w, result = .error (.duplicateParameter name v w) → φ.Brought name

/-- The second step, started further on, ends as the first one does, as long as the first one stays
below the limit. -/
def Follows (φ : Renumbering) (f : α → β) (m : Compile α) (n : Compile β) : Prop :=
  ∀ ⦃s : Parameters⦄, φ.Ready s → ∃ result u, (ExceptT.run m).run s = (result, u) ∧
    φ.Outcome s result u ∧
    (u.next ≤ φ.limit →
      (ExceptT.run n).run (s.shift φ.offset) = (result.map f, u.shift φ.offset))

variable {f : α → β} {g : γ → δ}

theorem Outcome.ok (hs : φ.Ready s) (a : α) : φ.Outcome s (.ok a) s :=
  ⟨hs, Nat.le_refl _, fun _ _ _ h => by cases h⟩

theorem Follows.pure {a : α} {b : β} (h : f a = b) : φ.Follows f (pure a) (pure b) := by
  intro s hs
  subst h
  exact ⟨.ok a, s, rfl, .ok hs a, fun _ => rfl⟩

theorem Follows.lift {x : Except Fault α} {y : Except Fault β} (hx : Blameless x)
    (hmap : x.map f = y) : φ.Follows f (Compile.lift x) (Compile.lift y) := by
  intro s hs
  subst hmap
  refine ⟨x, s, ?_, ⟨hs, Nat.le_refl _, fun name v w h => absurd h (hx name v w)⟩, fun _ => ?_⟩
  · cases x <;> rfl
  · cases x <;> rfl

theorem Follows.throw {fault : Fault} (h : Blameless (.error fault : Except Fault α)) :
    φ.Follows f (throw fault) (throw fault) :=
  Follows.lift h rfl

/-- A step that goes on from what another step may yield. -/
theorem Follows.bind_of {m : Compile α} {n : Compile β} {k : α → Compile γ} {l : β → Compile δ}
    (h : φ.Follows f m n) (hk : ∀ a, (∃ s u, m.Yields s a u) → φ.Follows g (k a) (l (f a))) :
    φ.Follows g (m >>= k) (n >>= l) := by
  intro s hs
  obtain ⟨result, u, hm, hfirst, hn⟩ := h hs
  simp only [ExceptT.run_bind, StateT.run_bind, hm]
  cases result with
  | error fault =>
      refine ⟨.error fault, u, rfl, ⟨hfirst.ready, hfirst.next, ?_⟩, fun hlimit => ?_⟩
      · intro name v w heq
        cases heq
        exact hfirst.brought name v w rfl
      · rw [hn hlimit]
        rfl
  | ok a =>
      obtain ⟨final, t, hka, hrest, hl⟩ := hk a ⟨s, u, ⟨hm⟩⟩ hfirst.ready
      refine ⟨final, t, hka, ⟨hrest.ready, Nat.le_trans hfirst.next hrest.next, hrest.brought⟩, ?_⟩
      intro hlimit
      rw [hn (Nat.le_trans hrest.next hlimit)]
      exact hl hlimit

theorem Follows.bind {m : Compile α} {n : Compile β} {k : α → Compile γ} {l : β → Compile δ}
    (h : φ.Follows f m n) (hk : ∀ a, φ.Follows g (k a) (l (f a))) :
    φ.Follows g (m >>= k) (n >>= l) :=
  h.bind_of fun a _ => hk a

/-- A step that goes on from results in which no name stands. -/
theorem Follows.bind_id {m n : Compile α} {k : α → Compile γ} {l : α → Compile δ}
    (h : φ.Follows id m n) (hk : ∀ a, φ.Follows g (k a) (l a)) :
    φ.Follows g (m >>= k) (n >>= l) :=
  h.bind hk

/-- A function of results. -/
theorem Follows.map {m : Compile α} {n : Compile β} (h : φ.Follows f m n) {p : α → γ} {q : β → δ}
    (hpq : ∀ a, g (p a) = q (f a)) :
    φ.Follows g (do return p (← m)) (do return q (← n)) :=
  h.bind fun a => .pure (hpq a)

/-- A result that is put before other results. -/
theorem Follows.cons {m : Compile α} {n : Compile β} {k : Compile (List γ)} {l : Compile (List δ)}
    (h : φ.Follows f m n) (hrest : φ.Follows (List.map g) k l) {p : α → γ} {q : β → δ}
    (hpq : ∀ a, g (p a) = q (f a)) :
    φ.Follows (List.map g) (do let a ← m; return p a :: (← k)) (do let b ← n; return q b :: (← l)) :=
  h.bind fun a => hrest.map fun rows => by rw [List.map_cons, hpq]

/-! Binding. -/

theorem run_bindName (name : String) (v : Value) (s : Parameters) :
    (ExceptT.run (Compile.bindName name v)).run s =
      match Assoc.get? name s.bound with
      | some existing =>
          match existing.equal? v with
          | some true => (.ok (), { s with bound := Assoc.insert name v s.bound })
          | some false =>
              (.error (.showing existing (.showing v (.duplicateParameter name existing v))), s)
          | none => (.error .invalidOperation, s)
      | none => (.ok (), { s with bound := Assoc.insert name v s.bound }) := by
  change (ExceptT.run (match Assoc.get? name s.bound with
    | some existing =>
        match existing.equal? v with
        | some true => set { s with bound := Assoc.insert name v s.bound }
        | some false => throw (.showing existing (.showing v (.duplicateParameter name existing v)))
        | none => throw .invalidOperation
    | none => set { s with bound := Assoc.insert name v s.bound } : Compile Unit)).run s = _
  cases Assoc.get? name s.bound with
  | none => rfl
  | some existing =>
      dsimp only
      rcases existing.equal? v with _ | _ | _ <;> rfl

/-- Binding a name, which a raw value brought or the counter has just given. -/
theorem outcome_bindName {name : String} (v : Value) (hs : φ.Ready s)
    (hname : (∃ i, φ.least ≤ i ∧ i < s.next ∧ name = generated i) ∨ φ.Brought name)
    (hbound : name ∈ s.names → φ.Brought name) :
    ∃ result u, (ExceptT.run (Compile.bindName name v)).run s = (result, u) ∧
      φ.Outcome s result u ∧ u.next = s.next ∧
      (ExceptT.run (Compile.bindName (renumber φ.offset name) v)).run (s.shift φ.offset) =
        (result, u.shift φ.offset) := by
  have hget : Assoc.get? (renumber φ.offset name) (s.shift φ.offset).bound =
      Assoc.get? name s.bound :=
    Assoc.get?_map_of_injective (Parameters.renumber_injective _) name s.bound
  have hinsert : Assoc.insert (renumber φ.offset name) v (s.shift φ.offset).bound =
      (Parameters.shift φ.offset { s with bound := Assoc.insert name v s.bound }).bound :=
    Assoc.insert_map_of_injective (Parameters.renumber_injective _) name v s.bound
  have hready : φ.Ready { s with bound := Assoc.insert name v s.bound } := by
    refine ⟨hs.stem, hs.least, fun other hother => ?_⟩
    rw [Parameters.names, Assoc.map_fst_insert] at hother
    split_ifs at hother
    · exact hs.names other hother
    · rcases List.mem_append.mp hother with hold | hnew
      · exact hs.names other hold
      · rw [List.mem_singleton.mp hnew]
        exact hname
  simp only [run_bindName, hget, hinsert]
  cases hfound : Assoc.get? name s.bound with
  | none =>
      exact ⟨.ok (), _, rfl, ⟨hready, Nat.le_refl _, fun _ _ _ h => by cases h⟩, rfl, rfl⟩
  | some existing =>
      have hbrought : φ.Brought name := by
        obtain ⟨key, hmem, hkey⟩ := Assoc.mem_of_get? hfound
        rw [beq_iff_eq] at hkey
        exact hbound (List.mem_map.mpr ⟨(key, existing), hmem, hkey⟩)
      rw [φ.renumber_brought name hbrought]
      dsimp only
      rcases existing.equal? v with _ | _ | _
      · exact ⟨_, s, rfl, ⟨hs, Nat.le_refl _, fun _ _ _ h => by cases h⟩, rfl, rfl⟩
      · refine ⟨_, s, rfl, ⟨hs, Nat.le_refl _, fun other w x h => ?_⟩, rfl, rfl⟩
        have hfault := Fault.eq_of_showing (Except.error.inj h) (by simp)
        cases Fault.eq_of_showing hfault (by simp)
        exact hbrought
      · exact ⟨.ok (), _, rfl, ⟨hready, Nat.le_refl _, fun _ _ _ h => by cases h⟩, rfl, rfl⟩

/-- A name that a raw value brought is bound in both runs. -/
theorem follows_bindName {name : String} (v : Value) (h : φ.Brought name) :
    φ.Follows id (Compile.bindName name v) (Compile.bindName name v) := by
  intro s hs
  obtain ⟨result, u, hrun, houtcome, -, hshifted⟩ :=
    outcome_bindName v hs (.inr h) fun _ => h
  rw [φ.renumber_brought name h] at hshifted
  refine ⟨result, u, hrun, houtcome, fun _ => ?_⟩
  rw [hshifted]
  cases result <;> rfl

theorem run_addValue (v : Value) (hs : s.stem = Parameters.defaultStem) :
    (ExceptT.run (Compile.addValue v)).run s =
      (ExceptT.run (do
        Compile.bindName (generated s.next) v
        return generated s.next)).run { s with next := s.next + 1 } := by
  rw [generated, ← hs]
  rfl

/-- The counter gives a fresh name in both runs. -/
theorem follows_addValue (v : Value) :
    φ.Follows φ.placed (Compile.addValue v) (Compile.addValue v) := by
  intro s hs
  have hready : φ.Ready { s with next := s.next + 1 } := by
    refine ⟨hs.stem, Nat.le_succ_of_le hs.least, fun name hname => ?_⟩
    rcases hs.names name hname with ⟨i, hle, hlt, rfl⟩ | hbrought
    · exact .inl ⟨i, hle, Nat.lt_succ_of_lt hlt, rfl⟩
    · exact .inr hbrought
  -- a name that stands there with this number was brought, since the counter has not given it yet
  have hbound : generated s.next ∈ s.names → φ.Brought (generated s.next) := by
    intro hmem
    rcases hs.names _ hmem with ⟨i, _, hlt, heq⟩ | hbrought
    · have hsame := Parameters.generated_injective heq
      omega
    · exact hbrought
  obtain ⟨result, u, hrun, houtcome, hnext, hshifted⟩ :=
    outcome_bindName v hready (.inl ⟨s.next, hs.least, Nat.lt_succ_self _, rfl⟩) hbound
  rw [run_addValue v hs.stem, run_addValue (s := s.shift φ.offset) v hs.stem]
  have hstate : { s.shift φ.offset with next := (s.shift φ.offset).next + 1 } =
      Parameters.shift φ.offset { s with next := s.next + 1 } := by
    simp only [Parameters.shift, Nat.add_right_comm]
  have hname : generated (s.shift φ.offset).next = renumber φ.offset (generated s.next) := by
    rw [Parameters.renumber_generated]
    rfl
  rw [hstate, hname]
  simp only [ExceptT.run_bind, StateT.run_bind, hrun, hshifted]
  have hle : s.next ≤ u.next := Nat.le_of_succ_le (Nat.le_of_eq hnext.symm)
  cases result with
  | error fault =>
      refine ⟨.error fault, u, rfl, ⟨houtcome.ready, hle, ?_⟩, fun _ => rfl⟩
      intro name w x heq
      cases heq
      exact houtcome.brought name w x rfl
  | ok _ =>
      refine ⟨.ok (generated s.next), u, rfl, ⟨houtcome.ready, hle, fun _ _ _ h => by cases h⟩, ?_⟩
      intro hlimit
      have hlt : s.next < φ.limit := Nat.lt_of_lt_of_le (Nat.lt_of_succ_le (Nat.le_of_eq hnext.symm)) hlimit
      have hplaced := φ.placed_generated s.next hs.least hlt
      rw [Parameters.renumber_generated, ← hplaced]
      rfl

/-- What is done to SQL. -/
abbrev sql (φ : Renumbering) : Sql → Sql := Sql.mapParams φ.placed

theorem follows_bindValue (v : Value) :
    φ.Follows φ.sql (Compile.bindValue v) (Compile.bindValue v) :=
  (follows_addValue v).map fun _ => rfl

theorem blameless_checkText (v : Value) : Blameless v.checkText := by
  intro name existing w h
  unfold Value.checkText at h
  split_ifs at h
  cases h

theorem follows_requireText (v : Value) :
    φ.Follows id (Compile.requireText v) (Compile.requireText v) :=
  .lift (blameless_checkText v) (by cases v.checkText <;> rfl)

theorem follows_merge {parameters : Dict}
    (h : ∀ entry ∈ parameters, φ.Brought (Compile.parameterName entry.1)) :
    φ.Follows id (Compile.merge parameters) (Compile.merge parameters) := by
  induction parameters with
  | nil => exact .pure rfl
  | cons entry rest ih =>
      rw [List.forall_mem_cons] at h
      exact (follows_requireText _).bind_id fun _ =>
        (follows_bindName entry.2 h.1).bind_id fun _ => ih h.2

theorem follows_splice {tablePrefix raw : String} {parameters : Dict}
    (h : (Value.raw raw parameters).BringsOnly φ.Brought) :
    φ.Follows φ.sql (Compile.splice tablePrefix raw parameters)
      (Compile.splice tablePrefix raw parameters) :=
  (follows_merge (Value.bringsOnly_raw.mp h)).map fun _ => rfl

end Renumbering

end QueryLoom
