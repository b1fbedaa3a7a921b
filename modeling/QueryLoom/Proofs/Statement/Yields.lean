import QueryLoom.Proofs.Values.Texts
import QueryLoom.Statement.Parameters

/-!
Steps of compilation that succeed. A proof about a step starts from the fact that it yields a result
and takes it apart along its binds; the equations here say what a step of each form yields.
-/

namespace QueryLoom

/-- The step, started in a state, succeeds with a result and leaves a state. -/
structure Compile.Yields {α : Type} (m : Compile α) (s : Parameters) (a : α) (t : Parameters) :
    Prop where
  run : (ExceptT.run m).run s = (.ok a, t)

theorem Except.bind_eq_ok {ε α β : Type} {x : Except ε α} {k : α → Except ε β} {b : β} :
    x >>= k = .ok b ↔ ∃ a, x = .ok a ∧ k a = .ok b := by
  cases x with
  | error e =>
      constructor
      · intro h
        cases h
      · rintro ⟨a, h, _⟩
        cases h
  | ok a =>
      constructor
      · intro h
        exact ⟨a, rfl, h⟩
      · rintro ⟨a', h, hk⟩
        cases h
        exact hk

theorem Except.pure_eq_ok {ε α : Type} {a b : α} : (pure a : Except ε α) = .ok b ↔ b = a := by
  change (Except.ok a : Except ε α) = .ok b ↔ _
  simp only [Except.ok.injEq, eq_comm]

namespace Compile

variable {α β : Type} {s t u : Parameters} {a : α} {b : β}

theorem yields_iff {m : Compile α} : m.Yields s a t ↔ (ExceptT.run m).run s = (.ok a, t) :=
  ⟨Yields.run, Yields.mk⟩

@[simp] theorem yields_pure (c : α) : (pure c : Compile α).Yields s a t ↔ a = c ∧ t = s := by
  rw [yields_iff]
  change ((Except.ok c, s) : Except Fault α × Parameters) = (.ok a, t) ↔ _
  simp only [Prod.mk.injEq, Except.ok.injEq, eq_comm]

@[simp] theorem yields_throw (fault : Fault) : (throw fault : Compile α).Yields s a t ↔ False := by
  rw [yields_iff]
  change ((Except.error fault, s) : Except Fault α × Parameters) = (.ok a, t) ↔ _
  simp

@[simp] theorem yields_bind (m : Compile α) (k : α → Compile β) :
    (m >>= k).Yields s b u ↔ ∃ a t, m.Yields s a t ∧ (k a).Yields t b u := by
  simp only [yields_iff, ExceptT.run_bind, StateT.run_bind]
  rcases hm : (ExceptT.run m).run s with ⟨fault | a, t⟩
  · constructor
    · intro h
      cases h
    · rintro ⟨a, t', h, _⟩
      cases h
  · constructor
    · intro h
      exact ⟨a, t, rfl, h⟩
    · rintro ⟨a', t', h, hk⟩
      cases h
      exact hk

theorem Yields.run_bind {m : Compile α} (h : m.Yields s a t) (k : α → Compile β) :
    (ExceptT.run (m >>= k)).run s = (ExceptT.run (k a)).run t := by
  rw [ExceptT.run_bind, StateT.run_bind, h.run]
  rfl

theorem throw_bind (fault : Fault) (k : α → Compile β) :
    (throw fault : Compile α) >>= k = throw fault :=
  rfl

@[simp] theorem yields_lift (result : Except Fault α) :
    (Compile.lift result).Yields s a t ↔ result = .ok a ∧ t = s := by
  cases result <;> simp [Compile.lift, eq_comm]

theorem requireText_of_hasText {v : Value} (h : v.hasText = true) : requireText v = pure () := by
  rw [requireText, Value.checkText_of_hasText h]
  rfl

@[simp] theorem yields_requireText (v : Value) {x : Unit} :
    (requireText v).Yields s x t ↔ v.hasText = true ∧ t = s := by
  rw [requireText, yields_lift, Value.checkText_eq_ok]

@[simp] theorem yields_get {r : Parameters} :
    (get : Compile Parameters).Yields s r t ↔ r = s ∧ t = s := by
  rw [yields_iff]
  change ((Except.ok s, s) : Except Fault Parameters × Parameters) = (.ok r, t) ↔ _
  simp only [Prod.mk.injEq, Except.ok.injEq, eq_comm]

@[simp] theorem yields_set {r : Parameters} {x : PUnit} :
    (set r : Compile PUnit).Yields s x t ↔ t = r := by
  rw [yields_iff]
  change ((Except.ok PUnit.unit, r) : Except Fault PUnit × Parameters) = (.ok x, t) ↔ _
  simp only [Prod.mk.injEq, true_and, eq_comm]

end Compile

end QueryLoom
