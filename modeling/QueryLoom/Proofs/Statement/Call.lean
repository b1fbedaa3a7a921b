import QueryLoom.Proofs.Statement.Yields
import QueryLoom.Statement.Compiled
import QueryLoom.Statement.Verb

/-!
Calls of verbs: the defaults that complete the arguments of a call, and the run of what a call compiles
to.
-/

namespace QueryLoom

namespace Signature

/-- What is filled in without any given names are the defaults, one for each parameter. -/
theorem map_some_fillNamed {parameters : List Parameter} {values : List Value}
    (h : fillNamed [] parameters = .ok values) :
    values.map some = parameters.map Parameter.default := by
  induction parameters generalizing values with
  | nil =>
      cases h
      rfl
  | cons p rest ih =>
      cases hdefault : p.default with
      | none =>
          simp only [fillNamed, hdefault, List.find?_nil, Option.map_none, Except.bind_eq_ok] at h
          obtain ⟨_, h, _⟩ := h
          cases h
      | some v =>
          simp only [fillNamed, hdefault, List.find?_nil, Option.map_none, Except.bind_eq_ok,
            Except.pure_eq_ok, Except.ok.injEq] at h
          obtain ⟨_, rfl, more, hmore, rfl⟩ := h
          rw [List.map_cons, List.map_cons, ih hmore, hdefault]

theorem length_fillNamed {given : List (String × Value)} {parameters : List Parameter}
    {values : List Value} (h : fillNamed given parameters = .ok values) :
    values.length = parameters.length := by
  induction parameters generalizing values with
  | nil =>
      cases h
      rfl
  | cons p rest ih =>
      have hmore : ∃ v more, fillNamed given rest = .ok more ∧ values = v :: more := by
        simp only [fillNamed] at h
        split at h
        · simp only [Except.bind_eq_ok, Except.pure_eq_ok] at h
          obtain ⟨v, _, h⟩ := h
          exact ⟨v, h⟩
        · simp only [Except.bind_eq_ok, Except.pure_eq_ok] at h
          obtain ⟨v, _, h⟩ := h
          exact ⟨v, h⟩
        · cases h
      obtain ⟨v, more, hmore, rfl⟩ := hmore
      rw [List.length_cons, List.length_cons, ih hmore]

/-- The values of a call are as many as its parameters. -/
theorem length_bind {s : Signature} {args values : List Value} {given : List (String × Value)}
    (h : s.bind args given = .ok values) :
    values.length = s.positional.length + s.named.length := by
  by_cases hmany : s.positional.length < args.length
  · simp only [bind, hmany, if_true] at h
    cases h
  · simp only [bind, hmany, if_false] at h
    split_ifs at h
    · cases h
    · simp only [Except.bind_eq_ok, Except.pure_eq_ok] at h
      obtain ⟨more, hmore, rfl⟩ := h
      have hlength := length_fillNamed hmore
      rw [List.length_append, List.length_drop] at hlength
      rw [List.length_append]
      omega

theorem default_of_mem_fillNamed {parameters : List Parameter} {values : List Value} {v : Value}
    (h : fillNamed [] parameters = .ok values) (hv : v ∈ values) :
    ∃ p ∈ parameters, p.default = some v := by
  have hmem : some v ∈ values.map some := List.mem_map_of_mem hv
  rw [map_some_fillNamed h] at hmem
  exact List.mem_map.mp hmem

/-- A call by position has its arguments, then the defaults of the parameters that are left. -/
theorem bind_eq_append {parameters : List Parameter} {args values : List Value}
    (h : bind ⟨parameters, []⟩ args [] = .ok values) :
    ∃ defaults, fillNamed [] (parameters.drop args.length) = .ok defaults ∧
      values = args ++ defaults := by
  simp only [bind, List.any_nil, Bool.false_eq_true, ↓reduceIte, List.append_nil] at h
  split_ifs at h
  · cases h
  · simp only [Except.bind_eq_ok, Except.pure_eq_ok] at h
    exact h

end Signature

theorem Statement.yields_of_run {α : Type} {m : Compile α} {next last : Nat} {a : α}
    (h : run m next = (.ok a, last)) :
    ∃ u, m.Yields (Parameters.start next) a u ∧ u.next = last := by
  unfold run at h
  rcases hm : (ExceptT.run m).run (Parameters.start next) with ⟨result, state⟩
  simp only [hm, Prod.mk.injEq] at h
  obtain ⟨rfl, rfl⟩ := h
  exact ⟨state, ⟨hm⟩, rfl⟩

/-- A run off whose result something can be read has one. -/
theorem Statement.exists_run_of_map {α β : Type} {m : Compile α} {next : Nat} {f : α → β} {b : β}
    (h : (run m next).1.toOption.map f = some b) : ∃ a last, run m next = (.ok a, last) ∧ f a = b := by
  rcases hrun : run m next with ⟨_ | a, last⟩
  · simp [hrun, Except.toOption] at h
  · simp only [hrun, Except.toOption, Option.map_some, Option.some.injEq] at h
    exact ⟨a, last, rfl, h⟩

theorem Statement.run_of_yields {α : Type} {m : Compile α} {next : Nat} {a : α} {u : Parameters}
    (h : m.Yields (Parameters.start next) a u) : run m next = (.ok a, u.next) := by
  have hm : (ExceptT.run m).run (Parameters.start next) = (.ok a, u) := Compile.yields_iff.mp h
  rw [run, hm]

end QueryLoom
