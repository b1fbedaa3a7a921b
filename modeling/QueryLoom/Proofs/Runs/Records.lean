import QueryLoom.Proofs.Runs.Keeping

/-!
What steps of an executor add to a record. The record is a part of the state that all threads share and
only grows, such as the actions that have reached a driver or the failures that it has had. From one
state, a step ends in a result and a state, and what is said of them is said together with the items
that the step has added.
-/

namespace QueryLoom

variable {σ τ ε α β : Type}

/-- From a state, a step adds items to the record, and they belong together with its result and with
the state that it leaves. -/
def Step.Adds (record : σ → List ε) (step : Step σ τ α) (u : σ × τ)
    (Q : Except Fault α → List ε → σ × τ → Prop) : Prop :=
  ∃ result v added, (ExceptT.run step).run u = (result, v) ∧
    record v.1 = record u.1 ++ added ∧ Q result added v

namespace Step.Adds

variable {record : σ → List ε} {step : Step σ τ α} {u : σ × τ}
  {Q Q' : Except Fault α → List ε → σ × τ → Prop} {R : Except Fault β → List ε → σ × τ → Prop}

theorem pure {a : α} (h : Q (.ok a) [] u) : Adds record (Pure.pure a : Step σ τ α) u Q :=
  ⟨.ok a, u, [], rfl, (List.append_nil _).symm, h⟩

theorem throw {f : Fault} (h : Q (.error f) [] u) :
    Adds record (MonadExcept.throw f : Step σ τ α) u Q :=
  ⟨.error f, u, [], rfl, (List.append_nil _).symm, h⟩

theorem mono (h : Adds record step u Q)
    (hQ : ∀ result added v, record v.1 = record u.1 ++ added → Q result added v →
      Q' result added v) : Adds record step u Q' := by
  obtain ⟨result, v, added, hrun, hrecord, hresult⟩ := h
  exact ⟨result, v, added, hrun, hrecord, hQ result added v hrecord hresult⟩

theorem bind {next : α → Step σ τ β} (h : Adds record step u Q)
    (hok : ∀ a added v, record v.1 = record u.1 ++ added → Q (.ok a) added v →
      Adds record (next a) v fun result more w => R result (added ++ more) w)
    (herror : ∀ f added v, Q (.error f) added v → R (.error f) added v) :
    Adds record (step >>= next) u R := by
  obtain ⟨result, v, added, hrun, hrecord, hresult⟩ := h
  cases result with
  | error f =>
      exact ⟨.error f, v, added, Database.run_bind_error hrun, hrecord, herror f added v hresult⟩
  | ok a =>
      obtain ⟨last, w, more, hnext, hmore, hlast⟩ := hok a added v hrecord hresult
      refine ⟨last, w, added ++ more, ?_, ?_, hlast⟩
      · rw [Database.run_bind_ok hrun, hnext]
      · rw [hmore, hrecord, List.append_assoc]

/-- A step that only works on what is shared. -/
theorem shared {action : StateM σ α} {a : α} {s : σ} {added : List ε} {t : τ} {s' : σ}
    {Q : Except Fault α → List ε → σ × τ → Prop} (hrun : action.run s = (a, s'))
    (hrecord : record s' = record s ++ added) (hQ : Q (.ok a) added (s', t)) :
    Adds record (Step.shared action : Step σ τ α) (s, t) Q := by
  refine ⟨.ok a, (s', t), added, ?_, hrecord, hQ⟩
  have hshared : (ExceptT.run (Step.shared action : Step σ τ α)).run (s, t) =
      (.ok (action.run s).1, ((action.run s).2, t)) := rfl
  rw [hshared, hrun]

theorem attempt (h : Adds record step u Q) :
    Adds record (Step.attempt step) u fun ended added v =>
      ∃ result, ended = .ok result ∧ Q result added v := by
  obtain ⟨result, v, added, hrun, hrecord, hresult⟩ := h
  exact ⟨.ok result, v, added, congrArg (Prod.map Except.ok id) hrun, hrecord, result, rfl, hresult⟩

/-- A step with another one behind it that does not fail. -/
theorem andFinally {last : Step σ τ Unit} (h : Adds record step u Q)
    (hlast : ∀ result added v, record v.1 = record u.1 ++ added → Q result added v →
      Adds record last v fun ended more w => ended = .ok () ∧ Q' result (added ++ more) w) :
    Adds record (Step.andFinally step last) u Q' := by
  refine h.attempt.bind ?_ ?_
  · rintro result added v hrecord ⟨_, heq, hresult⟩
    cases heq
    refine (hlast result added v hrecord hresult).bind ?_ ?_
    · rintro _ more w - ⟨-, hQ'⟩
      rw [← List.append_nil (added ++ more), List.append_assoc] at hQ'
      cases result with
      | ok a => exact pure hQ'
      | error f => exact throw hQ'
    · rintro f more w ⟨heq, -⟩
      cases heq
  · rintro f added v ⟨_, heq, -⟩
    cases heq

end Step.Adds

end QueryLoom
