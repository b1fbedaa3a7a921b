import QueryLoom.Proofs.Results.Chunks
import QueryLoom.Proofs.Runs.Keeping

/-!
Actions whose outcome does not depend on the state. Where the counter stands, what the history holds and
which thread an action runs on may differ; if the executor answers a statement in the same way
everywhere, the verb that issued it has the same outcome everywhere.
-/

namespace QueryLoom

variable {σ τ α β : Type}

/-- From each good state the action ends in an outcome with a property, and in a good state. -/
def Action.Ends (Good : DatabaseState σ τ → Prop) (m : Action σ τ α)
    (Q : Except Fault α → Prop) : Prop :=
  ∀ s, Good s → ∃ r u, (ExceptT.run m).run s = (r, u) ∧ Q r ∧ Good u

/-- The action has one outcome in all good states. -/
def Action.Gives (Good : DatabaseState σ τ → Prop) (m : Action σ τ α) (r : Except Fault α) : Prop :=
  Action.Ends Good m (· = r)

namespace Action

variable {Good : DatabaseState σ τ → Prop} {m : Action σ τ α} {Q : Except Fault α → Prop}
  {R : Except Fault β → Prop} {r : Except Fault α}

namespace Ends

theorem pure {a : α} (h : Q (.ok a)) : Ends Good (Pure.pure a) Q :=
  fun s hs => ⟨.ok a, s, rfl, h, hs⟩

theorem throw {f : Fault} (h : Q (.error f)) : Ends Good (MonadExcept.throw f) Q :=
  fun s hs => ⟨.error f, s, rfl, h, hs⟩

theorem bind {k : α → Action σ τ β} (hm : Ends Good m Q) (hok : ∀ a, Q (.ok a) → Ends Good (k a) R)
    (herror : ∀ f, Q (.error f) → R (.error f)) : Ends Good (m >>= k) R := by
  intro s hs
  obtain ⟨r, u, hrun, hQ, hu⟩ := hm s hs
  simp only [ExceptT.run_bind, StateT.run_bind, hrun]
  cases r with
  | error f => exact ⟨.error f, u, rfl, herror f hQ, hu⟩
  | ok a => exact hok a hQ u hu

/-- What goes on from the state. -/
theorem get {k : DatabaseState σ τ → Action σ τ β} (h : ∀ s, Good s → Ends Good (k s) R) :
    Ends Good (MonadState.get >>= k) R :=
  fun s hs => h s hs s hs

/-- What goes on after bookkeeping. -/
theorem modify {f : DatabaseState σ τ → DatabaseState σ τ} {k : Unit → Action σ τ β}
    (hf : ∀ s, Good s → Good (f s)) (h : Ends Good (k ()) R) :
    Ends Good (modify f >>= k) R :=
  fun s hs => h (f s) (hf s hs)

theorem attempt (hm : Ends Good m Q) :
    Ends Good (Database.attempt m) fun ended => ∃ r, ended = .ok r ∧ Q r := by
  intro s hs
  obtain ⟨r, u, hrun, hQ, hu⟩ := hm s hs
  exact ⟨.ok r, u, congrArg (Prod.map Except.ok id) hrun, ⟨r, rfl, hQ⟩, hu⟩

end Ends

namespace Gives

theorem pure (a : α) : Gives Good (Pure.pure a) (.ok a) := Ends.pure rfl

theorem throw (f : Fault) : Gives Good (MonadExcept.throw f : Action σ τ α) (.error f) :=
  Ends.throw rfl

theorem lift (r : Except Fault α) : Gives Good (Database.lift r) r := by
  cases r with
  | ok a => exact pure a
  | error f => exact throw f

theorem bind {k : α → Action σ τ β} {l : α → Except Fault β} (hm : Gives Good m r)
    (hk : ∀ a, r = .ok a → Gives Good (k a) (l a)) : Gives Good (m >>= k) (r >>= l) := by
  refine Ends.bind hm ?_ ?_
  · rintro a rfl
    exact hk a rfl
  · rintro f rfl
    rfl

theorem map {f : α → β} (hm : Gives Good m r) : Gives Good (do return f (← m)) (r.map f) := by
  have hbind := hm.bind (l := fun a => .ok (f a)) fun a _ => pure (f a)
  cases r with
  | ok a => exact hbind
  | error fault => exact hbind

/-- Goes on from an action that does not fail. -/
theorem bind_ok {k : α → Action σ τ β} {a : α} {r : Except Fault β} (hm : Gives Good m (.ok a))
    (hk : Gives Good (k a) r) : Gives Good (m >>= k) r :=
  bind (l := fun _ => r) hm fun b hb => by
    cases hb
    exact hk

theorem attempt (hm : Gives Good m r) : Gives Good (Database.attempt m) (.ok r) := by
  intro s hs
  obtain ⟨ended, u, hrun, ⟨_, rfl, rfl⟩, hu⟩ := Ends.attempt hm s hs
  exact ⟨_, u, hrun, rfl, hu⟩

variable {actions : List (Action σ τ α)} {outcomes : List (Except Fault α)}

theorem inOrder (h : List.Forall₂ (Gives Good) actions outcomes) :
    Gives Good (Database.inOrder actions) (outcomes.mapM id) := by
  induction h with
  | nil => exact pure []
  | cons hfirst _ ih =>
      rw [List.mapM_cons]
      exact hfirst.bind fun _ _ => ih.bind fun _ _ => pure _

theorem runAll (h : List.Forall₂ (Gives Good) actions outcomes) :
    Gives Good (Database.runAll actions) (.ok outcomes) := by
  induction h with
  | nil => exact pure []
  | cons hfirst _ ih => exact hfirst.attempt.bind_ok (ih.bind_ok (pure _))

end Gives

end Action

/-- In shared states with a property, the executor carries a statement out with a result that has
another property, whichever thread asks for it. -/
def Executor.Answers (e : Executor σ τ) (J : σ → Prop) (c : Compiled) (P : ExecutionResult → Prop) :
    Prop :=
  ∀ s t, J s → ∃ result u, (ExceptT.run (e.execute c.text c.paramsDict)).run (s, t) =
    (.ok result, u) ∧ P result ∧ J u.1

/-- The statement of a step is answered in this way wherever the counter stands when it is compiled. -/
def Executor.AnswersStep (e : Executor σ τ) (J : σ → Prop) (step : Compile Compiled)
    (P : ExecutionResult → Prop) : Prop :=
  ∀ n c, (Statement.run step n).1 = .ok c → e.Answers J c P

namespace Database

open QueryLoom.Action

/-- States without a pending dry run in which the shared part of the executor has a property. -/
structure Ready (J : σ → Prop) (s : DatabaseState σ τ) : Prop where
  dryRun : s.thread.dryRun = false
  shared : J s.shared

variable {J : σ → Prop} {db : Database σ τ} {executor : Executor σ τ}

/-! Workers. -/

theorem gives_onNewThread {m : Action σ τ α} {r : Except Fault α} (h : Gives (Ready J) m r) :
    Gives (Ready J) (db.onNewThread m) r := by
  intro s hs
  obtain ⟨ended, u, hrun, hr, hu⟩ := h { s with thread := db.newThread s.thread } ⟨rfl, hs.shared⟩
  exact ⟨ended, { u with thread := s.thread }, onNewThread_run hrun, hr, hs.dryRun, hu.shared⟩

/-- Actions on a worker have the outcome that they have in order. -/
theorem gives_onWorker {actions : List (Action σ τ α)} {outcomes : List (Except Fault α)}
    (h : List.Forall₂ (Gives (Ready J)) actions outcomes) :
    Gives (Ready J) (db.onWorker actions) (outcomes.mapM id) := by
  refine gives_onNewThread ?_
  cases h with
  | nil => exact .pure []
  | cons hfirst hrest =>
      rw [List.mapM_cons]
      exact hfirst.bind fun _ _ => (Gives.runAll hrest).bind_ok
        ((Gives.lift _).bind fun _ _ => .pure _)

/-- Inside and outside a transaction, with what goes on from the results. -/
theorem gives_inOrder_or_onWorker {actions : List (Action σ τ α)} {outcomes : List (Except Fault α)}
    (h : List.Forall₂ (Gives (Ready J)) actions outcomes) {k : List α → Action σ τ β}
    {l : List α → Except Fault β} (hk : ∀ results, Gives (Ready J) (k results) (l results)) :
    Gives (Ready J) (do
      let results ← if ← inTransaction then inOrder actions else db.onWorker actions
      k results) (outcomes.mapM id >>= l) := by
  refine Ends.get fun s _ => ?_
  cases s.thread.inTransaction with
  | true => exact (Gives.inOrder h).bind fun results _ => hk results
  | false => exact (gives_onWorker h).bind fun results _ => hk results

/-! Verbs. -/

/-- A statement is compiled as it is with the counter somewhere. -/
theorem ends_compile (step : Compile Compiled) :
    Ends (Ready J) (compile step : Action σ τ Compiled) fun r =>
      ∃ n, r = (Statement.run step n).1 := by
  intro s hs
  have hlift : Ends (Ready J) (do
      let compiled ← Database.lift (Statement.run step s.next).1
      report ⟨.debug, .compiler, "Compiled " ++ compiled.body.text⟩
      return compiled : Action σ τ Compiled) fun r => ∃ n, r = (Statement.run step n).1 := by
    refine Ends.bind (Gives.lift _) ?_ ?_
    · rintro c hc
      refine Ends.modify ?_ (.pure ⟨s.next, hc⟩)
      exact fun _ hs => ⟨hs.dryRun, hs.shared⟩
    · rintro f hf
      exact ⟨s.next, hf⟩
  exact hlift { s with next := (Statement.run step s.next).2 } ⟨hs.dryRun, hs.shared⟩

theorem gives_mapping {m : Mapping α} {r : Except Fault α} (h : m.EndsIn r) :
    Gives (Ready J) (mapping m : Action σ τ α) r := by
  have hmapping : Gives (Ready J) (do
      modify fun s => { s with journal := s.journal ++ (Shape.run m).2 }
      Database.lift (Shape.run m).1 : Action σ τ α) r := by
    rw [h.run]
    exact Ends.modify (fun _ hs => ⟨hs.dryRun, hs.shared⟩) (Gives.lift r)
  exact hmapping

/-- A statement that the executor answers. -/
theorem ends_executeCompiled (hexecutor : db.executor = some executor) {c : Compiled}
    {P : ExecutionResult → Prop} (h : executor.Answers J c P) :
    Ends (Ready J) (db.executeCompiled c) fun r =>
      ∃ result, r = .ok (.result result) ∧ P result := by
  have hstep : Ends (Ready J) (executorStep (executor.execute c.text c.paramsDict) :
      Action σ τ ExecutionResult) fun r => ∃ result, r = .ok result ∧ P result := by
    intro s hs
    obtain ⟨result, u, hrun, hP, hJ⟩ := h s.shared s.thread.part hs.shared
    exact ⟨.ok result, _, executorStep_run hrun, ⟨result, rfl, hP⟩, hs.dryRun, hJ⟩
  unfold executeCompiled Database.execute
  rw [hexecutor]
  refine Ends.get fun s hs => ?_
  rw [if_neg (by simp [hs.dryRun])]
  refine Ends.modify (fun _ hs => ⟨hs.dryRun, hs.shared⟩) ?_
  refine Ends.modify (fun _ hs => ⟨hs.dryRun, hs.shared⟩) ?_
  refine hstep.attempt.bind ?_ ?_
  · rintro _ ⟨_, heq, result, rfl, hP⟩
    cases heq
    exact .pure ⟨result, rfl, hP⟩
  · rintro f ⟨_, heq, -⟩
    cases heq

/-- A verb has one outcome if its statement is compiled with one outcome, whatever its parameters are
called, and the executor answers it with results of which one thing is made. -/
theorem gives_verb (hexecutor : db.executor = some executor) {step : Compile Compiled}
    {verdict : Except Fault (Option ColumnTree)}
    (hverdict : ∀ n, (Statement.run step n).1.map Compiled.columns = verdict)
    {P : ExecutionResult → Prop} (hanswers : executor.AnswersStep J step P)
    {f : Compiled → ExecutionResult → Action σ τ Reply}
    {g : Option ColumnTree → Except Fault Reply}
    (hf : ∀ c result, P result → Gives (Ready J) (f c result) (g c.columns)) :
    Gives (Ready J) (do
      let compiled ← compile step
      replyWith (← db.executeCompiled compiled) (f compiled)) (verdict >>= g) := by
  refine (ends_compile step).bind ?_ ?_
  · rintro c ⟨n, hc⟩
    have hcolumns : verdict = .ok c.columns := by
      rw [← hverdict n, ← hc]
      rfl
    rw [hcolumns]
    refine (ends_executeCompiled hexecutor (hanswers n c hc.symm)).bind ?_ ?_
    · rintro _ ⟨result, heq, hP⟩
      cases heq
      exact hf c result hP
    · rintro f ⟨result, heq, -⟩
      cases heq
  · rintro fault ⟨n, hfault⟩
    have hrefused : verdict = .error fault := by
      rw [← hverdict n, ← hfault]
      rfl
    rw [hrefused]
    rfl

end Database

end QueryLoom
