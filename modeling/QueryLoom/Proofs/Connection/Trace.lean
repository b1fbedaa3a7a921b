import QueryLoom.Execution.Connection
import QueryLoom.Proofs.Runs.Keeping

/-!
What reaches the driver of a connection while a program runs on a database. The actions of the driver
are recorded, and each step of the executor adds one of a few sequences of them to the record. So the
record of a whole program is a chain of such sequences.
-/

namespace QueryLoom

/-- An action of a driver, and whether it succeeded. -/
inductive ConnectionEvent
  | execute (statement : String) (values : Value) (ok : Bool)
  | closeCursor
  | commit (ok : Bool)
  | rollback (ok : Bool)
  | close

variable {σ α β : Type}

/-- An action of a driver that is recorded as an event. -/
def noting (action : StateM σ α) (event : α → ConnectionEvent) :
    StateM (σ × List ConnectionEvent) α := fun (s, trace) =>
  let (a, s) := action.run s
  (a, (s, trace ++ [event a]))

/-- A connection that records the actions of its driver. -/
def Connection.recorded (c : Connection σ) : Connection (σ × List ConnectionEvent) where
  execute statement values :=
    noting (c.execute statement values) fun result => .execute statement values result.isOk
  closeCursor := noting c.closeCursor fun _ => .closeCursor
  commit := noting c.commit fun result => .commit result.isOk
  rollback := noting c.rollback fun result => .rollback result.isOk
  close := noting c.close fun _ => .close

/-- What a step of the executor sends to the driver, with whether a transaction is open before and
after it. -/
inductive ConnectionStep : Bool → List ConnectionEvent → Bool → Prop
  /-- A statement in a transaction. -/
  | inside (statement : String) (values : Value) (ok : Bool) :
      ConnectionStep true [.execute statement values ok, .closeCursor] true
  /-- A statement of its own that is committed. -/
  | committed (statement : String) (values : Value) :
      ConnectionStep false [.execute statement values true, .commit true, .closeCursor] false
  /-- A statement of its own whose commit fails. -/
  | uncommitted (statement : String) (values : Value) (ok : Bool) :
      ConnectionStep false
        [.execute statement values true, .commit false, .rollback ok, .closeCursor] false
  /-- A statement of its own that fails, or whose rows cannot be fetched. -/
  | failed (statement : String) (values : Value) (executed ok : Bool) :
      ConnectionStep false
        [.execute statement values executed, .rollback ok, .closeCursor] false
  | begin : ConnectionStep false [] true
  | commit (ok : Bool) : ConnectionStep true [.commit ok] false
  | rollback (ok : Bool) : ConnectionStep true [.rollback ok] false
  /-- A beginning in a transaction, or an end outside one. -/
  | refused (isOpen : Bool) : ConnectionStep isOpen [] isOpen

/-- The records of a new connection after some steps, with whether a transaction is open. -/
inductive ConnectionTrace : List ConnectionEvent → Bool → Prop
  | start : ConnectionTrace [] false
  | step {trace events : List ConnectionEvent} {before after : Bool}
      (h : ConnectionTrace trace before) (hstep : ConnectionStep before events after) :
      ConnectionTrace (trace ++ events) after

namespace ConnectionExecutor

variable {isOpen : Bool} (c : Connection σ)

abbrev Recording (σ : Type) := Step (State (σ × List ConnectionEvent)) Unit

/-- What holds of the result of a step, of the events it adds to the record and of whether a
transaction is open afterwards. -/
def Sends (step : Recording σ α) (isOpen : Bool)
    (Q : Except Fault α → List ConnectionEvent → Bool → Prop) : Prop :=
  ∀ driver t, ∃ result u events, (ExceptT.run step).run (⟨driver, isOpen⟩, t) = (result, u) ∧
    u.1.driver.2 = driver.2 ++ events ∧ Q result events u.1.inTransaction

namespace Sends

variable {Q : Except Fault β → List ConnectionEvent → Bool → Prop}

theorem pure {b : β} (h : Q (.ok b) [] isOpen) : Sends (Pure.pure b : Recording σ β) isOpen Q :=
  fun driver _ => ⟨_, _, [], rfl, (List.append_nil driver.2).symm, h⟩

theorem throw {f : Fault} (h : Q (.error f) [] isOpen) :
    Sends (MonadExcept.throw f : Recording σ β) isOpen Q :=
  fun driver _ => ⟨_, _, [], rfl, (List.append_nil driver.2).symm, h⟩

theorem mono {step : Recording σ β} {R : Except Fault β → List ConnectionEvent → Bool → Prop}
    (h : Sends step isOpen R) (hRQ : ∀ result events after, R result events after →
      Q result events after) : Sends step isOpen Q := by
  intro driver t
  obtain ⟨result, u, events, hrun, hdriver, hR⟩ := h driver t
  exact ⟨result, u, events, hrun, hdriver, hRQ _ _ _ hR⟩

theorem bind {m : Recording σ α} {k : α → Recording σ β}
    {R : Except Fault α → List ConnectionEvent → Bool → Prop} (hm : Sends m isOpen R)
    (hok : ∀ a events after, R (.ok a) events after →
      Sends (k a) after fun result more => Q result (events ++ more))
    (herror : ∀ f events after, R (.error f) events after → Q (.error f) events after) :
    Sends (m >>= k) isOpen Q := by
  intro driver t
  obtain ⟨result, u, events, hrun, hdriver, hR⟩ := hm driver t
  simp only [ExceptT.run_bind, StateT.run_bind, hrun]
  cases result with
  | error f => exact ⟨.error f, u, events, rfl, hdriver, herror f events _ hR⟩
  | ok a =>
      obtain ⟨final, v, more, hk, hmore, hQ⟩ := hok a events _ hR u.1.driver u.2
      refine ⟨final, v, events ++ more, hk, ?_, hQ⟩
      rw [hmore, hdriver, List.append_assoc]

/-- An action of the driver, and what goes on from what it gives. -/
theorem drive (action : StateM σ α) (event : α → ConnectionEvent) {k : α → Recording σ β}
    (h : ∀ a, Sends (k a) isOpen fun result more => Q result (event a :: more)) :
    Sends (drive (noting action event) >>= k) isOpen Q := by
  have hdrive : Sends (ConnectionExecutor.drive (noting action event) : Recording σ α) isOpen
      fun result events after => ∃ a, result = .ok a ∧ events = [event a] ∧ after = isOpen :=
    fun driver t => ⟨_, _, [event (action.run driver.1).1], rfl, rfl, _, rfl, rfl, rfl⟩
  refine hdrive.bind ?_ ?_
  · rintro a events after ⟨_, heq, rfl, rfl⟩
    cases heq
    exact h a
  · rintro f events after ⟨a, heq, -⟩
    cases heq

/-- What depends on whether a transaction is open. -/
theorem inTransaction {k : Bool → Recording σ β} (h : Sends (k isOpen) isOpen Q) :
    Sends (inTransaction >>= k) isOpen Q :=
  fun driver t => h driver t

/-- A step that is followed by one that does not fail. -/
theorem andFinally {step : Recording σ β} {after : Recording σ Unit}
    {R : Except Fault β → List ConnectionEvent → Bool → Prop} (h : Sends step isOpen R)
    (hafter : ∀ result events isOpen, R result events isOpen → Sends after isOpen
      fun ended more isOpen => ended = .ok () ∧ Q result (events ++ more) isOpen) :
    Sends (Step.andFinally step after) isOpen Q := by
  have hattempt : Sends (Step.attempt step) isOpen fun result events isOpen =>
      ∃ ended, result = .ok ended ∧ R ended events isOpen := by
    intro driver t
    obtain ⟨result, u, events, hrun, hdriver, hR⟩ := h driver t
    have hrun' : (ExceptT.run (Step.attempt step)).run (⟨driver, isOpen⟩, t) = (.ok result, u) :=
      congrArg (Prod.map Except.ok id) hrun
    exact ⟨.ok result, u, events, hrun', hdriver, result, rfl, hR⟩
  refine hattempt.bind ?_ ?_
  · rintro result events isOpen ⟨_, heq, hR⟩
    cases heq
    refine (hafter result events isOpen hR).bind ?_ ?_
    · rintro _ more last ⟨-, hQ⟩
      cases result with
      | ok b => exact pure (by simpa using hQ)
      | error f => exact throw (by simpa using hQ)
    · rintro f more last ⟨heq, -⟩
      cases heq
  · rintro f events isOpen ⟨ended, heq, -⟩
    cases heq

end Sends

theorem Sends.setTransaction (last : Bool) : Sends (setTransaction last : Recording σ Unit) isOpen
    fun ended events after => ended = .ok () ∧ events = [] ∧ after = last :=
  fun driver _ => ⟨_, _, [], rfl, (List.append_nil driver.2).symm, rfl, rfl, rfl⟩

theorem Sends.driveOrFail (action : StateM σ (Except String Unit))
    (event : Bool → ConnectionEvent) :
    Sends (driveOrFail (noting action fun result => event result.isOk)) isOpen
      fun _ events after => (∃ ok, events = [event ok]) ∧ after = isOpen := by
  refine .drive action (fun result => event result.isOk) fun result => ?_
  cases result with
  | ok _ => exact .pure ⟨⟨true, rfl⟩, rfl⟩
  | error message => exact .throw ⟨⟨false, rfl⟩, rfl⟩

/-! The steps of the executor. -/

theorem sends_begin : Sends (begin : Recording σ Unit) isOpen fun _ events after =>
    ConnectionStep isOpen events after := by
  refine .inTransaction ?_
  cases isOpen with
  | true => exact .throw (.refused true)
  | false => exact fun driver t => ⟨_, _, [], rfl, (List.append_nil driver.2).symm, .begin⟩

theorem sends_finish (action : StateM σ (Except String Unit)) {event : Bool → ConnectionEvent}
    (h : ∀ ok, ConnectionStep true [event ok] false) :
    Sends (finish (noting action fun result => event result.isOk)) isOpen fun _ events after =>
      ConnectionStep isOpen events after := by
  refine .inTransaction ?_
  cases isOpen with
  | false => exact .throw (.refused false)
  | true =>
      refine (Sends.driveOrFail action event).andFinally ?_
      rintro result _ _ ⟨⟨ok, rfl⟩, rfl⟩
      refine Sends.mono (.setTransaction false) ?_
      rintro ended _ _ ⟨hended, rfl, rfl⟩
      exact ⟨hended, h ok⟩

/-- What a statement sends up to its commit. -/
theorem sends_attempt (c : Connection σ) (statement : String) (values : Value) :
    Sends (attempt c.recorded statement values) isOpen fun result events after =>
      after = isOpen ∧
        ((∃ r, result = .ok (.ok r) ∧ events =
            .execute statement values true :: if isOpen then [] else [.commit true]) ∨
          ∃ message, result = .ok (.error message) ∧
            ((∃ ok, events = [.execute statement values ok]) ∨
              isOpen = false ∧ events = [.execute statement values true, .commit false])) := by
  unfold attempt
  refine .drive (c.execute statement values)
    (fun reply => .execute statement values reply.isOk) fun reply => ?_
  cases reply with
  | error message => exact .pure ⟨rfl, .inr ⟨message, rfl, .inl ⟨false, rfl⟩⟩⟩
  | ok reply =>
      dsimp only
      split
      · exact .pure ⟨rfl, .inr ⟨_, rfl, .inl ⟨true, rfl⟩⟩⟩
      refine .inTransaction ?_
      cases isOpen with
      | true => exact .pure ⟨rfl, .inl ⟨_, rfl, rfl⟩⟩
      | false =>
          refine .drive c.commit (fun committed => .commit committed.isOk) fun committed => ?_
          cases committed with
          | ok _ => exact .pure ⟨rfl, .inl ⟨_, rfl, rfl⟩⟩
          | error message => exact .pure ⟨rfl, .inr ⟨message, rfl, .inr ⟨rfl, rfl⟩⟩⟩

/-- What a statement sends before its cursor is closed: the events of a step but for that one. -/
theorem sends_statement (c : Connection σ) (sql statement : String) (values : Value) :
    Sends (do
      match ← attempt c.recorded statement values with
      | .ok result => return result
      | .error message =>
          if !(← inTransaction) then driveOrFail c.recorded.rollback
          throw (.execution message sql) : Recording σ ExecutionResult) isOpen
      fun _ events after => after = isOpen ∧
        ConnectionStep isOpen (events ++ [.closeCursor]) isOpen := by
  refine (sends_attempt c statement values).bind ?_ ?_
  · rintro outcome events after ⟨rfl, ⟨r, heq, rfl⟩ | ⟨message, heq, hevents⟩⟩
    · cases heq
      refine .pure ⟨rfl, ?_⟩
      cases after with
      | true => exact .inside statement values true
      | false => exact .committed statement values
    · cases heq
      refine .inTransaction ?_
      cases after with
      | true =>
          refine .throw ⟨rfl, ?_⟩
          obtain ⟨ok, rfl⟩ | ⟨hclosed, -⟩ := hevents
          · exact .inside statement values ok
          · cases hclosed
      | false =>
          have hended : ∀ ok,
              ConnectionStep false (events ++ [.rollback ok] ++ [.closeCursor]) false := by
            intro ok
            obtain ⟨executed, rfl⟩ | ⟨-, rfl⟩ := hevents
            · exact .failed statement values executed ok
            · exact .uncommitted statement values ok
          refine (Sends.driveOrFail c.rollback .rollback).bind ?_ ?_
          · rintro _ more after ⟨⟨ok, rfl⟩, rfl⟩
            exact .throw ⟨rfl, hended ok⟩
          · rintro _ more after ⟨⟨ok, rfl⟩, rfl⟩
            exact ⟨rfl, hended ok⟩
  · rintro f events after ⟨-, ⟨r, heq, -⟩ | ⟨message, heq, -⟩⟩
    · cases heq
    · cases heq

theorem sends_execute (c : Connection σ) (style : ParamStyle) (backslash : Bool) (sql : String)
    (params : Dict) :
    Sends (execute c.recorded style backslash sql params) isOpen fun _ events after =>
      ConnectionStep isOpen events after := by
  unfold execute
  generalize Binding.bind sql params style backslash = bound
  obtain ⟨statement, values⟩ := bound
  refine (sends_statement c sql statement values).andFinally ?_
  rintro result events after ⟨rfl, hstep⟩
  exact fun driver t => ⟨_, _, [.closeCursor], rfl, rfl, rfl, hstep⟩

end ConnectionExecutor

/-! Programs on a database. -/

namespace Connection

open ConnectionExecutor

variable (c : Connection σ) (style : ParamStyle) (backslash : Bool) (config : Config)
  (dialect : Dialect) (nesting : Nat)

/-- A database on a connection that is recorded. -/
def recordedDatabase : Database (ConnectionState (σ × List ConnectionEvent)) Unit :=
  ⟨config, dialect, some (c.recorded.executor style backslash), nesting⟩

/-- What is recorded when a program runs on a new connection. -/
def trace (driver : σ)
    (program : Action (ConnectionState (σ × List ConnectionEvent)) Unit α) :
    List ConnectionEvent :=
  ((ExceptT.run program).run (Database.start ⟨(driver, []), false⟩ ())).2.shared.driver.2

/-- The record is that of some steps of the executor. -/
def Recorded (s : DatabaseState (ConnectionState (σ × List ConnectionEvent)) Unit) : Prop :=
  ConnectionTrace s.shared.driver.2 s.shared.inTransaction

theorem keeps_executorStep {step : Recording σ α}
    (h : ∀ isOpen, Sends step isOpen fun _ events after => ConnectionStep isOpen events after) :
    Action.Keeps Recorded (Database.executorStep step) := by
  intro s hs
  obtain ⟨result, u, events, hrun, hdriver, hstep⟩ :=
    h s.shared.inTransaction s.shared.driver s.thread.part
  have hnext : ConnectionTrace u.1.driver.2 u.1.inTransaction := by
    rw [hdriver]
    exact hs.step hstep
  rw [Database.executorStep_run hrun]
  exact hnext

theorem keeps_setInTransaction (isOpen : Bool) : Action.Keeps Recorded
    (Database.setInTransaction isOpen :
      Action (ConnectionState (σ × List ConnectionEvent)) Unit Unit) :=
  fun _ hs => hs

theorem preserves_recorded :
    (c.recordedDatabase style backslash config dialect nesting).Preserves Recorded where
  bookkeeping s u hshared _ _ hs := by
    unfold Recorded
    rw [hshared]
    exact hs
  execute := by
    rintro _ ⟨⟩ sql params
    exact keeps_executorStep fun _ => sends_execute c style backslash sql params
  begin := (keeps_executorStep fun _ => sends_begin).bind fun _ => keeps_setInTransaction true
  commit := Action.Keeps.andFinally
    (keeps_executorStep fun _ => sends_finish c.commit .commit) (keeps_setInTransaction false)
  rollback := Action.Keeps.andFinally
    (keeps_executorStep fun _ => sends_finish c.rollback .rollback) (keeps_setInTransaction false)
  worker m hm := by
    refine Action.Keeps.get.bind fun s => ?_
    have henter : Action.Keeps Recorded (Database.modifyThread
        (Database.newThread (c.recordedDatabase style backslash config dialect nesting)) :
        Action (ConnectionState (σ × List ConnectionEvent)) Unit Unit) := fun _ hs => hs
    exact henter.bind fun _ => hm.andFinally fun _ hs => hs

/-- Whatever a program does, the record of its run is that of some steps of the executor. -/
theorem trace_of_composed (driver : σ)
    {program : Action (ConnectionState (σ × List ConnectionEvent)) Unit α}
    (h : (c.recordedDatabase style backslash config dialect nesting).Composed program) :
    ∃ isOpen, ConnectionTrace (trace driver program) isOpen :=
  ⟨_, (c.preserves_recorded style backslash config dialect nesting).composed h _ .start⟩

end Connection

end QueryLoom
