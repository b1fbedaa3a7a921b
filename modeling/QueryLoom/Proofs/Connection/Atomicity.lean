import QueryLoom.Proofs.Connection.Trace

/-!
Statements on a connection, call by call. A statement outside a transaction is committed once if it
returns, and what was sent to the driver for it ends in a rollback if it fails. A statement inside a
transaction leaves the connection uncommitted either way, and all other commits and rollbacks are the
ends of transactions that a call has begun.
-/

namespace QueryLoom

variable {σ α β : Type}

/-- A call on an executor. -/
inductive ExecutorCall
  | execute (sql : String) (params : Dict)
  | begin
  | commit
  | rollback

/-- What a call does; the result of a statement does not count. -/
def ExecutorCall.step {τ : Type} (e : Executor σ τ) : ExecutorCall → Step σ τ Unit
  | .execute sql params => do let _ ← e.execute sql params
  | .begin => e.begin
  | .commit => e.commit
  | .rollback => e.rollback

/-- A call that was made on a connection, whether it returned, and what it sent to the driver. -/
structure ConnectionEntry where
  call : ExecutorCall
  returned : Bool
  events : List ConnectionEvent

namespace ConnectionEntry

/-- Whether a transaction is open after a call: a beginning that returns opens one, and every end
closes it, also one that fails. -/
def isOpenAfter (isOpen : Bool) (e : ConnectionEntry) : Bool :=
  match e.call with
  | .execute _ _ => isOpen
  | .begin => isOpen || e.returned
  | .commit | .rollback => false

/-- What a statement with values sends inside and outside a transaction, by whether it returned. The
last two forms are those of a statement that the driver refuses, or whose rows cannot be fetched, and
of one whose commit fails. -/
def StatementSends (statement : String) (values : Value) (isOpen returned : Bool)
    (events : List ConnectionEvent) : Prop :=
  if isOpen then ∃ ok, events = [.execute statement values ok, .closeCursor]
  else if returned then events = [.execute statement values true, .commit true, .closeCursor]
  else ∃ ok undone,
    events = [.execute statement values ok, .rollback undone, .closeCursor] ∨
    events = [.execute statement values true, .commit false, .rollback undone, .closeCursor]

/-- What a call sends, by whether a transaction is open before it. -/
def Fits (style : ParamStyle) (backslash isOpen : Bool) (e : ConnectionEntry) : Prop :=
  match e.call with
  | .execute sql params =>
      let bound := Binding.bind sql params style backslash
      StatementSends bound.1 bound.2 isOpen e.returned e.events
  | .begin => e.returned = !isOpen ∧ e.events = []
  | .commit => if isOpen then e.events = [.commit e.returned] else e.returned = false ∧ e.events = []
  | .rollback =>
      if isOpen then e.events = [.rollback e.returned] else e.returned = false ∧ e.events = []

/-- Whether each of some calls sends what its kind sends, given what the calls before it left open. -/
def AllFit (style : ParamStyle) (backslash : Bool) : Bool → List ConnectionEntry → Prop
  | _, [] => True
  | isOpen, e :: rest =>
      e.Fits style backslash isOpen ∧ AllFit style backslash (isOpenAfter isOpen e) rest

end ConnectionEntry

namespace ConnectionExecutor

variable {isOpen : Bool}

/-! Steps of the executor, with whether they return. -/

theorem sends_driveOrFail (action : StateM σ (Except String Unit))
    (event : Bool → ConnectionEvent) :
    Sends (driveOrFail (noting action fun result => event result.isOk)) isOpen
      fun result events after => events = [event result.isOk] ∧ after = isOpen := by
  refine .drive action (fun result => event result.isOk) fun result => ?_
  cases result with
  | ok _ => exact .pure ⟨rfl, rfl⟩
  | error message => exact .throw ⟨rfl, rfl⟩

theorem sends_begin_result : Sends (begin : Recording σ Unit) isOpen fun result events after =>
    result.isOk = !isOpen ∧ events = [] ∧ after = true := by
  refine .inTransaction ?_
  cases isOpen with
  | true => exact .throw ⟨rfl, rfl, rfl⟩
  | false => exact fun driver t => ⟨_, _, [], rfl, (List.append_nil driver.2).symm, rfl, rfl, rfl⟩

theorem sends_finish_result (action : StateM σ (Except String Unit))
    (event : Bool → ConnectionEvent) :
    Sends (finish (noting action fun result => event result.isOk)) isOpen fun result events after =>
      (if isOpen then events = [event result.isOk] else result.isOk = false ∧ events = []) ∧
        after = false := by
  refine .inTransaction ?_
  cases isOpen with
  | false => exact .throw ⟨⟨rfl, rfl⟩, rfl⟩
  | true =>
      refine (sends_driveOrFail action event).andFinally ?_
      rintro result _ _ ⟨rfl, rfl⟩
      refine Sends.mono (.setTransaction false) ?_
      rintro ended _ _ ⟨hended, rfl, rfl⟩
      exact ⟨hended, rfl, rfl⟩

open ConnectionEntry (StatementSends) in
/-- What a statement sends before its cursor is closed. -/
theorem sends_statement_result (c : Connection σ) (sql statement : String) (values : Value) :
    Sends (do
      match ← attempt c.recorded statement values with
      | .ok result => return result
      | .error message =>
          if !(← inTransaction) then driveOrFail c.recorded.rollback
          throw (.execution message sql) : Recording σ ExecutionResult) isOpen
      fun result events after => after = isOpen ∧
        StatementSends statement values isOpen result.isOk (events ++ [.closeCursor]) := by
  refine (sends_attempt c statement values).bind ?_ ?_
  · rintro outcome events after ⟨rfl, ⟨r, heq, rfl⟩ | ⟨message, heq, hevents⟩⟩
    · cases heq
      refine .pure ⟨rfl, ?_⟩
      cases after with
      | true => exact ⟨true, rfl⟩
      | false => exact rfl
    · cases heq
      refine .inTransaction ?_
      cases after with
      | true =>
          refine .throw ⟨rfl, ?_⟩
          obtain ⟨ok, rfl⟩ | ⟨hclosed, -⟩ := hevents
          · exact ⟨ok, rfl⟩
          · cases hclosed
      | false =>
          have hended : ∀ ok, StatementSends statement values false false
              (events ++ [.rollback ok] ++ [.closeCursor]) := by
            intro ok
            obtain ⟨executed, rfl⟩ | ⟨-, rfl⟩ := hevents
            · exact ⟨executed, ok, .inl rfl⟩
            · exact ⟨true, ok, .inr rfl⟩
          refine (sends_driveOrFail c.rollback .rollback).bind ?_ ?_
          · rintro _ more after ⟨rfl, rfl⟩
            exact .throw ⟨rfl, hended true⟩
          · rintro _ more after ⟨rfl, rfl⟩
            exact ⟨rfl, hended false⟩
  · rintro f events after ⟨-, ⟨r, heq, -⟩ | ⟨message, heq, -⟩⟩
    · cases heq
    · cases heq

open ConnectionEntry (StatementSends) in
theorem sends_execute_result (c : Connection σ) (style : ParamStyle) (backslash : Bool)
    (sql : String) (params : Dict) :
    Sends (execute c.recorded style backslash sql params) isOpen fun result events after =>
      after = isOpen ∧ StatementSends (Binding.bind sql params style backslash).1
        (Binding.bind sql params style backslash).2 isOpen result.isOk events := by
  unfold execute
  generalize Binding.bind sql params style backslash = bound
  obtain ⟨statement, values⟩ := bound
  refine (sends_statement_result c sql statement values).andFinally ?_
  rintro result events after ⟨rfl, hsends⟩
  exact fun driver t => ⟨_, _, [.closeCursor], rfl, rfl, rfl, rfl, hsends⟩

/-- A call sends what its kind sends, and leaves a transaction open as its kind does. -/
theorem sends_call (c : Connection σ) (style : ParamStyle) (backslash : Bool)
    (call : ExecutorCall) :
    Sends (call.step (c.recorded.executor style backslash)) isOpen fun result events after =>
      ConnectionEntry.Fits style backslash isOpen ⟨call, result.isOk, events⟩ ∧
        after = ConnectionEntry.isOpenAfter isOpen ⟨call, result.isOk, events⟩ := by
  cases call with
  | execute sql params =>
      refine (sends_execute_result c style backslash sql params).bind ?_ ?_
      · rintro r events after ⟨rfl, hsends⟩
        refine .pure ⟨?_, rfl⟩
        rw [List.append_nil]
        exact hsends
      · rintro f events after ⟨rfl, hsends⟩
        exact ⟨hsends, rfl⟩
  | begin =>
      refine sends_begin_result.mono ?_
      rintro result events after ⟨hresult, rfl, rfl⟩
      refine ⟨⟨hresult, rfl⟩, ?_⟩
      simp only [ConnectionEntry.isOpenAfter, hresult, Bool.or_not_self]
  | commit => exact sends_finish_result c.commit .commit
  | rollback => exact sends_finish_result c.rollback .rollback

end ConnectionExecutor

/-! Runs. -/

namespace Connection

open ConnectionEntry

variable (c : Connection σ) (style : ParamStyle) (backslash : Bool)

/-- A call on a connection that is recorded: whether it returns, and the state it leaves. -/
def callFrom (call : ExecutorCall) (s : ConnectionState (σ × List ConnectionEvent)) :
    Bool × ConnectionState (σ × List ConnectionEvent) :=
  let (result, u) := (ExceptT.run (call.step (c.recorded.executor style backslash))).run (s, ())
  (result.isOk, u.1)

/-- Makes calls one after another, whether they fail or not. Each entry holds what its call has added to
the record. -/
def entriesFrom (s : ConnectionState (σ × List ConnectionEvent)) :
    List ExecutorCall → List ConnectionEntry × ConnectionState (σ × List ConnectionEvent)
  | [] => ([], s)
  | call :: rest =>
      let (returned, u) := c.callFrom style backslash call s
      let (entries, last) := entriesFrom u rest
      (⟨call, returned, u.driver.2.drop s.driver.2.length⟩ :: entries, last)

/-- One call adds events to the record that are those of its kind. -/
theorem callFrom_fits (call : ExecutorCall) (s : ConnectionState (σ × List ConnectionEvent)) :
    ∃ returned events u, c.callFrom style backslash call s = (returned, u) ∧
      u.driver.2 = s.driver.2 ++ events ∧
      ConnectionEntry.Fits style backslash s.inTransaction ⟨call, returned, events⟩ ∧
      u.inTransaction = isOpenAfter s.inTransaction ⟨call, returned, events⟩ := by
  obtain ⟨result, u, events, hrun, hrecord, hsends⟩ :=
    ConnectionExecutor.sends_call c style backslash call s.driver ()
  refine ⟨result.isOk, events, u.1, ?_, hrecord, hsends⟩
  rw [callFrom, hrun]

/-- The entries make up what is added to the record, and each of them is as its kind asks. -/
theorem entriesFrom_fit (calls : List ExecutorCall)
    (s : ConnectionState (σ × List ConnectionEvent)) :
    (c.entriesFrom style backslash s calls).1.map ConnectionEntry.call = calls ∧
      (c.entriesFrom style backslash s calls).2.driver.2 =
        s.driver.2 ++ (c.entriesFrom style backslash s calls).1.flatMap ConnectionEntry.events ∧
      AllFit style backslash s.inTransaction (c.entriesFrom style backslash s calls).1 := by
  induction calls generalizing s with
  | nil => exact ⟨rfl, (List.append_nil _).symm, trivial⟩
  | cons call rest ih =>
      obtain ⟨returned, events, u, hcall, hrecord, hfits, hopen⟩ :=
        c.callFrom_fits style backslash call s
      obtain ⟨hcalls, hrest, hmore⟩ := ih u
      have hadded : u.driver.2.drop s.driver.2.length = events := by
        rw [hrecord, List.drop_left]
      simp only [entriesFrom, hcall, hadded]
      refine ⟨?_, ?_, hfits, ?_⟩
      · rw [List.map_cons, hcalls]
      · rw [hrest, hrecord, List.flatMap_cons, List.append_assoc]
      · rw [← hopen]
        exact hmore

/-- For every driver, whatever it refuses, and every sequence of calls on a new executor: what reaches
the driver is, call by call, what the kind of the call sends. A statement outside a transaction sends
itself, one commit and the closing of its cursor if it returns, and ends in a rollback before the
closing if it fails; inside one it sends itself and the closing of its cursor. All other commits and
rollbacks are those of a call that ends a transaction, which an earlier beginning has opened and no end
has closed. -/
theorem statements_atomic (driver : σ) (calls : List ExecutorCall) :
    let made := c.entriesFrom style backslash ⟨(driver, []), false⟩ calls
    made.1.map ConnectionEntry.call = calls ∧
      made.2.driver.2 = made.1.flatMap ConnectionEntry.events ∧
      AllFit style backslash false made.1 :=
  c.entriesFrom_fit style backslash calls ⟨(driver, []), false⟩

end Connection

end QueryLoom
