import QueryLoom.Execution.Connection
import QueryLoom.Execution.Pool
import QueryLoom.Proofs.Runs.Programs

/-!
Whether a transaction is open. A database tells it by a flag of the calling thread, and an executor keeps
it in a state of its own: for all threads that share a connection, or for each thread that has taken a
connection from a pool. On one thread the two agree after every call, whatever fails, and none is open
after a block whose beginning succeeded.
-/

namespace QueryLoom

variable {σ τ α β : Type}

/-! What the steps of executors keep. -/

/-- A step of an executor keeps a property of states, also when it fails. -/
def Step.Keeps (P : σ × τ → Prop) (step : Step σ τ α) : Prop :=
  ∀ u, P u → P ((ExceptT.run step).run u).2

namespace Step.Keeps

variable {P : σ × τ → Prop} {step : Step σ τ α}

theorem pure (a : α) : Keeps P (Pure.pure a : Step σ τ α) := fun _ hu => hu

theorem throw (f : Fault) : Keeps P (MonadExcept.throw f : Step σ τ α) := fun _ hu => hu

theorem bind {next : α → Step σ τ β} (hstep : Keeps P step) (hnext : ∀ a, Keeps P (next a)) :
    Keeps P (step >>= next) := by
  intro u hu
  have hfirst := hstep u hu
  simp only [ExceptT.run_bind, StateT.run_bind]
  rcases hrun : (ExceptT.run step).run u with ⟨_ | a, v⟩
  · rw [hrun] at hfirst
    exact hfirst
  · rw [hrun] at hfirst
    exact hnext a v hfirst

theorem attempt (h : Keeps P step) : Keeps P (Step.attempt step) := fun u hu => h u hu

theorem andFinally {last : Step σ τ Unit} (h : Keeps P step) (hlast : Keeps P last) :
    Keeps P (Step.andFinally step last) := by
  refine h.attempt.bind fun ended => hlast.bind fun _ => ?_
  cases ended with
  | ok a => exact pure a
  | error f => exact throw f

end Step.Keeps

/-- A step with another one behind it ends where the other one ends. -/
theorem Step.ends_andFinally {P : σ × τ → Prop} (step : Step σ τ α) {last : Step σ τ Unit}
    (hlast : ∀ v, P ((ExceptT.run last).run v).2) (u : σ × τ) :
    P ((ExceptT.run (Step.andFinally step last)).run u).2 := by
  rcases hstep : (ExceptT.run step).run u with ⟨ended, v⟩
  have hattempt : (ExceptT.run (Step.attempt step)).run u = (.ok ended, v) := by
    have hrun : (ExceptT.run (Step.attempt step)).run u =
        (.ok ((ExceptT.run step).run u).1, ((ExceptT.run step).run u).2) := rfl
    rw [hrun, hstep]
  have hafter := hlast v
  rw [Step.andFinally, Database.run_bind_ok hattempt, ExceptT.run_bind, StateT.run_bind]
  rcases hend : (ExceptT.run last).run v with ⟨_ | _, w⟩
  · rw [hend] at hafter
    exact hafter
  · rw [hend] at hafter
    cases ended with
    | ok a => exact hafter
    | error f => exact hafter

/-- An executor tells whether a transaction is open: statements keep what it tells, a beginning opens a
transaction or is refused, and after an end none is open, even if the end fails. It is told by what
the threads share or by the part of the thread. -/
structure Executor.Tells (e : Executor σ τ) (isOpen : σ → τ → Bool) : Prop where
  execute : ∀ sql params isOpen', (e.execute sql params).Keeps fun u => isOpen u.1 u.2 = isOpen'
  begin : ∀ u : σ × τ, match (ExceptT.run e.begin).run u with
    | (.ok (), v) => isOpen v.1 v.2 = true
    | (.error _, v) => isOpen v.1 v.2 = isOpen u.1 u.2
  commit : ∀ u : σ × τ, let v := ((ExceptT.run e.commit).run u).2; isOpen v.1 v.2 = false
  rollback : ∀ u : σ × τ, let v := ((ExceptT.run e.rollback).run u).2; isOpen v.1 v.2 = false
  place : (∀ s t t', isOpen s t = isOpen s t') ∨ ∀ s s' t, isOpen s t = isOpen s' t

/-! The executor on a connection. -/

namespace ConnectionExecutor

variable {P : State σ × Unit → Prop} {isOpen : Bool}

theorem keeps_drive (action : StateM σ α) :
    (drive action).Keeps fun u => u.1.inTransaction = isOpen :=
  fun _ hu => hu

theorem keeps_driveOrFail (action : StateM σ (Except String Unit)) :
    (driveOrFail action).Keeps fun u => u.1.inTransaction = isOpen := by
  refine (keeps_drive action).bind fun ended => ?_
  cases ended with
  | ok _ => exact .pure ()
  | error message => exact .throw _

theorem keeps_inTransaction : (inTransaction : Step (State σ) Unit Bool).Keeps P :=
  fun _ hu => hu

theorem keeps_attempt (c : Connection σ) (statement : String) (values : Value) :
    (attempt c statement values).Keeps fun u => u.1.inTransaction = isOpen := by
  refine (keeps_drive _).bind fun ended => ?_
  cases ended with
  | error message => exact .pure _
  | ok reply =>
      dsimp only
      split
      · exact .pure _
      · refine keeps_inTransaction.bind fun inside => ?_
        cases inside with
        | true => exact .pure _
        | false =>
            refine (keeps_drive _).bind fun committed => ?_
            cases committed with
            | ok _ => exact .pure _
            | error message => exact .pure _

theorem keeps_execute (c : Connection σ) (style : ParamStyle) (backslash : Bool) (sql : String)
    (params : Dict) :
    (execute c style backslash sql params).Keeps fun u => u.1.inTransaction = isOpen := by
  refine Step.Keeps.andFinally ((keeps_attempt c _ _).bind fun ended => ?_) (keeps_drive _)
  cases ended with
  | ok result => exact .pure _
  | error message =>
      refine keeps_inTransaction.bind fun inside => ?_
      cases inside with
      | true => exact .throw _
      | false => exact (keeps_driveOrFail _).bind fun _ => .throw _

theorem closed_finish (action : StateM σ (Except String Unit)) (u : State σ × Unit) :
    ((ExceptT.run (finish action)).run u).2.1.inTransaction = false := by
  obtain ⟨⟨driver, isOpen⟩, t⟩ := u
  cases isOpen with
  | false => rfl
  | true =>
      have hlast : ∀ v : State σ × Unit,
          ((ExceptT.run (setTransaction false)).run v).2.1.inTransaction = false := fun _ => rfl
      exact Step.ends_andFinally (P := fun u => u.1.inTransaction = false) (driveOrFail action)
        hlast (⟨driver, true⟩, t)

theorem tells (c : Connection σ) (style : ParamStyle) (backslash : Bool) :
    (c.executor style backslash).Tells fun s _ => s.inTransaction where
  execute sql params _ := keeps_execute c style backslash sql params
  begin := by
    rintro ⟨⟨driver, isOpen⟩, t⟩
    cases isOpen <;> rfl
  commit := closed_finish c.commit
  rollback := closed_finish c.rollback
  place := .inl fun _ _ _ => rfl

end ConnectionExecutor

/-! The executor on a pool. -/

namespace PoolExecutor

variable {part : Option Nat}

theorem keeps_shared (action : StateM σ α) :
    (Step.shared action : PoolStep σ α).Keeps fun u => u.2 = part :=
  fun _ hu => hu

theorem keeps_orFail (sql : String) (ended : Except PoolFailure α) :
    (orFail sql ended : PoolStep σ α).Keeps fun u => u.2 = part := by
  cases ended with
  | ok a => exact .pure a
  | error failure =>
      cases failure with
      | database message => exact .throw _
      | foreign message => exact .throw _

theorem keeps_orRaise (ended : Except PoolFailure α) :
    (orRaise ended : PoolStep σ α).Keeps fun u => u.2 = part := by
  cases ended with
  | ok a => exact .pure a
  | error failure =>
      cases failure with
      | database message => exact .throw _
      | foreign message => exact .throw _

theorem keeps_connect (p : Pool σ) (d : PoolDialect) :
    (connect p d).Keeps fun u => u.2 = part := by
  refine (keeps_shared _).bind fun connection => ?_
  split
  · exact (keeps_shared _).bind fun _ => .pure _
  · exact .pure _

theorem connect_ends (p : Pool σ) (d : PoolDialect) (s : σ) :
    ∃ connection s',
      (ExceptT.run (connect p d)).run (s, none) = (.ok connection, (s', none)) := by
  unfold connect
  split
  · exact ⟨_, _, rfl⟩
  · exact ⟨_, _, rfl⟩

theorem keeps_runOn (p : Pool σ) (connection : Nat) (sql statement : String) (values : Value) :
    (runOn p connection sql statement values).Keeps fun u => u.2 = part :=
  (keeps_shared _).bind fun _ => (keeps_orFail _ _).bind fun _ => .pure _

theorem keeps_runAlone (p : Pool σ) (d : PoolDialect) (sql statement : String) (values : Value) :
    (runAlone p d sql statement values).Keeps fun u => u.2 = part := by
  refine (keeps_connect p d).bind fun connection => (keeps_runOn p _ _ _ _).attempt.bind
    fun ended => ?_
  cases ended with
  | ok result =>
      exact (Step.Keeps.andFinally ((keeps_shared _).bind fun _ => keeps_orFail _ _)
        (keeps_shared _)).bind fun _ => .pure _
  | error f =>
      exact (Step.Keeps.andFinally ((keeps_shared _).bind fun _ => keeps_orFail _ _)
        (keeps_shared _)).bind fun _ => .throw _

theorem keeps_execute (p : Pool σ) (d : PoolDialect) (sql : String) (params : Dict) :
    (execute p d sql params).Keeps fun u => u.2 = part := by
  unfold execute
  split
  · exact .throw _
  · dsimp only
    refine Step.Keeps.bind (fun _ hu => hu) fun connection => ?_
    cases connection with
    | some connection => exact keeps_runOn p _ _ _ _
    | none => exact keeps_runAlone p d _ _ _

theorem closed_finish (p : Pool σ) (action : Nat → StateM σ (Except PoolFailure Unit))
    (u : σ × Option Nat) : ((ExceptT.run (finish p action)).run u).2.2 = none := by
  obtain ⟨s, part⟩ := u
  cases part with
  | none => rfl
  | some connection =>
      have hrest : (Step.andFinally (do orRaise (← Step.shared (action connection)))
          (Step.shared (p.close connection)) : PoolStep σ Unit).Keeps fun u => u.2 = none :=
        .andFinally ((keeps_shared _).bind fun _ => keeps_orRaise _) (keeps_shared _)
      exact hrest (s, none) rfl

theorem tells (p : Pool σ) (d : PoolDialect) :
    (p.executor d).Tells fun _ part => part.isSome where
  execute sql params isOpen := by
    intro u hu
    have hkept : ((ExceptT.run (PoolExecutor.execute p d sql params)).run u).2.2 = u.2 :=
      keeps_execute p d sql params u rfl
    exact (congrArg Option.isSome hkept).trans hu
  begin := by
    rintro ⟨s, part⟩
    cases part with
    | some connection => rfl
    | none =>
        obtain ⟨connection, s', hconnect⟩ := connect_ends p d s
        have hbegin : (ExceptT.run (p.executor d).begin).run (s, none) =
            (ExceptT.run (connect p d >>= fun connection => do
              Step.shared (p.begin connection)
              setCurrent (some connection))).run (s, none) := rfl
        rw [hbegin, ExceptT.run_bind, StateT.run_bind, hconnect]
        rfl
  commit u := congrArg Option.isSome (closed_finish p p.commit u)
  rollback u := congrArg Option.isSome (closed_finish p p.rollback u)
  place := .inr fun _ _ _ => rfl

end PoolExecutor

/-- The executors that come with a database, and where each of them keeps whether a transaction is
open. -/
inductive Executor.OpenWhen : {σ τ : Type} → Executor σ τ → (σ → τ → Bool) → Prop
  | connection {σ : Type} (c : Connection σ) (style : ParamStyle) (backslash : Bool) :
      OpenWhen (c.executor style backslash) fun s _ => s.inTransaction
  | pool {σ : Type} (p : Pool σ) (d : PoolDialect) :
      OpenWhen (p.executor d) fun _ part => part.isSome

theorem Executor.OpenWhen.tells {e : Executor σ τ} {isOpen : σ → τ → Bool} (h : e.OpenWhen isOpen) :
    e.Tells isOpen := by
  cases h with
  | connection c style backslash => exact ConnectionExecutor.tells c style backslash
  | pool p d => exact PoolExecutor.tells p d

/-! The flag of a thread. -/

namespace DatabaseState

variable (isOpen : σ → τ → Bool) (s : DatabaseState σ τ)

/-- Whether the executor counts a transaction of the thread as open. -/
def hasOpen : Bool := isOpen s.shared s.thread.part

/-- The flag of the thread is what the executor tells. -/
def InStep : Prop := s.thread.inTransaction = s.hasOpen isOpen

/-- The flag and the executor tell that no transaction is open. -/
def Closed : Prop := s.thread.inTransaction = false ∧ s.hasOpen isOpen = false

end DatabaseState

namespace Database

open DatabaseState

variable {db : Database σ τ} {e : Executor σ τ} {isOpen : σ → τ → Bool}

/-! Statements keep the flag and what the executor tells. -/

theorem serves_flag (db : Database σ τ) (flag : Bool) :
    db.Serves fun s => s.thread.inTransaction = flag where
  bookkeeping s u _ _ hopen hs := hopen.trans hs
  execute executor _ sql params := by
    intro s hs
    rcases hended : (ExceptT.run (executor.execute sql params)).run (s.shared, s.thread.part) with
      ⟨result, u⟩
    rw [executorStep_run hended]
    exact hs
  worker m _ := by
    intro s hs
    rcases hrun : (ExceptT.run m).run { s with thread := db.newThread s.thread } with ⟨result, u⟩
    rw [onNewThread_run hrun]
    exact hs

theorem serves_open (hdb : db.executor = some e) (he : e.Tells isOpen) (told : Bool) :
    db.Serves fun s => s.hasOpen isOpen = told where
  bookkeeping s u hshared hpart _ hs := by
    rw [hasOpen, hshared, hpart]
    exact hs
  execute executor hexecutor sql params := by
    cases hdb.symm.trans hexecutor
    intro s hs
    have hkept := he.execute sql params told (s.shared, s.thread.part) hs
    rcases hended : (ExceptT.run (e.execute sql params)).run (s.shared, s.thread.part) with
      ⟨result, u⟩
    rw [hended] at hkept
    rw [executorStep_run hended]
    exact hkept
  worker m hm := by
    intro s hs
    rcases hrun : (ExceptT.run m).run { s with thread := db.newThread s.thread } with ⟨result, u⟩
    rw [onNewThread_run hrun]
    rcases he.place with hshared | hpart
    · have hkept := hm { s with thread := db.newThread s.thread } ((hshared _ _ _).trans hs)
      rw [hrun] at hkept
      exact (hshared _ _ _).trans hkept
    · exact (hpart _ _ _).trans hs

/-- What keeps the flag and what the executor tells keeps them in step. -/
theorem inStep_of_serves (hdb : db.executor = some e) (he : e.Tells isOpen) {m : Action σ τ α}
    (h : ∀ {I : DatabaseState σ τ → Prop}, db.Serves I → Action.Keeps I m) :
    Action.Keeps (InStep isOpen) m := by
  intro s hs
  have hflag := h (serves_flag db s.thread.inTransaction) s rfl
  have hopen := h (serves_open hdb he (s.hasOpen isOpen)) s rfl
  exact hflag.trans (hs.trans hopen.symm)

/-! Beginnings and ends. -/

theorem begin_eq (hdb : db.executor = some e) :
    db.begin = executorStep e.begin >>= fun _ => setInTransaction true := by
  unfold begin requireExecutor
  rw [hdb, pure_bind]

theorem inStep_begin (hdb : db.executor = some e) (he : e.Tells isOpen) :
    Action.Keeps (InStep isOpen) db.begin := by
  intro s hs
  have hbegin := he.begin (s.shared, s.thread.part)
  rcases hended : (ExceptT.run e.begin).run (s.shared, s.thread.part) with ⟨_ | _, u⟩
  · rw [hended] at hbegin
    rw [begin_eq hdb, ExceptT.run_bind, StateT.run_bind, executorStep_run hended]
    exact hs.trans hbegin.symm
  · rw [hended] at hbegin
    rw [begin_eq hdb, ExceptT.run_bind, StateT.run_bind, executorStep_run hended]
    exact hbegin.symm

theorem setInTransaction_run (flag : Bool) (s : DatabaseState σ τ) :
    (ExceptT.run (setInTransaction flag : Action σ τ Unit)).run s =
      (.ok (), { s with thread := { s.thread with inTransaction := flag } }) := rfl

/-- An end by a step after which no transaction is open. -/
theorem closed_finally (hdb : db.executor = some e) {step : Executor σ τ → Step σ τ Unit}
    (hstep : ∀ u, let v := ((ExceptT.run (step e)).run u).2; isOpen v.1 v.2 = false)
    (s : DatabaseState σ τ) :
    ((ExceptT.run (andFinally (do executorStep (step (← db.requireExecutor)))
      (setInTransaction false))).run s).2.Closed isOpen := by
  have hrequire : (do executorStep (step (← db.requireExecutor)) : Action σ τ Unit) =
      executorStep (step e) := by
    unfold requireExecutor
    rw [hdb, pure_bind]
  have hclosed := hstep (s.shared, s.thread.part)
  rcases hended : (ExceptT.run (step e)).run (s.shared, s.thread.part) with ⟨result, u⟩
  rw [hended] at hclosed
  rw [hrequire, andFinally_run (executorStep_run hended) (setInTransaction_run false _)]
  exact ⟨rfl, hclosed⟩

theorem closed_commit (hdb : db.executor = some e) (he : e.Tells isOpen) (s : DatabaseState σ τ) :
    ((ExceptT.run db.commit).run s).2.Closed isOpen :=
  closed_finally hdb he.commit s

theorem closed_rollback (hdb : db.executor = some e) (he : e.Tells isOpen)
    (s : DatabaseState σ τ) : ((ExceptT.run db.rollback).run s).2.Closed isOpen :=
  closed_finally hdb he.rollback s

/-- What is closed is in step. -/
theorem inStep_of_closed {m : Action σ τ Unit}
    (h : ∀ s, ((ExceptT.run m).run s).2.Closed isOpen) : Action.Keeps (InStep isOpen) m := by
  intro s _
  obtain ⟨hflag, hopen⟩ := h s
  exact hflag.trans hopen.symm

theorem inStep_call (hdb : db.executor = some e) (he : e.Tells isOpen) (m : Method)
    (args : List Value) (named : List (String × Value)) :
    Action.Keeps (InStep isOpen) (db.call m args named) := by
  refine (Action.Keeps.lift _).bind fun values => ?_
  cases m with
  | begin => exact Preserves.quietly (inStep_begin hdb he)
  | commit => exact Preserves.quietly (inStep_of_closed (closed_commit hdb he))
  | rollback => exact Preserves.quietly (inStep_of_closed (closed_rollback hdb he))
  | _ => exact inStep_of_serves hdb he fun h => h.perform rfl values

/-- What goes on after an end, and opens nothing. -/
theorem closed_after {m : Action σ τ Unit} (h : ∀ s, ((ExceptT.run m).run s).2.Closed isOpen)
    {k : Unit → Action σ τ α} (hk : ∀ a, Action.Keeps (Closed isOpen) (k a))
    (s : DatabaseState σ τ) : ((ExceptT.run (m >>= k)).run s).2.Closed isOpen := by
  have hm : Action.Leads (fun _ => True) m fun _ u => u.Closed isOpen := fun u _ => h u
  exact hm.bind (R := fun _ u => u.Closed isOpen) hk (fun _ _ hu => hu) s trivial

/-- No transaction is open after a block that began, whatever its body does. -/
theorem closed_block (hdb : db.executor = some e) (he : e.Tells isOpen) (rollsBack : Reply → Bool)
    (body : Action σ τ Reply) {s t : DatabaseState σ τ}
    (hbegin : (ExceptT.run db.begin).run s = (.ok (), t)) :
    ((ExceptT.run (db.block rollsBack body)).run s).2.Closed isOpen := by
  have hattempt : (ExceptT.run (attempt body)).run t =
      (.ok ((ExceptT.run body).run t).1, ((ExceptT.run body).run t).2) := rfl
  rw [block, run_bind_ok hbegin, run_bind_ok hattempt]
  cases ((ExceptT.run body).run t).1 with
  | error f => exact closed_after (closed_rollback hdb he) (fun _ => .throw f) _
  | ok reply =>
      dsimp only
      split
      · exact closed_after (closed_rollback hdb he) (fun _ => .pure reply) _
      · exact closed_after (closed_commit hdb he) (fun _ => .pure reply) _

end Database

/-- A call on a database that calls nothing back. -/
inductive PlainCall
  | method (m : Method) (args : List Value) (named : List (String × Value))
  | operation (o : Operation)
  | parallel (operations : List Operation) (concurrent : Bool)

namespace PlainCall

def action (db : Database σ τ) : PlainCall → Action σ τ Reply
  | .method m args named => db.call m args named
  | .operation o => db.run o
  | .parallel operations concurrent => db.parallel operations concurrent

def boundary : Boundary → PlainCall
  | .begin => .method .begin [] []
  | .commit => .method .commit [] []
  | .rollback => .method .rollback [] []

theorem action_boundary (db : Database σ τ) (b : Boundary) :
    (boundary b).action db = Database.quietly (b.run db) := by
  cases b <;> rfl

variable {db : Database σ τ} {e : Executor σ τ} {isOpen : σ → τ → Bool}

theorem keeps_inStep (hdb : db.executor = some e) (he : e.Tells isOpen) (c : PlainCall) :
    Action.Keeps (DatabaseState.InStep isOpen) (c.action db) := by
  cases c with
  | method m args named => exact Database.inStep_call hdb he m args named
  | operation o => exact Database.inStep_of_serves hdb he fun h => h.run o
  | parallel operations concurrent =>
      exact Database.inStep_of_serves hdb he fun h => h.parallel operations concurrent

end PlainCall

namespace Program

/-- A transaction block of a program. -/
def transaction (body : Program PlainCall Reply) : Program PlainCall Reply :=
  block PlainCall.boundary (fun _ => false) body

/-- An action block of a program. -/
def inAction (body : Program PlainCall Reply) : Program PlainCall Reply :=
  block PlainCall.boundary Database.asksRollback body

/-- A database on an executor of its own whose flag and executor agree: for every program, which may
begin and end transactions by itself and by blocks in each other, catch faults and go on, they agree
after every call and in the end. After every block that began, neither tells that a transaction is
open. -/
theorem flag_agrees_with_executor {db : Database σ τ} {e : Executor σ τ} {isOpen : σ → τ → Bool}
    (hdb : db.executor = some e) (he : e.OpenWhen isOpen) {s : DatabaseState σ τ}
    (hs : s.InStep isOpen) (program : Program PlainCall α) :
    (∀ body : Program PlainCall Reply,
      (transaction body).action (PlainCall.action db) =
          db.transaction (body.action (PlainCall.action db)) ∧
        (inAction body).action (PlainCall.action db) =
          db.action (body.action (PlainCall.action db))) ∧
    (∀ x ∈ program.made (PlainCall.action db) s,
      (x.after (PlainCall.action db)).InStep isOpen) ∧
    (program.run (PlainCall.action db) s).2.InStep isOpen ∧
    ∀ (body : Action σ τ Reply) (t u : DatabaseState σ τ),
      (ExceptT.run db.begin).run t = (.ok (), u) →
      ((ExceptT.run (db.transaction body)).run t).2.Closed isOpen ∧
        ((ExceptT.run (db.action body)).run t).2.Closed isOpen := by
  have htells := he.tells
  obtain ⟨hafter, hend⟩ := (chain_made program s).keeps (PlainCall.keeps_inStep hdb htells) hs
  refine ⟨fun body => ⟨?_, ?_⟩, hafter, hend, fun body t u hbegin => ⟨?_, ?_⟩⟩
  · rw [Database.transaction_eq_block]
    exact action_block (PlainCall.action_boundary db) _ body
  · rw [Database.action_eq_block]
    exact action_block (PlainCall.action_boundary db) _ body
  · rw [Database.transaction_eq_block]
    exact Database.closed_block hdb htells _ body hbegin
  · rw [Database.action_eq_block]
    exact Database.closed_block hdb htells _ body hbegin

end Program

/-- A driver that refuses statements and commits. -/
def Connection.refusing : Connection Unit where
  execute _ _ := pure (.error "no such table")
  closeCursor := pure ()
  commit := pure (.error "database is locked")
  rollback := pure (.ok ())
  close := pure ()

/-- A block in a block is refused, the commit of the outer one is refused by the driver, and its
rollback finds no transaction. -/
theorem Program.flag_agrees_with_executor_of_refused_commit :
    let db : Database (ConnectionState Unit) Unit :=
      ⟨⟨"sqlite", "", false, 100⟩, .sqlite, some (Connection.refusing.executor .qmark false),
        Json.usualNesting⟩
    let s : DatabaseState (ConnectionState Unit) Unit := Database.start ⟨(), false⟩ ()
    let program : Program PlainCall Reply :=
      .bind (.attempt (.transaction (.bind (.attempt (.inAction (.pure .database))) fun _ =>
        .call (.method .commit [] [])))) fun _ => .call (.method .inTransaction [] [])
    let made := program.made (PlainCall.action db) s
    (∀ x ∈ made, (x.after (PlainCall.action db)).InStep fun s _ => s.inTransaction) ∧
      made.map (fun x => (x.after (PlainCall.action db)).thread.inTransaction) =
        [true, true, false, false, false] := by
  intro db s program made
  have hs : s.InStep fun s _ => s.inTransaction := rfl
  have hdb : db.executor = some (Connection.refusing.executor .qmark false) := rfl
  have hagrees := flag_agrees_with_executor hdb (.connection _ _ _) hs program
  exact ⟨hagrees.2.1, rfl⟩

end QueryLoom
