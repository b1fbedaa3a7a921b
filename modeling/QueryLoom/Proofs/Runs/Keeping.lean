import QueryLoom.Database.Call

/-!
What every use of a database keeps. An action keeps a property of states if it leads from a state that
has it to a state that has it, whether it ends well or fails. What is put together of actions keeps
what they keep, and apart from the steps of the executor the methods of a database only do their own
bookkeeping. So a property that the steps of the executor keep is kept by every program.
-/

namespace QueryLoom

variable {σ τ α β : Type}

/-- An action keeps a property of states, also when it fails. -/
def Action.Keeps (I : DatabaseState σ τ → Prop) (m : Action σ τ α) : Prop :=
  ∀ s, I s → I ((ExceptT.run m).run s).2

namespace Action.Keeps

variable {I : DatabaseState σ τ → Prop} {m : Action σ τ α}

theorem pure (a : α) : Keeps I (Pure.pure a : Action σ τ α) :=
  fun _ hs => hs

theorem throw (f : Fault) : Keeps I (MonadExcept.throw f : Action σ τ α) :=
  fun _ hs => hs

theorem get : Keeps I (MonadState.get : Action σ τ (DatabaseState σ τ)) :=
  fun _ hs => hs

theorem bind {k : α → Action σ τ β} (hm : Keeps I m) (hk : ∀ a, Keeps I (k a)) :
    Keeps I (m >>= k) := by
  intro s hs
  have hfirst := hm s hs
  simp only [ExceptT.run_bind, StateT.run_bind]
  cases hrun : (ExceptT.run m).run s with
  | mk result u =>
      rw [hrun] at hfirst
      cases result with
      | ok a => exact hk a u hfirst
      | error f => exact hfirst

theorem attempt (hm : Keeps I m) : Keeps I (Database.attempt m) := by
  intro s hs
  exact hm s hs

theorem lift (result : Except Fault α) : Keeps I (Database.lift result : Action σ τ α) := by
  cases result with
  | ok a => exact pure a
  | error f => exact throw f

theorem andFinally {after : Action σ τ Unit} (hm : Keeps I m) (hafter : Keeps I after) :
    Keeps I (Database.andFinally m after) :=
  hm.attempt.bind fun result => hafter.bind fun _ => lift result

theorem inOrder {actions : List (Action σ τ α)} (h : ∀ a ∈ actions, Keeps I a) :
    Keeps I (Database.inOrder actions) := by
  induction actions with
  | nil => exact pure []
  | cons first rest ih =>
      have hrest : Keeps I (Database.inOrder rest) :=
        ih fun a ha => h a (List.mem_cons_of_mem first ha)
      exact (h first List.mem_cons_self).bind fun _ => hrest.bind fun _ => pure _

theorem runAll {actions : List (Action σ τ α)} (h : ∀ a ∈ actions, Keeps I a) :
    Keeps I (Database.runAll actions) := by
  induction actions with
  | nil => exact pure []
  | cons first rest ih =>
      have hrest : Keeps I (Database.runAll rest) :=
        ih fun a ha => h a (List.mem_cons_of_mem first ha)
      exact (h first List.mem_cons_self).attempt.bind fun _ => hrest.bind fun _ => pure _

end Action.Keeps

/-- Whether a method begins or ends a transaction. -/
def Method.bounds : Method → Bool
  | .begin | .commit | .rollback => true
  | _ => false

namespace Database

/-- What a step of the executor changes. -/
theorem executorStep_run {step : Step σ τ α} {s : DatabaseState σ τ} {result : Except Fault α}
    {u : σ × τ} (h : (ExceptT.run step).run (s.shared, s.thread.part) = (result, u)) :
    (ExceptT.run (executorStep step)).run s =
      (result, { s with shared := u.1, thread := { s.thread with part := u.2 } }) := by
  let ended := (ExceptT.run step).run (s.shared, s.thread.part)
  have hrun : (ExceptT.run (executorStep step)).run s =
      (ExceptT.run (lift ended.1 : Action σ τ α)).run
        { s with shared := ended.2.1, thread := { s.thread with part := ended.2.2 } } := rfl
  have hended : ended = (result, u) := h
  rw [hrun, hended]
  cases result with
  | ok a => rfl
  | error f => rfl

/-- What goes on after an action or a step that ends well. -/
theorem run_bind_ok {ω : Type} {m : ExceptT Fault (StateM ω) α} {k : α → ExceptT Fault (StateM ω) β}
    {s t : ω} {a : α}
    (h : (ExceptT.run m).run s = (.ok a, t)) :
    (ExceptT.run (m >>= k)).run s = (ExceptT.run (k a)).run t := by
  rw [ExceptT.run_bind, StateT.run_bind, h]
  rfl

theorem run_bind_error {ω : Type} {m : ExceptT Fault (StateM ω) α}
    {k : α → ExceptT Fault (StateM ω) β} {s t : ω} {f : Fault}
    (h : (ExceptT.run m).run s = (.error f, t)) : (ExceptT.run (m >>= k)).run s = (.error f, t) := by
  rw [ExceptT.run_bind, StateT.run_bind, h]
  rfl

/-- A statement is compiled where the counter stands, and leaves it elsewhere, also when it fails. -/
theorem run_compile (step : Compile Compiled) (s : DatabaseState σ τ) :
    (ExceptT.run (compile step)).run s =
      (ExceptT.run (do
        let compiled ← lift (Statement.run step s.next).1
        report ⟨.debug, .compiler, "Compiled " ++ compiled.body.text⟩
        return compiled : Action σ τ Compiled)).run
          { s with next := (Statement.run step s.next).2 } := rfl

/-- An action ends as it does without the one behind it, in the state that the other one leaves. -/
theorem andFinally_run {m : Action σ τ α} {after : Action σ τ Unit} {s u v : DatabaseState σ τ}
    {result : Except Fault α} (hm : (ExceptT.run m).run s = (result, u))
    (hafter : (ExceptT.run after).run u = (.ok (), v)) :
    (ExceptT.run (andFinally m after)).run s = (result, v) := by
  have hattempt : (ExceptT.run (attempt m)).run s = (.ok result, u) := by
    have hrun : (ExceptT.run (attempt m)).run s =
        (.ok ((ExceptT.run m).run s).1, ((ExceptT.run m).run s).2) := rfl
    rw [hrun, hm]
  rw [andFinally, run_bind_ok hattempt, run_bind_ok hafter]
  cases result with
  | ok a => rfl
  | error f => rfl

/-- An action on a new thread ends as it does from a state with that thread, and leaves the calling
thread what it was. -/
theorem onNewThread_run {db : Database σ τ} {m : Action σ τ α} {s u : DatabaseState σ τ}
    {result : Except Fault α}
    (h : (ExceptT.run m).run { s with thread := db.newThread s.thread } = (result, u)) :
    (ExceptT.run (db.onNewThread m)).run s = (result, { u with thread := s.thread }) := by
  have hrun : (ExceptT.run (db.onNewThread m)).run s =
      (ExceptT.run (andFinally m (modifyThread fun _ => s.thread))).run
        { s with thread := db.newThread s.thread } := rfl
  rw [hrun]
  exact andFinally_run h rfl

/-- A property of states that is kept while statements are issued: it does not depend on the
bookkeeping, and the executor keeps it when it executes a statement, also on a worker. -/
structure Serves (db : Database σ τ) (I : DatabaseState σ τ → Prop) : Prop where
  bookkeeping : ∀ s u, u.shared = s.shared → u.thread.part = s.thread.part →
    u.thread.inTransaction = s.thread.inTransaction → I s → I u
  execute : ∀ executor, db.executor = some executor → ∀ sql params,
    Action.Keeps I (executorStep (executor.execute sql params))
  worker : ∀ {α : Type} (m : Action σ τ α), Action.Keeps I m → Action.Keeps I (db.onNewThread m)

/-- A property of states that is kept by everything the methods of a database are made of: also when a
transaction begins or ends. -/
structure Preserves (db : Database σ τ) (I : DatabaseState σ τ → Prop) : Prop extends
    db.Serves I where
  begin : Action.Keeps I db.begin
  commit : Action.Keeps I db.commit
  rollback : Action.Keeps I db.rollback

namespace Serves

variable {db : Database σ τ} {I : DatabaseState σ τ → Prop}

/-! Bookkeeping. -/

theorem modifies (h : db.Serves I) {f : DatabaseState σ τ → DatabaseState σ τ}
    (hf : ∀ s, (f s).shared = s.shared ∧ (f s).thread.part = s.thread.part ∧
      (f s).thread.inTransaction = s.thread.inTransaction) :
    Action.Keeps I (modify f : Action σ τ Unit) := by
  intro s hs
  obtain ⟨hshared, hpart, hopen⟩ := hf s
  exact h.bookkeeping s (f s) hshared hpart hopen hs

theorem report (h : db.Serves I) (note : Note) :
    Action.Keeps I (Database.report note : Action σ τ Unit) :=
  h.modifies fun _ => ⟨rfl, rfl, rfl⟩

theorem setDryRun (h : db.Serves I) (pending : Bool) :
    Action.Keeps I (modifyThread fun t => { t with dryRun := pending } : Action σ τ Unit) :=
  h.modifies fun _ => ⟨rfl, rfl, rfl⟩

theorem compile (h : db.Serves I) (step : Compile Compiled) :
    Action.Keeps I (Database.compile step : Action σ τ Compiled) := by
  intro s hs
  have hnext : I { s with next := (Statement.run step s.next).2 } :=
    h.bookkeeping s _ rfl rfl rfl hs
  have hrest : Action.Keeps I (do
      let compiled ← Database.lift (Statement.run step s.next).1
      Database.report ⟨.debug, .compiler, "Compiled " ++ compiled.body.text⟩
      return compiled : Action σ τ Compiled) :=
    (Action.Keeps.lift _).bind fun _ => (h.report _).bind fun _ => .pure _
  exact hrest _ hnext

theorem mapping (h : db.Serves I) (m : Mapping α) :
    Action.Keeps I (Database.mapping m : Action σ τ α) := by
  refine (h.modifies ?_).bind fun _ => .lift _
  exact fun _ => ⟨rfl, rfl, rfl⟩

theorem inspect (f : DatabaseState σ τ → Reply) : Action.Keeps I (Database.inspect f) :=
  Action.Keeps.get.bind fun _ => .pure _

theorem inTransaction : Action.Keeps I (Database.inTransaction : Action σ τ Bool) :=
  Action.Keeps.get.bind fun _ => .pure _

/-! Statements. -/

theorem keepFault (h : db.Serves I) (f : Fault) (sql : String) :
    Action.Keeps I (Database.keepFault f sql : Action σ τ Unit) := by
  refine (h.modifies ?_).bind fun _ => h.report _
  exact fun _ => ⟨rfl, rfl, rfl⟩

theorem remember (h : db.Serves I) (sql : String) (params : Dict) :
    Action.Keeps I (db.remember sql params) :=
  h.modifies fun _ => ⟨rfl, rfl, rfl⟩

theorem issue (h : db.Serves I) (sql : String) (params : Dict) :
    Action.Keeps I (db.execute sql params) := by
  refine Action.Keeps.get.bind fun s => ?_
  split
  · exact (h.setDryRun false).bind fun _ => (Action.Keeps.lift _).bind fun _ =>
      (h.report _).bind fun _ => .pure _
  refine (h.remember sql params).bind fun _ => ?_
  split
  · exact (h.keepFault _ _).bind fun _ => .throw _
  next executor hexecutor =>
    refine (h.report _).bind fun _ => (h.execute executor hexecutor sql params).attempt.bind
      fun result => ?_
    cases result with
    | ok r => exact .pure _
    | error f =>
        cases f with
        | execution message failed => exact (h.keepFault _ _).bind fun _ => .throw _
        | _ => exact .throw _

/-- A verb: a statement is compiled and issued, and something is made of its result. -/
theorem verb (h : db.Serves I) (step : Compile Compiled)
    {f : Compiled → ExecutionResult → Action σ τ Reply}
    (hf : ∀ c r, Action.Keeps I (f c r)) :
    Action.Keeps I (do
      let compiled ← Database.compile step
      replyWith (← db.executeCompiled compiled) (f compiled)) := by
  refine (h.compile step).bind fun c => (h.issue c.text c.paramsDict).bind fun outcome => ?_
  cases outcome with
  | result r => exact hf c r
  | statement text => exact .pure _

theorem rowsOf (h : db.Serves I) (step : Compile Compiled) : Action.Keeps I (db.rowsOf step) :=
  h.verb step fun _ _ => (h.mapping _).bind fun _ => .pure _

theorem getFirst (h : db.Serves I) (table columns wheres join : Value) :
    Action.Keeps I (db.getFirst table columns wheres join) := by
  refine h.verb _ fun c r => ?_
  cases r.rows with
  | nil => exact .pure _
  | cons row rest => exact (h.mapping _).bind fun _ => .pure _

theorem has (h : db.Serves I) (table wheres join : Value) :
    Action.Keeps I (db.has table wheres join) :=
  h.verb _ fun _ _ => (Action.Keeps.lift _).bind fun _ => .pure _

theorem aggregate (h : db.Serves I) (function table column wheres join : Value) :
    Action.Keeps I (db.aggregate function table column wheres join) :=
  h.verb _ fun _ _ => (Action.Keeps.lift _).bind fun _ => .pure _

theorem write (h : db.Serves I) (step : Compile Compiled) : Action.Keeps I (db.write step) :=
  h.verb step fun _ _ => .pure _

theorem insert (h : db.Serves I) (table rows : Value) :
    Action.Keeps I (db.insert table rows) := by
  refine (h.write _).bind fun reply => ?_
  cases reply with
  | result r =>
      refine (h.modifies ?_).bind fun _ => .pure _
      exact fun _ => ⟨rfl, rfl, rfl⟩
  | _ => exact .pure _

theorem replace (h : db.Serves I) (table columns wheres : Value) :
    Action.Keeps I (db.replace table columns wheres) := by
  unfold Database.replace
  split
  · split
    · exact h.write _
    · exact .pure _
  · exact .throw _

theorem executeText (h : db.Serves I) (sql params : Value) :
    Action.Keeps I (db.executeText sql params) := by
  refine (Action.Keeps.lift _).bind fun params => ?_
  split
  · refine (h.issue _ _).bind fun outcome => ?_
    cases outcome with
    | result r => exact .pure _
    | statement text => exact .pure _
  · exact (h.setDryRun false).bind fun _ => .throw _

/-! Several actions. -/

theorem onWorker (h : db.Serves I) {actions : List (Action σ τ α)}
    (hactions : ∀ a ∈ actions, Action.Keeps I a) : Action.Keeps I (db.onWorker actions) := by
  refine h.worker _ ?_
  cases actions with
  | nil => exact .pure _
  | cons first rest =>
      have hrest : Action.Keeps I (runAll rest) :=
        .runAll fun a ha => hactions a (List.mem_cons_of_mem first ha)
      exact (hactions first List.mem_cons_self).bind fun _ => hrest.bind fun _ =>
        (Action.Keeps.lift _).bind fun _ => .pure _

/-- What goes on after actions that run on the calling thread or on a worker. -/
theorem together (h : db.Serves I) {actions : List (Action σ τ α)}
    {k : List α → Action σ τ β} (here : Prop) [Decidable here]
    (hactions : ∀ a ∈ actions, Action.Keeps I a) (hk : ∀ replies, Action.Keeps I (k replies)) :
    Action.Keeps I (if here then inOrder actions >>= k else db.onWorker actions >>= k) := by
  split
  · exact (Action.Keeps.inOrder hactions).bind hk
  · exact (h.onWorker hactions).bind hk

theorem run (h : db.Serves I) (o : Operation) : Action.Keeps I (db.run o) := by
  unfold Database.run
  split
  · exact h.rowsOf _
  · exact h.getFirst _ _ _ _
  · exact h.has _ _ _
  · exact h.aggregate _ _ _ _ _
  · exact .throw _

theorem selectInChunks (h : db.Serves I) (table columns wheres join size atOnce : Value) :
    Action.Keeps I (db.selectInChunks table columns wheres join size atOnce) := by
  unfold Database.selectInChunks
  refine (Action.Keeps.lift _).bind fun small => ?_
  split
  · exact .throw _
  refine (Action.Keeps.lift _).bind fun none => ?_
  split
  · exact .throw _
  refine (Action.Keeps.lift _).bind fun entries => (h.aggregate _ _ _ _ _).bind fun counted =>
    (Action.Keeps.lift _).bind fun counted => (Action.Keeps.lift _).bind fun fits => ?_
  split
  · exact h.rowsOf _
  refine (Action.Keeps.lift _).bind fun limits => inTransaction.bind fun here =>
    h.together _ ?_ fun replies => (Action.Keeps.lift _).bind fun _ =>
      (Action.Keeps.lift _).bind fun _ => .pure _
  intro selection hselection
  obtain ⟨limit, -, rfl⟩ := List.mem_map.mp hselection
  exact h.rowsOf _

theorem parallel (h : db.Serves I) (operations : List Operation) (concurrent : Bool) :
    Action.Keeps I (db.parallel operations concurrent) := by
  have hactions : ∀ a ∈ operations.map db.run, Action.Keeps I a := by
    intro a ha
    obtain ⟨o, -, rfl⟩ := List.mem_map.mp ha
    exact h.run o
  exact inTransaction.bind fun here => h.together _ hactions fun _ => .pure _

theorem batch (h : db.Serves I) {actions : List (Action σ τ Reply)}
    (hactions : ∀ a ∈ actions, Action.Keeps I a) : Action.Keeps I (db.batch actions) := by
  unfold Database.batch
  split
  · exact .pure _
  · exact inTransaction.bind fun here => h.together _ hactions fun _ => .pure _

/-! Methods. -/

/-- A method that neither begins nor ends a transaction. -/
theorem perform (h : db.Serves I) {m : Method} (hm : m.bounds = false) (values : List Value) :
    Action.Keeps I (db.perform m values) := by
  unfold Database.perform
  split
  · exact h.rowsOf _
  · exact h.getFirst _ _ _ _
  · exact h.rowsOf _
  · exact h.has _ _ _
  · exact h.aggregate _ _ _ _ _
  · exact h.insert _ _
  · exact h.write _
  · exact h.write _
  · exact h.replace _ _ _
  · exact h.verb _ fun _ _ => .pure _
  · exact h.executeText _ _
  · exact .lift _
  · exact (h.setDryRun true).bind fun _ => .pure _
  · exact inspect _
  · exact inspect _
  · exact Action.Keeps.get.bind fun _ => (Action.Keeps.lift _).bind fun _ => .pure _
  · exact Action.Keeps.get.bind fun _ => (Action.Keeps.lift _).bind fun _ => .pure _
  · cases hm
  · cases hm
  · cases hm
  · exact inTransaction.bind fun _ => .pure _
  · exact h.selectInChunks _ _ _ _ _ _
  · split
    · exact h.aggregate _ _ _ _ _
    · exact .throw _
  · exact .throw _

end Serves

namespace Preserves

variable {db : Database σ τ} {I : DatabaseState σ τ → Prop}

/-! Transactions. -/

theorem transaction (h : db.Preserves I) {body : Action σ τ Reply} (hbody : Action.Keeps I body) :
    Action.Keeps I (db.transaction body) := by
  refine h.begin.bind fun _ => hbody.attempt.bind fun result => ?_
  cases result with
  | error f => exact h.rollback.bind fun _ => .throw _
  | ok reply => exact h.commit.bind fun _ => .pure _

theorem action (h : db.Preserves I) {body : Action σ τ Reply} (hbody : Action.Keeps I body) :
    Action.Keeps I (db.action body) := by
  refine h.begin.bind fun _ => hbody.attempt.bind fun result => ?_
  cases result with
  | error f => exact h.rollback.bind fun _ => .throw _
  | ok reply =>
      dsimp only
      split
      · exact h.rollback.bind fun _ => .pure _
      · exact h.commit.bind fun _ => .pure _

/-! Methods. -/

theorem quietly {m : Action σ τ Unit} (hm : Action.Keeps I m) : Action.Keeps I (quietly m) :=
  hm.bind fun _ => .pure _

theorem perform (h : db.Preserves I) (m : Method) (values : List Value) :
    Action.Keeps I (db.perform m values) := by
  cases m with
  | begin => exact quietly h.begin
  | commit => exact quietly h.commit
  | rollback => exact quietly h.rollback
  | _ => exact h.toServes.perform rfl values

theorem call (h : db.Preserves I) (m : Method) (args : List Value)
    (named : List (String × Value)) : Action.Keeps I (db.call m args named) :=
  (Action.Keeps.lift _).bind fun values => h.perform m values

end Preserves

/-- The programs on a database: whatever goes on from the outcome of calls on it, passes their faults on
or catches them, and puts them into transactions and onto workers. -/
inductive Composed (db : Database σ τ) : {α : Type} → Action σ τ α → Prop
  | pure {α : Type} (a : α) : Composed db (Pure.pure a)
  | fail {α : Type} (f : Fault) : Composed db (throw f : Action σ τ α)
  | bind {α β : Type} {m : Action σ τ α} {k : α → Action σ τ β} (hm : Composed db m)
      (hk : ∀ a, Composed db (k a)) : Composed db (m >>= k)
  | attempt {α : Type} {m : Action σ τ α} (hm : Composed db m) : Composed db (attempt m)
  | call (m : Method) (args : List Value) (named : List (String × Value)) :
      Composed db (db.call m args named)
  | operation (o : Operation) : Composed db (db.run o)
  | transaction {body : Action σ τ Reply} (hbody : Composed db body) :
      Composed db (db.transaction body)
  | action {body : Action σ τ Reply} (hbody : Composed db body) : Composed db (db.action body)
  | parallel (operations : List Operation) (concurrent : Bool) :
      Composed db (db.parallel operations concurrent)
  | batch {actions : List (Action σ τ Reply)} (h : ∀ a ∈ actions, Composed db a) :
      Composed db (db.batch actions)

/-- Every program keeps what the methods of a database are made of keep. -/
theorem Preserves.composed {db : Database σ τ} {I : DatabaseState σ τ → Prop} (h : db.Preserves I)
    {program : Action σ τ α} (hprogram : db.Composed program) : Action.Keeps I program := by
  induction hprogram with
  | pure a => exact .pure a
  | fail f => exact .throw f
  | bind _ _ ihm ihk => exact ihm.bind ihk
  | attempt _ ih => exact ih.attempt
  | call m args named => exact h.call m args named
  | operation o => exact h.run o
  | transaction _ ih => exact h.transaction ih
  | action _ ih => exact h.action ih
  | parallel operations concurrent => exact h.parallel operations concurrent
  | batch _ ih => exact h.batch ih

theorem Composed.inOrder {db : Database σ τ} {actions : List (Action σ τ α)}
    (h : ∀ a ∈ actions, db.Composed a) : db.Composed (inOrder actions) := by
  induction actions with
  | nil => exact .pure []
  | cons first rest ih =>
      have hrest : db.Composed (Database.inOrder rest) :=
        ih fun a ha => h a (List.mem_cons_of_mem first ha)
      exact (h first List.mem_cons_self).bind fun _ => hrest.bind fun _ => .pure _

theorem Composed.runAll {db : Database σ τ} {actions : List (Action σ τ α)}
    (h : ∀ a ∈ actions, db.Composed a) : db.Composed (runAll actions) := by
  induction actions with
  | nil => exact .pure []
  | cons first rest ih =>
      have hrest : db.Composed (Database.runAll rest) :=
        ih fun a ha => h a (List.mem_cons_of_mem first ha)
      exact (h first List.mem_cons_self).attempt.bind fun _ => hrest.bind fun _ => .pure _

theorem Composed.pipeline {db : Database σ τ} {stages : List (Reply → Action σ τ Reply)}
    (h : ∀ stage ∈ stages, ∀ reply, db.Composed (stage reply)) (reply : Reply) :
    db.Composed (pipeline reply stages) := by
  induction stages generalizing reply with
  | nil => exact .pure reply
  | cons stage rest ih =>
      exact (h stage List.mem_cons_self reply).bind
        (ih fun next hnext => h next (List.mem_cons_of_mem stage hnext))

end Database

namespace Call

open Database

mutual

/-- What a call does that is given as data is a program. -/
theorem composed_run (db : Database σ τ) (c : Call) : db.Composed (c.run db) := by
  cases c with
  | method m args named => exact .call m args named
  | dialect => exact .pure _
  | give v => exact .pure _
  | fail f => exact .fail f
  | action body gives =>
      exact .action ((Composed.inOrder (composed_actions db body)).bind fun _ => .pure _)
  | transaction body gives =>
      exact .transaction ((Composed.inOrder (composed_actions db body)).bind fun _ => .pure _)
  | operation o => exact .operation o
  | parallel operations concurrent => exact .parallel operations concurrent
  | batch calls => exact .batch (composed_actions db calls)
  | pipeline calls =>
      refine Composed.pipeline (fun stage hstage reply => ?_) _
      obtain ⟨action, haction, rfl⟩ := List.mem_map.mp hstage
      exact (composed_actions db calls action haction).bind fun _ => .pure _

theorem composed_actions (db : Database σ τ) (calls : List Call) :
    ∀ a ∈ actions db calls, db.Composed a := by
  cases calls with
  | nil => exact fun a ha => absurd ha List.not_mem_nil
  | cons c rest =>
      intro a ha
      rcases List.mem_cons.mp ha with rfl | hrest
      · exact composed_run db c
      · exact composed_actions db rest a hrest

end

end Call

end QueryLoom
