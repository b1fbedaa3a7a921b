import QueryLoom.Execution.Pool
import QueryLoom.Proofs.Connection.Atomicity
import QueryLoom.Proofs.Runs.Records

/-!
What reaches a pool of connections while calls are made on its executor. The actions on the pool are
recorded, and each call adds those of its kind: a statement runs on the connection of the transaction,
or on one that is taken for it and closed after it, and the connection of a transaction is taken by its
beginning and closed by its end. Connections are told apart by the order in which they are taken, since
a pool may use a number again.
-/

namespace QueryLoom

variable {σ α : Type}

/-- An action on a pool. Connections are numbered in the order in which they are taken. -/
inductive PoolEvent
  /-- A connection is taken, which the pool knows by a number of its own. -/
  | connect (connection own : Nat)
  | prepare (connection : Nat) (statement : String)
  | begin (connection : Nat)
  | execute (connection : Nat) (statement : String) (values : Option Value) (ok : Bool)
  | commit (connection : Nat) (ok : Bool)
  | rollback (connection : Nat) (ok : Bool)
  | close (connection : Nat)
  | dispose

namespace PoolEvent

/-- The connection that an action is about. -/
def connection? : PoolEvent → Option Nat
  | .connect connection _ | .prepare connection _ | .begin connection
  | .execute connection _ _ _ | .commit connection _ | .rollback connection _
  | .close connection => some connection
  | .dispose => none

def taken? : PoolEvent → Option Nat
  | .connect connection _ => some connection
  | _ => none

def closed? : PoolEvent → Option Nat
  | .close connection => some connection
  | _ => none

/-- The connection that the pool knows by a number, if the action takes it. -/
def takenAs? (own : Nat) : PoolEvent → Option Nat
  | .connect connection number => if number = own then some connection else none
  | _ => none

/-- The connections that are taken, in order. -/
def taken (events : List PoolEvent) : List Nat := events.filterMap taken?

/-- The connections that are closed, in order. -/
def closed (events : List PoolEvent) : List Nat := events.filterMap closed?

/-- The connection that the pool knows by a number: the last one that was taken under it. A number
under which none was taken stands for a connection that does not exist yet. -/
def numbered (events : List PoolEvent) (own : Nat) : Nat :=
  (events.reverse.findSome? (takenAs? own)).getD (taken events).length

@[simp]
theorem taken_cons (event : PoolEvent) (events : List PoolEvent) :
    taken (event :: events) = event.taken?.toList ++ taken events := by
  rw [taken, List.filterMap_cons]
  cases event.taken? with
  | none => rfl
  | some connection => rfl

@[simp]
theorem closed_cons (event : PoolEvent) (events : List PoolEvent) :
    closed (event :: events) = event.closed?.toList ++ closed events := by
  rw [closed, List.filterMap_cons]
  cases event.closed? with
  | none => rfl
  | some connection => rfl

@[simp]
theorem taken_nil : taken [] = [] := rfl

@[simp]
theorem closed_nil : closed [] = [] := rfl

@[simp]
theorem taken_append (events more : List PoolEvent) :
    taken (events ++ more) = taken events ++ taken more := List.filterMap_append

@[simp]
theorem closed_append (events more : List PoolEvent) :
    closed (events ++ more) = closed events ++ closed more := List.filterMap_append

theorem takenAs?_of_taken? {event : PoolEvent} (h : event.taken? = none) (own : Nat) :
    event.takenAs? own = none := by
  cases event with
  | connect connection number => cases h
  | _ => rfl

/-- What a number stands for stays the same until another connection is taken. -/
theorem numbered_append {more : List PoolEvent} (h : taken more = []) (events : List PoolEvent)
    (own : Nat) : numbered (events ++ more) own = numbered events own := by
  have hnone : more.reverse.findSome? (takenAs? own) = none := by
    rw [List.findSome?_eq_none_iff]
    intro event hevent
    exact takenAs?_of_taken? (List.filterMap_eq_nil_iff.mp h event (List.mem_reverse.mp hevent)) own
  rw [numbered, numbered, List.reverse_append, List.findSome?_append, hnone, taken_append, h,
    List.append_nil, Option.none_or]

theorem numbered_connect (events : List PoolEvent) (connection own : Nat) :
    numbered (events ++ [.connect connection own]) own = connection := by
  simp [numbered, takenAs?]

end PoolEvent

/-- An action on a connection that is recorded as an event. -/
def PoolEvent.recording (own : Nat) (action : StateM σ α) (event : Nat → α → PoolEvent) :
    StateM (σ × List PoolEvent) α := fun (s, record) =>
  let (a, s) := action.run s
  (a, (s, record ++ [event (numbered record own) a]))

open PoolEvent in
/-- A pool that records the actions on it. -/
def Pool.recorded (p : Pool σ) : Pool (σ × List PoolEvent) where
  connect := fun (s, record) =>
    let (own, s) := p.connect.run s
    (own, (s, record ++ [.connect (taken record).length own]))
  prepare own statement := recording own (p.prepare own statement) fun c _ => .prepare c statement
  begin own := recording own (p.begin own) fun c _ => .begin c
  execute own statement values :=
    recording own (p.execute own statement values) fun c result =>
      .execute c statement values result.isOk
  commit own := recording own (p.commit own) fun c result => .commit c result.isOk
  rollback own := recording own (p.rollback own) fun c result => .rollback c result.isOk
  close own := recording own (p.close own) fun c _ => .close c
  dispose := fun (s, record) => ((), (p.dispose.run s).2, record ++ [.dispose])

/-- A call that was made on a pool, whether it returned, and the actions on the pool. -/
structure PoolEntry where
  call : ExecutorCall
  returned : Bool
  events : List PoolEvent

namespace PoolEntry

/-- The connection of the open transaction after a call: a beginning that returns opens one on the
connection that it has taken, and every end closes it, also one that fails. -/
def transactionAfter (transaction : Option Nat) (e : PoolEntry) : Option Nat :=
  match e.call with
  | .execute _ _ => transaction
  | .begin => if e.returned then (PoolEvent.taken e.events).head? else transaction
  | .commit | .rollback => none

/-- What makes a new connection ready for use. -/
def prepared (d : PoolDialect) (connection : Nat) : List PoolEvent :=
  if d.isMySql then [.prepare connection PoolExecutor.quotesStatement] else []

/-- What a statement sends that has a connection of its own, by whether it returned. A statement that
the driver executes is committed, and one that it refuses is rolled back. -/
def SendsAlone (d : PoolDialect) (connection : Nat) (statement : String) (values : Option Value)
    (returned : Bool) (events : List PoolEvent) : Prop :=
  ∃ own ended,
    events = .connect connection own :: (prepared d connection ++ ended) ∧
      (ended = [.execute connection statement values true, .commit connection returned,
          .close connection] ∨
        returned = false ∧ ∃ undone, ended = [.execute connection statement values false,
          .rollback connection undone, .close connection])

/-- What a call does to the pool, by how many connections have been taken before it and by the
connection of the open transaction. -/
def Fits (d : PoolDialect) (next : Nat) (transaction : Option Nat) (e : PoolEntry) : Prop :=
  match e.call, transaction with
  | .execute sql params, transaction =>
      match ParamStyle.ofName? d.paramStyle with
      | none => e.returned = false ∧ e.events = []
      | some style =>
          let bound := Binding.bind sql params style d.isMySql
          let values := if bound.2.truthy then some bound.2 else none
          match transaction with
          | some connection => e.events = [.execute connection bound.1 values e.returned]
          | none => SendsAlone d next bound.1 values e.returned e.events
  | .begin, none =>
      e.returned = true ∧ ∃ own,
        e.events = .connect next own :: (prepared d next ++ [.begin next])
  | .commit, some connection =>
      e.events = [.commit connection e.returned, .close connection]
  | .rollback, some connection =>
      e.events = [.rollback connection e.returned, .close connection]
  | .begin, some _ | .commit, none | .rollback, none => e.returned = false ∧ e.events = []

end PoolEntry

namespace PoolExecutor

open PoolEvent PoolEntry

/-- The state of an executor on a pool that is recorded. -/
abbrev Recorded (σ : Type) := (σ × List PoolEvent) × Option Nat

/-- The steps of an executor on a pool that is recorded add the actions on it to the record. -/
abbrev Sends (step : PoolStep (σ × List PoolEvent) α) (u : Recorded σ)
    (Q : Except Fault α → List PoolEvent → Recorded σ → Prop) : Prop :=
  Step.Adds Prod.snd step u Q

variable {u : Recorded σ}

theorem sends_recording (own : Nat) (action : StateM σ α) (event : Nat → α → PoolEvent) :
    Sends (Step.shared (recording own action event)) u fun result events v =>
      ∃ a, result = .ok a ∧ events = [event (numbered u.1.2 own) a] ∧ v.2 = u.2 :=
  .shared rfl rfl ⟨_, rfl, rfl, rfl⟩

theorem sends_prepare (p : Pool σ) (own : Nat) (statement : String) :
    Sends (Step.shared (p.recorded.prepare own statement)) u fun result events v =>
      result = .ok () ∧ events = [.prepare (numbered u.1.2 own) statement] ∧ v.2 = u.2 :=
  .shared rfl rfl ⟨rfl, rfl, rfl⟩

theorem sends_close (p : Pool σ) (own : Nat) :
    Sends (Step.shared (p.recorded.close own)) u fun result events v =>
      result = .ok () ∧ events = [.close (numbered u.1.2 own)] ∧ v.2 = u.2 :=
  .shared rfl rfl ⟨rfl, rfl, rfl⟩

/-- A connection is taken, and known afterwards by the number that is given for it. -/
theorem sends_connect (p : Pool σ) (d : PoolDialect) :
    Sends (connect p.recorded d) u fun result events v =>
      ∃ own, result = .ok own ∧
        events = .connect (taken u.1.2).length own :: prepared d (taken u.1.2).length ∧
        numbered v.1.2 own = (taken u.1.2).length ∧ v.2 = u.2 := by
  have htaken : Sends (Step.shared p.recorded.connect) u fun result events v =>
      ∃ own, result = .ok own ∧ events = [.connect (taken u.1.2).length own] ∧ v.2 = u.2 :=
    .shared rfl rfl ⟨_, rfl, rfl, rfl⟩
  refine htaken.bind ?_ ?_
  · rintro own events v hrecord ⟨_, heq, rfl, hpart⟩
    cases heq
    have hnumber : numbered v.1.2 own = (taken u.1.2).length := by
      rw [hrecord, numbered_connect]
    cases hsystem : d.isMySql with
    | false =>
        refine .pure ⟨own, rfl, ?_, hnumber, hpart⟩
        simp [prepared, hsystem]
    | true =>
        refine (sends_prepare p own quotesStatement).bind ?_ ?_
        · rintro _ more w hmore ⟨-, rfl, hkept⟩
          refine .pure ⟨own, rfl, ?_, ?_, hkept.trans hpart⟩
          · simp [prepared, hsystem, hnumber]
          · rw [hmore, numbered_append rfl, hnumber]
        · rintro f more w ⟨heq, -⟩
          cases heq
  · rintro f events v ⟨_, heq, -⟩
    cases heq

theorem sends_orFail (sql : String) (ended : Except PoolFailure α) :
    Sends (orFail sql ended) u fun result events v =>
      result.isOk = ended.isOk ∧ events = [] ∧ v.2 = u.2 := by
  cases ended with
  | ok a => exact .pure ⟨rfl, rfl, rfl⟩
  | error failure =>
      cases failure with
      | database message => exact .throw ⟨rfl, rfl, rfl⟩
      | foreign message => exact .throw ⟨rfl, rfl, rfl⟩

theorem sends_orRaise (ended : Except PoolFailure α) :
    Sends (orRaise ended) u fun result events v =>
      result.isOk = ended.isOk ∧ events = [] ∧ v.2 = u.2 := by
  cases ended with
  | ok a => exact .pure ⟨rfl, rfl, rfl⟩
  | error failure =>
      cases failure with
      | database message => exact .throw ⟨rfl, rfl, rfl⟩
      | foreign message => exact .throw ⟨rfl, rfl, rfl⟩

/-- A statement on a connection. -/
theorem sends_runOn (p : Pool σ) (own : Nat) (sql statement : String) (values : Value) :
    Sends (runOn p.recorded own sql statement values) u fun result events v =>
      events = [.execute (numbered u.1.2 own) statement
        (if values.truthy then some values else none) result.isOk] ∧ v.2 = u.2 := by
  have hexecuted := sends_recording (u := u) own
    (p.execute own statement (if values.truthy then some values else none)) fun c result =>
      .execute c statement (if values.truthy then some values else none) result.isOk
  refine Step.Adds.bind hexecuted ?_ ?_
  · rintro reply events v - ⟨_, heq, rfl, hpart⟩
    cases heq
    refine (sends_orFail sql reply).bind ?_ ?_
    · rintro a more w - ⟨hok, rfl, hkept⟩
      refine .pure ⟨?_, hkept.trans hpart⟩
      rw [← hok]
      rfl
    · rintro f more w ⟨hok, rfl, hkept⟩
      refine ⟨?_, hkept.trans hpart⟩
      rw [← hok]
      rfl
  · rintro f events v ⟨_, heq, -⟩
    cases heq

/-- An action that ends the use of a connection, and the closing of the connection. -/
theorem sends_ending (p : Pool σ) (own : Nat) (action : StateM σ (Except PoolFailure Unit))
    (event : Nat → Bool → PoolEvent) (htaken : ∀ connection ok, (event connection ok).taken? = none)
    {pass : Except PoolFailure Unit → PoolStep (σ × List PoolEvent) Unit}
    (hpass : ∀ ended v, Sends (pass ended) v fun result events w =>
      result.isOk = ended.isOk ∧ events = [] ∧ w.2 = v.2) :
    Sends (Step.andFinally
        (do pass (← Step.shared (recording own action fun c result => event c result.isOk)))
        (Step.shared (p.recorded.close own))) u fun result events v =>
      events = [event (numbered u.1.2 own) result.isOk, .close (numbered u.1.2 own)] ∧
        v.2 = u.2 := by
  have haction : Sends
      (do pass (← Step.shared (recording own action fun c result => event c result.isOk))) u
      fun result events v => events = [event (numbered u.1.2 own) result.isOk] ∧ v.2 = u.2 := by
    refine (sends_recording own action _).bind ?_ ?_
    · rintro ended events v - ⟨_, heq, rfl, hpart⟩
      cases heq
      refine (hpass ended v).mono ?_
      rintro result more w - ⟨hok, rfl, hkept⟩
      exact ⟨by rw [hok]; rfl, hkept.trans hpart⟩
    · rintro f events v ⟨_, heq, -⟩
      cases heq
  refine haction.andFinally ?_
  rintro result events v hrecord ⟨rfl, hpart⟩
  have hnumber : numbered v.1.2 own = numbered u.1.2 own := by
    rw [hrecord, numbered_append]
    simp [taken, htaken]
  refine (sends_close p own).mono ?_
  rintro ended more w - ⟨hended, rfl, hkept⟩
  exact ⟨hended, by rw [hnumber]; rfl, hkept.trans hpart⟩

/-- A statement on a connection of its own. -/
theorem sends_runAlone (p : Pool σ) (d : PoolDialect) (sql statement : String) (values : Value) :
    Sends (runAlone p.recorded d sql statement values) u fun result events v =>
      SendsAlone d (taken u.1.2).length statement (if values.truthy then some values else none)
        result.isOk events ∧ v.2 = u.2 := by
  refine (sends_connect p d).bind ?_ ?_
  · rintro own events v - ⟨_, heq, rfl, hnumber, hpart⟩
    cases heq
    refine (sends_runOn p own sql statement values).attempt.bind ?_ ?_
    · rintro ran more w hrecord ⟨_, heq, rfl, hkept⟩
      cases heq
      have hnumber' : numbered w.1.2 own = (taken u.1.2).length := by
        rw [hrecord, numbered_append rfl, hnumber]
      cases ran with
      | ok r =>
          refine (sends_ending p own (p.commit own) .commit (fun _ _ => rfl)
            fun ended _ => sends_orFail sql ended).bind ?_ ?_
          · rintro _ last x - ⟨rfl, hkept'⟩
            refine .pure ⟨⟨own, _, ?_, .inl rfl⟩, hkept'.trans (hkept.trans hpart)⟩
            simp [hnumber, hnumber', Except.isOk, Except.toBool]
          · rintro f last x ⟨rfl, hkept'⟩
            refine ⟨⟨own, _, ?_, .inl rfl⟩, hkept'.trans (hkept.trans hpart)⟩
            simp [hnumber, hnumber', Except.isOk, Except.toBool]
      | error f =>
          refine (sends_ending p own (p.rollback own) .rollback (fun _ _ => rfl)
            fun ended _ => sends_orFail sql ended).bind ?_ ?_
          · rintro _ last x - ⟨rfl, hkept'⟩
            refine .throw ⟨⟨own, _, ?_, .inr ⟨rfl, true, rfl⟩⟩, hkept'.trans (hkept.trans hpart)⟩
            simp [hnumber, hnumber', Except.isOk, Except.toBool]
          · rintro fault last x ⟨rfl, hkept'⟩
            refine ⟨⟨own, _, ?_, .inr ⟨rfl, false, rfl⟩⟩, hkept'.trans (hkept.trans hpart)⟩
            simp [hnumber, hnumber', Except.isOk, Except.toBool]
    · rintro f more w ⟨_, heq, -⟩
      cases heq
  · rintro f events v ⟨_, heq, -⟩
    cases heq

/-- The connection of the open transaction, by its place among those that were taken. -/
def transactionOf (u : Recorded σ) : Option Nat := u.2.map (numbered u.1.2)

/-- The connection of the transaction stays the same while no other one is taken. -/
theorem transactionOf_of_kept {u v : Recorded σ} {events : List PoolEvent}
    (hrecord : v.1.2 = u.1.2 ++ events) (htaken : taken events = []) (hpart : v.2 = u.2) :
    transactionOf v = transactionOf u := by
  unfold transactionOf
  rw [hpart, hrecord]
  exact Option.map_congr fun own _ => numbered_append htaken u.1.2 own

/-- What a call on the executor does, and the transaction that it leaves open. -/
def Does (d : PoolDialect) (call : ExecutorCall) (u : Recorded σ) (result : Except Fault α)
    (events : List PoolEvent) (v : Recorded σ) : Prop :=
  Fits d (taken u.1.2).length (transactionOf u) ⟨call, result.isOk, events⟩ ∧
    transactionOf v = transactionAfter (transactionOf u) ⟨call, result.isOk, events⟩

theorem sends_execute (p : Pool σ) (d : PoolDialect) (sql : String) (params : Dict) :
    Sends (execute p.recorded d sql params) u (Does d (.execute sql params) u) := by
  unfold execute
  cases hstyle : ParamStyle.ofName? d.paramStyle with
  | none =>
      refine .throw ⟨?_, rfl⟩
      simp [Fits, hstyle, Except.isOk, Except.toBool]
  | some style =>
      rcases hbound : Binding.bind sql params style d.isMySql with ⟨statement, values⟩
      simp only [hbound]
      obtain ⟨s, part⟩ := u
      have hpart : Sends (current : PoolStep (σ × List PoolEvent) (Option Nat)) (s, part)
          fun result events v => result = .ok part ∧ events = [] ∧ v = (s, part) :=
        .pure ⟨rfl, rfl, rfl⟩
      refine hpart.bind ?_ ?_
      · rintro _ _ _ - ⟨heq, rfl, rfl⟩
        cases heq
        cases part with
        | none =>
            refine (sends_runAlone p d sql statement values).mono ?_
            rintro result events v - ⟨hsends, hkept⟩
            refine ⟨?_, ?_⟩
            · simp only [Fits, hstyle, hbound]
              exact hsends
            · simp [transactionOf, transactionAfter, hkept]
        | some own =>
            refine (sends_runOn p own sql statement values).mono ?_
            rintro result events v hrecord ⟨rfl, hkept⟩
            refine ⟨?_, transactionOf_of_kept hrecord rfl hkept⟩
            simp only [Fits, hstyle, hbound]
            rfl
      · rintro f _ _ ⟨heq, -⟩
        cases heq

theorem sends_begin (p : Pool σ) (d : PoolDialect) :
    Sends (begin p.recorded d) u (Does d .begin u) := by
  obtain ⟨s, part⟩ := u
  cases part with
  | some own => exact .throw ⟨⟨rfl, rfl⟩, rfl⟩
  | none =>
      have hbegins : Sends (do
          let connection ← connect p.recorded d
          Step.shared (p.recorded.begin connection)
          setCurrent (some connection)) (s, none) (Does d .begin (s, none)) := by
        refine (sends_connect p d).bind ?_ ?_
        · rintro own events v hrecord ⟨_, heq, rfl, hnumber, -⟩
          cases heq
          have hbegun : Sends (Step.shared (p.recorded.begin own)) v fun result more w =>
              result = .ok () ∧ more = [.begin (numbered v.1.2 own)] ∧ w.2 = v.2 :=
            .shared rfl rfl ⟨rfl, rfl, rfl⟩
          refine hbegun.bind ?_ ?_
          · rintro _ more w hmore ⟨-, rfl, -⟩
            refine ⟨.ok (), (w.1, some own), [], rfl, (List.append_nil _).symm, ?_, ?_⟩
            · refine ⟨rfl, own, ?_⟩
              simp [hnumber]
            · have hlast : numbered w.1.2 own = numbered v.1.2 own := by
                rw [hmore, numbered_append rfl]
              simp [transactionOf, transactionAfter, taken, taken?, hlast, hnumber, Except.isOk,
                Except.toBool]
          · rintro f more w ⟨heq, -⟩
            cases heq
        · rintro f events v ⟨_, heq, -⟩
          cases heq
      exact hbegins

/-- An end closes the transaction, whether it fails or not. -/
theorem sends_finish (p : Pool σ) (action : Nat → StateM σ (Except PoolFailure Unit))
    (event : Nat → Bool → PoolEvent)
    (htaken : ∀ connection ok, (event connection ok).taken? = none) :
    Sends (finish p.recorded fun own =>
        recording own (action own) fun c result => event c result.isOk) u
      fun result events v => v.2 = none ∧
        match transactionOf u with
        | none => result.isOk = false ∧ events = []
        | some connection => events = [event connection result.isOk, .close connection] := by
  obtain ⟨s, part⟩ := u
  cases part with
  | none => exact .throw ⟨rfl, rfl, rfl⟩
  | some own =>
      have hends := sends_ending (u := (s, none)) p own (action own) event htaken
        fun ended _ => sends_orRaise ended
      refine hends.mono ?_
      rintro result events v - ⟨rfl, hpart⟩
      exact ⟨hpart, rfl⟩

/-- A call does to the pool what its kind does, and leaves a transaction open as its kind does. -/
theorem sends_call (p : Pool σ) (d : PoolDialect) (call : ExecutorCall) :
    Sends (call.step (p.recorded.executor d)) u (Does d call u) := by
  cases call with
  | execute sql params =>
      refine (sends_execute p d sql params).bind ?_ fun _ _ _ hdoes => hdoes
      intro r events v _ hdoes
      refine .pure ?_
      rw [List.append_nil]
      exact hdoes
  | begin => exact sends_begin p d
  | commit =>
      refine (sends_finish p p.commit .commit fun _ _ => rfl).mono ?_
      rintro result events v - ⟨hpart, hevents⟩
      refine ⟨?_, ?_⟩
      · cases htransaction : transactionOf u with
        | none => simpa [Fits, htransaction] using hevents
        | some connection => simpa [Fits, htransaction] using hevents
      · simp [transactionOf, transactionAfter, hpart]
  | rollback =>
      refine (sends_finish p p.rollback .rollback fun _ _ => rfl).mono ?_
      rintro result events v - ⟨hpart, hevents⟩
      refine ⟨?_, ?_⟩
      · cases htransaction : transactionOf u with
        | none => simpa [Fits, htransaction] using hevents
        | some connection => simpa [Fits, htransaction] using hevents
      · simp [transactionOf, transactionAfter, hpart]

end PoolExecutor

end QueryLoom
