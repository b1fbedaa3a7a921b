import Mathlib.Data.List.Nodup
import QueryLoom.Proofs.Pool.Trace

/-!
Connections that are taken from a pool and closed. On one thread at most one of them is in use at any
time, since a beginning inside a transaction is refused and a statement outside one closes its
connection. So the connections are closed in the order in which they were taken, and what is taken
and not closed is the connection of the open transaction.
-/

namespace QueryLoom

variable {σ : Type}

namespace PoolEvent

/-- The connections that are taken and not closed. -/
def checkedOut (events : List PoolEvent) : List Nat :=
  (taken events).filter fun connection => connection ∉ closed events

/-- Whether a statement is executed on a connection. -/
def runsOn (connection : Nat) : PoolEvent → Bool
  | .execute other _ _ _ => other == connection
  | _ => false

/-- The statements on a connection. -/
def statementsOn (connection : Nat) (events : List PoolEvent) : List PoolEvent :=
  events.filter (runsOn connection)

theorem runsOn_self (connection : Nat) (statement : String) (values : Option Value) (ok : Bool) :
    (execute connection statement values ok).runsOn connection = true := beq_self_eq_true connection

theorem connection?_of_runsOn {event : PoolEvent} {connection : Nat}
    (h : event.runsOn connection = true) : event.connection? = some connection := by
  cases event with
  | execute other statement values ok => exact congrArg some (eq_of_beq h)
  | _ => cases h

theorem statementsOn_of_elsewhere {events : List PoolEvent} {connection : Nat}
    (h : ∀ event ∈ events, event.connection? ≠ some connection) :
    statementsOn connection events = [] := by
  rw [statementsOn, List.filter_eq_nil_iff]
  exact fun event hevent hruns => h event hevent (connection?_of_runsOn hruns)

/-- If all that was taken but one connection is closed, that one is checked out. -/
theorem checkedOut_of_balance {events : List PoolEvent} {transaction : Option Nat}
    (hbalance : closed events ++ transaction.toList = taken events)
    (hnodup : (taken events).Nodup) : checkedOut events = transaction.toList := by
  rw [← hbalance] at hnodup
  have hkept : ∀ c ∈ transaction.toList, c ∉ closed events := fun c hc hclosed =>
    (List.nodup_append.mp hnodup).2.2 c hclosed c hc rfl
  have hgone : (closed events).filter (fun c => c ∉ closed events) = [] := by
    rw [List.filter_eq_nil_iff]
    intro c hc
    simpa using hc
  rw [checkedOut, ← hbalance, List.filter_append, hgone, List.nil_append, List.filter_eq_self]
  intro c hc
  simpa using hkept c hc

/-- If all that was taken but one connection is closed, every other one is closed once. -/
theorem count_closed_of_balance {events : List PoolEvent} {transaction : Option Nat}
    (hbalance : closed events ++ transaction.toList = taken events)
    (hnodup : (taken events).Nodup) (connection : Nat) : (closed events).count connection =
      if connection ∈ taken events ∧ transaction ≠ some connection then 1 else 0 := by
  rw [← hbalance] at hnodup ⊢
  have hmem : connection ∈ closed events ↔
      connection ∈ closed events ++ transaction.toList ∧ transaction ≠ some connection := by
    rw [List.mem_append, Option.mem_toList]
    constructor
    · intro hclosed
      refine ⟨.inl hclosed, fun hheld => ?_⟩
      exact (List.nodup_append.mp hnodup).2.2 connection hclosed connection
        (Option.mem_toList.mpr hheld) rfl
    · rintro ⟨hclosed | hheld, hother⟩
      · exact hclosed
      · exact absurd hheld hother
  rw [(List.nodup_append.mp hnodup).1.count]
  exact if_congr hmem rfl rfl

end PoolEvent

namespace PoolEntry

open PoolEvent

/-- What is recorded in some calls. -/
def record (entries : List PoolEntry) : List PoolEvent := entries.flatMap events

/-- Whether a transaction is open after a call: a beginning that returns opens one, and every end
closes it, also one that fails. -/
def isOpenAfter (isOpen : Bool) (e : PoolEntry) : Bool :=
  match e.call with
  | .execute _ _ => isOpen
  | .begin => isOpen || e.returned
  | .commit | .rollback => false

/-- Whether a transaction is open after calls on a new executor. -/
def isOpen (entries : List PoolEntry) : Bool := entries.foldl isOpenAfter false

/-- The connection of the transaction that calls on a new executor leave open. -/
def transaction (entries : List PoolEntry) : Option Nat := entries.foldl transactionAfter none

/-- Whether each of some calls does what its kind does, given what the calls before it have taken and
left open. -/
def AllFit (d : PoolDialect) : Nat → Option Nat → List PoolEntry → Prop
  | _, _, [] => True
  | next, transaction, e :: rest =>
      e.Fits d next transaction ∧
        AllFit d (next + (taken e.events).length) (transactionAfter transaction e) rest

/-! One call. -/

/-- What a call does to the connections, given how many have been taken and which one the open
transaction is on: what it closes and what is in use after it was in use before it or is taken by it.
It works on that connection only, and there is one at most. -/
structure Balances (first : Nat) (transaction : Option Nat) (e : PoolEntry) : Prop where
  balance : closed e.events ++ (transactionAfter transaction e).toList =
    transaction.toList ++ taken e.events
  next : taken e.events = [] ∨ taken e.events = [first]
  place : ∀ event ∈ e.events, ∃ connection, event.connection? = some connection ∧
    transaction.toList ++ taken e.events = [connection]
  opened : (transactionAfter transaction e).isSome = isOpenAfter transaction.isSome e
  alone : transaction = none → ∀ connection statement values ok,
    .execute connection statement values ok ∈ e.events →
      taken e.events = [connection] ∧ closed e.events = [connection] ∧
        statementsOn connection e.events = [.execute connection statement values ok]

variable {d : PoolDialect} {next : Nat}

/-- What makes a connection ready is about this connection, and is no statement on it. -/
theorem mem_prepared {connection : Nat} {event : PoolEvent} (h : event ∈ prepared d connection) :
    event = .prepare connection PoolExecutor.quotesStatement := by
  unfold prepared at h
  split at h
  · exact List.mem_singleton.mp h
  · cases h

@[simp]
theorem taken_prepared (connection : Nat) : taken (prepared d connection) = [] := by
  unfold prepared
  split <;> rfl

@[simp]
theorem closed_prepared (connection : Nat) : closed (prepared d connection) = [] := by
  unfold prepared
  split <;> rfl

@[simp]
theorem statementsOn_prepared (connection other : Nat) :
    statementsOn other (prepared d connection) = [] := by
  unfold prepared
  split <;> rfl

/-! A connection is taken and made ready, and something else follows. -/

theorem taken_ready (own : Nat) (events : List PoolEvent) :
    taken (.connect next own :: (prepared d next ++ events)) = next :: taken events := by
  simp only [taken_cons, taken_append, taken_prepared]
  rfl

theorem closed_ready (own : Nat) (events : List PoolEvent) :
    closed (.connect next own :: (prepared d next ++ events)) = closed events := by
  simp only [closed_cons, closed_append, closed_prepared]
  rfl

theorem place_ready (own : Nat) {events : List PoolEvent}
    (h : ∀ event ∈ events, event.connection? = some next) :
    ∀ event ∈ PoolEvent.connect next own :: (prepared d next ++ events),
      event.connection? = some next := by
  intro event hevent
  rw [List.mem_cons, List.mem_append] at hevent
  obtain rfl | hprepared | hmore := hevent
  · rfl
  · rw [mem_prepared hprepared]
    rfl
  · exact h event hmore

/-- Making a connection ready executes no statement. -/
theorem execute_mem_ready {own connection : Nat} {statement : String} {values : Option Value}
    {ok : Bool} {events : List PoolEvent}
    (h : PoolEvent.execute connection statement values ok ∈
      PoolEvent.connect next own :: (prepared d next ++ events)) :
    PoolEvent.execute connection statement values ok ∈ events := by
  rw [List.mem_cons, List.mem_append] at h
  obtain heq | hprepared | hmore := h
  · cases heq
  · cases mem_prepared hprepared
  · exact hmore

theorem statementsOn_ready (own connection : Nat) (events : List PoolEvent) :
    statementsOn connection (.connect next own :: (prepared d next ++ events)) =
      statementsOn connection events := by
  have hready := statementsOn_prepared (d := d) next connection
  rw [statementsOn] at hready
  rw [statementsOn, List.filter_cons_of_neg Bool.false_ne_true, List.filter_append, hready,
    List.nil_append, statementsOn]

/-- A statement takes a connection of its own, is the only one on it, and closes it. -/
theorem balances_alone {sql : String} {params : Dict} {statement : String} {values : Option Value}
    {returned : Bool} {events : List PoolEvent}
    (h : SendsAlone d next statement values returned events) :
    Balances next none ⟨.execute sql params, returned, events⟩ := by
  obtain ⟨own, ended, rfl, hended⟩ := h
  have hshape : ∃ ok last, last.connection? = some next ∧ last.taken? = none ∧
      last.closed? = none ∧ last.runsOn next = false ∧
      ended = [.execute next statement values ok, last, .close next] := by
    obtain rfl | ⟨-, undone, rfl⟩ := hended
    · exact ⟨true, .commit next returned, rfl, rfl, rfl, rfl, rfl⟩
    · exact ⟨false, .rollback next undone, rfl, rfl, rfl, rfl, rfl⟩
  obtain ⟨ok, last, hconnection, htaken, hclosed, hruns, rfl⟩ := hshape
  have htakes : taken (.connect next own :: (prepared d next ++
      [.execute next statement values ok, last, .close next])) = [next] := by
    rw [taken_ready, taken_cons, taken_cons, htaken]
    rfl
  have hcloses : closed (.connect next own :: (prepared d next ++
      [.execute next statement values ok, last, .close next])) = [next] := by
    rw [closed_ready, closed_cons, closed_cons, hclosed]
    rfl
  have hstatements : statementsOn next [.execute next statement values ok, last, .close next] =
      [.execute next statement values ok] := by
    rw [statementsOn, List.filter_cons_of_pos (runsOn_self next statement values ok), List.filter_cons,
      hruns]
    rfl
  have hplace : ∀ event ∈ [.execute next statement values ok, last, .close next],
      event.connection? = some next := by
    simp only [List.forall_mem_cons]
    exact ⟨rfl, hconnection, rfl, List.forall_mem_nil _⟩
  refine ⟨?_, .inr htakes, fun event hevent => ⟨next, place_ready own hplace event hevent, htakes⟩,
    rfl, ?_⟩
  · rw [htakes, hcloses]
    rfl
  · intro _ connection statement' values' ok' hevent
    have hmem := execute_mem_ready hevent
    obtain rfl : connection = next := Option.some.inj (hplace _ hmem)
    have honly := List.mem_filter.mpr ⟨hmem, runsOn_self connection _ _ _⟩
    rw [← statementsOn, hstatements, List.mem_singleton] at honly
    exact ⟨htakes, hcloses, by rw [statementsOn_ready, hstatements, honly]⟩

/-- A beginning takes the connection of the transaction. -/
theorem balances_beginning (own : Nat) :
    Balances next none
      ⟨.begin, true, .connect next own :: (prepared d next ++ [.begin next])⟩ := by
  have htakes : taken (.connect next own :: (prepared d next ++ [.begin next])) = [next] :=
    taken_ready own _
  have hcloses : closed (.connect next own :: (prepared d next ++ [.begin next])) = [] :=
    closed_ready own _
  have hplace : ∀ event ∈ [PoolEvent.begin next], event.connection? = some next :=
    List.forall_mem_singleton.mpr rfl
  refine ⟨?_, .inr htakes, fun event hevent => ⟨next, place_ready own hplace event hevent, htakes⟩,
    ?_, ?_⟩
  · simp only [transactionAfter, htakes, hcloses]
    rfl
  · simp only [transactionAfter, htakes]
    rfl
  · intro _ connection statement values ok hevent
    cases List.mem_singleton.mp (execute_mem_ready hevent)

/-- A call that is refused does nothing. -/
theorem balances_refused {transaction : Option Nat} {call : ExecutorCall}
    (h : transactionAfter transaction ⟨call, false, []⟩ = transaction)
    (hopened : isOpenAfter transaction.isSome ⟨call, false, []⟩ = transaction.isSome) :
    Balances next transaction ⟨call, false, []⟩ where
  balance := by
    rw [h, taken_nil, closed_nil, List.append_nil, List.nil_append]
  next := .inl rfl
  place := List.forall_mem_nil _
  opened := by rw [h, hopened]
  alone _ _ _ _ _ hevent := absurd hevent List.not_mem_nil

/-- The end of a transaction closes its connection. -/
theorem balances_ending {call : ExecutorCall} {connection : Nat} {returned : Bool}
    {last : PoolEvent} (hconnection : last.connection? = some connection)
    (htaken : last.taken? = none) (hclosed : last.closed? = none)
    (h : ∀ transaction events, transactionAfter transaction ⟨call, returned, events⟩ = none)
    (hopened : ∀ isOpen events, isOpenAfter isOpen ⟨call, returned, events⟩ = false) :
    Balances next (some connection) ⟨call, returned, [last, .close connection]⟩ where
  balance := by
    simp only [h, closed_cons, taken_cons, hclosed, htaken]
    rfl
  next := by
    simp only [taken_cons, htaken]
    exact .inl rfl
  place := by
    have hone : [connection] ++ taken [last, .close connection] = [connection] := by
      simp only [taken_cons, htaken]
      rfl
    simp only [List.forall_mem_cons]
    exact ⟨⟨connection, hconnection, hone⟩, ⟨connection, rfl, hone⟩, List.forall_mem_nil _⟩
  opened := by rw [h, hopened]; rfl
  alone hnone := absurd hnone (Option.some_ne_none _)

theorem balances_of_fits {transaction : Option Nat} {e : PoolEntry} (h : e.Fits d next transaction) :
    Balances next transaction e := by
  obtain ⟨call, returned, events⟩ := e
  cases call with
  | execute sql params =>
      simp only [Fits] at h
      split at h
      · obtain ⟨rfl, rfl⟩ := h
        exact balances_refused rfl rfl
      · cases transaction with
        | none => exact balances_alone h
        | some connection =>
            simp only at h
            subst h
            refine ⟨rfl, .inl rfl, ?_, rfl, fun hnone => absurd hnone (Option.some_ne_none _)⟩
            simp only [List.forall_mem_cons]
            exact ⟨⟨connection, rfl, rfl⟩, List.forall_mem_nil _⟩
  | begin =>
      cases transaction with
      | some connection =>
          obtain ⟨rfl, rfl⟩ := h
          exact balances_refused rfl rfl
      | none =>
          obtain ⟨rfl, own, rfl⟩ := h
          exact balances_beginning own
  | commit =>
      cases transaction with
      | none =>
          obtain ⟨rfl, rfl⟩ := h
          exact balances_refused rfl rfl
      | some connection =>
          simp only [Fits] at h
          subst h
          exact balances_ending rfl rfl rfl (fun _ _ => rfl) fun _ _ => rfl
  | rollback =>
      cases transaction with
      | none =>
          obtain ⟨rfl, rfl⟩ := h
          exact balances_refused rfl rfl
      | some connection =>
          simp only [Fits] at h
          subst h
          exact balances_ending rfl rfl rfl (fun _ _ => rfl) fun _ _ => rfl

/-! Calls one after another. -/

theorem allFit_append {transaction : Option Nat} {before after : List PoolEntry} :
    AllFit d next transaction (before ++ after) ↔
      AllFit d next transaction before ∧
        AllFit d (next + (taken (record before)).length)
          (before.foldl transactionAfter transaction) after := by
  induction before generalizing next transaction with
  | nil => simp [AllFit, record]
  | cons e before ih =>
      simp only [List.cons_append, AllFit, ih, record, List.flatMap_cons, taken_append,
        List.length_append, List.foldl_cons, and_assoc, Nat.add_assoc]

/-- What is closed and what is in use in the end was in use at the beginning or was taken. -/
theorem balance_record {transaction : Option Nat} {entries : List PoolEntry}
    (h : AllFit d next transaction entries) :
    closed (record entries) ++ (entries.foldl transactionAfter transaction).toList =
      transaction.toList ++ taken (record entries) := by
  induction entries generalizing next transaction with
  | nil => exact (List.append_nil _).symm
  | cons e rest ih =>
      have hfirst := (balances_of_fits h.1).balance
      have hrest := ih h.2
      simp only [record, List.flatMap_cons, closed_append, taken_append, List.foldl_cons]
      calc closed e.events ++ closed (record rest) ++
            (rest.foldl transactionAfter (transactionAfter transaction e)).toList
          = closed e.events ++ ((transactionAfter transaction e).toList ++ taken (record rest)) := by
            rw [List.append_assoc, hrest]
        _ = transaction.toList ++ (taken e.events ++ taken (record rest)) := by
            rw [← List.append_assoc, hfirst, List.append_assoc]

/-- Connections are numbered one after another. -/
theorem taken_record {transaction : Option Nat} {entries : List PoolEntry}
    (h : AllFit d next transaction entries) :
    taken (record entries) = List.range' next (taken (record entries)).length := by
  induction entries generalizing next transaction with
  | nil => rfl
  | cons e rest ih =>
      have hrest := ih h.2
      simp only [record, List.flatMap_cons, taken_append, List.length_append]
      rw [← record]
      obtain hnone | hnext := (balances_of_fits h.1).next
      · rw [hnone] at hrest ⊢
        simpa using hrest
      · rw [hnext, List.length_singleton] at hrest
        rw [hnext, List.length_singleton, Nat.add_comm, List.range'_succ, ← hrest]
        rfl

/-- Every action is about the connection that was in use at the beginning, or about one that is
taken. -/
theorem connection?_record {transaction : Option Nat} {entries : List PoolEntry}
    (h : AllFit d next transaction entries) {event : PoolEvent} (hevent : event ∈ record entries) :
    ∃ connection, event.connection? = some connection ∧
      (transaction = some connection ∨ connection ∈ taken (record entries)) := by
  induction entries generalizing next transaction with
  | nil => cases hevent
  | cons e rest ih =>
      have hfirst := balances_of_fits h.1
      simp only [record, List.flatMap_cons, List.mem_append, taken_append] at hevent ⊢
      obtain hevent | hevent := hevent
      · obtain ⟨connection, hconnection, hone⟩ := hfirst.place event hevent
        have hmem : connection ∈ transaction.toList ++ taken e.events := by
          rw [hone]
          exact List.mem_singleton_self connection
        refine ⟨connection, hconnection, ?_⟩
        rw [List.mem_append, Option.mem_toList] at hmem
        exact hmem.imp id .inl
      · obtain ⟨connection, hconnection, hbefore | htaken⟩ := ih h.2 hevent
        · have hmem : connection ∈ transaction.toList ++ taken e.events := by
            rw [← hfirst.balance, List.mem_append, Option.mem_toList]
            exact .inr hbefore
          refine ⟨connection, hconnection, ?_⟩
          rw [List.mem_append, Option.mem_toList] at hmem
          exact hmem.imp id .inl
        · exact ⟨connection, hconnection, .inr (.inr htaken)⟩

theorem isSome_record {transaction : Option Nat} {entries : List PoolEntry}
    (h : AllFit d next transaction entries) :
    (entries.foldl transactionAfter transaction).isSome =
      entries.foldl isOpenAfter transaction.isSome := by
  induction entries generalizing next transaction with
  | nil => rfl
  | cons e rest ih =>
      rw [List.foldl_cons, List.foldl_cons, ih h.2, (balances_of_fits h.1).opened]

/-- The connections after some calls on a new executor: one is taken and not closed if a transaction is
open, that of the transaction, and none otherwise; every other one that was taken has been closed
once. -/
structure Balanced (entries : List PoolEntry) : Prop where
  count : (checkedOut (record entries)).length = if isOpen entries then 1 else 0
  held : checkedOut (record entries) = (transaction entries).toList
  closedOnce : ∀ connection, (closed (record entries)).count connection =
    if connection ∈ taken (record entries) ∧ transaction entries ≠ some connection then 1 else 0

/-- Where a call works among other calls: on the connection of the open transaction, or else on one of
its own, which it takes and closes, and on which no other statement is ever executed. -/
structure Placed (before : List PoolEntry) (e : PoolEntry) (after : List PoolEntry) : Prop where
  inside : ∀ connection, transaction before = some connection →
    ∀ event ∈ e.events, event.connection? = some connection
  outside : transaction before = none → ∀ connection statement values ok,
    .execute connection statement values ok ∈ e.events →
      taken e.events = [connection] ∧ closed e.events = [connection] ∧
        statementsOn connection (record (before ++ e :: after)) =
          [.execute connection statement values ok]

theorem balanced_of_allFit {entries : List PoolEntry} (h : AllFit d 0 none entries) :
    Balanced entries := by
  have hbalance : closed (record entries) ++ (transaction entries).toList =
      taken (record entries) := balance_record h
  have hnodup : (taken (record entries)).Nodup := by
    rw [taken_record h]
    exact List.nodup_range'
  have hheld := checkedOut_of_balance hbalance hnodup
  refine ⟨?_, hheld, count_closed_of_balance hbalance hnodup⟩
  have hopen : (transaction entries).isSome = isOpen entries := isSome_record h
  rw [hheld, ← hopen]
  cases transaction entries with
  | none => rfl
  | some connection => rfl

/-- Nothing is about a connection before it is taken. -/
theorem elsewhere_before {entries : List PoolEntry} (h : AllFit d 0 none entries) :
    ∀ event ∈ record entries, event.connection? ≠ some (taken (record entries)).length := by
  intro event hevent heq
  obtain ⟨connection, hconnection, hnone | htaken⟩ := connection?_record h hevent
  · cases hnone
  · cases hconnection.symm.trans heq
    rw [taken_record h, List.mem_range'_1, List.length_range'] at htaken
    omega

/-- Outside a transaction nothing is about a connection that was taken earlier. -/
theorem elsewhere_after {entries : List PoolEntry} (h : AllFit d next none entries)
    {connection : Nat} (hearlier : connection < next) :
    ∀ event ∈ record entries, event.connection? ≠ some connection := by
  intro event hevent heq
  obtain ⟨other, hother, hnone | htaken⟩ := connection?_record h hevent
  · cases hnone
  · cases hother.symm.trans heq
    rw [taken_record h, List.mem_range'_1] at htaken
    omega

/-- A statement on a connection of its own is the only one that is ever executed on it. -/
theorem alone_of_allFit {before after : List PoolEntry} {e : PoolEntry}
    (h : AllFit d 0 none (before ++ e :: after)) (htransaction : transaction before = none)
    {connection : Nat} {statement : String} {values : Option Value} {ok : Bool}
    (hevent : .execute connection statement values ok ∈ e.events) :
    taken e.events = [connection] ∧ closed e.events = [connection] ∧
      statementsOn connection (record (before ++ e :: after)) =
        [.execute connection statement values ok] := by
  obtain ⟨hbefore, hfits, hafter⟩ := allFit_append.mp h
  rw [← transaction, htransaction, Nat.zero_add] at hfits hafter
  have hstep := balances_of_fits hfits
  obtain ⟨htaken, hclosed, hstatements⟩ := hstep.alone rfl _ _ _ _ hevent
  have hnumber : connection = (taken (record before)).length := by
    obtain hnone | hnext := hstep.next
    · cases htaken.symm.trans hnone
    · exact List.singleton_inj.mp (htaken.symm.trans hnext)
  have hended : transactionAfter none e = none := by
    have hbalance := hstep.balance
    rw [htaken, hclosed] at hbalance
    cases hopen : transactionAfter none e with
    | none => rfl
    | some other =>
        rw [hopen] at hbalance
        cases hbalance
  rw [hended, htaken, hnumber] at hafter
  have hearlier : statementsOn connection (record before) = [] := by
    rw [hnumber]
    exact statementsOn_of_elsewhere (elsewhere_before hbefore)
  have hlater : statementsOn connection (record after) = [] := by
    rw [hnumber]
    exact statementsOn_of_elsewhere (elsewhere_after hafter (Nat.lt_succ_self _))
  refine ⟨htaken, hclosed, ?_⟩
  calc statementsOn connection (record (before ++ e :: after))
      = statementsOn connection (record before) ++
          (statementsOn connection e.events ++ statementsOn connection (record after)) := by
        simp only [record, List.flatMap_append, List.flatMap_cons, statementsOn,
          List.filter_append]
    _ = [.execute connection statement values ok] := by
        rw [hearlier, hlater, hstatements]
        rfl

theorem placed_of_allFit {before after : List PoolEntry} {e : PoolEntry}
    (h : AllFit d 0 none (before ++ e :: after)) : Placed before e after := by
  refine ⟨fun connection htransaction event hevent => ?_,
    fun htransaction _ _ _ _ hevent => alone_of_allFit h htransaction hevent⟩
  obtain ⟨-, hfits, -⟩ := allFit_append.mp h
  rw [← transaction, htransaction] at hfits
  obtain ⟨other, hother, hone⟩ := (balances_of_fits hfits).place event hevent
  obtain ⟨rfl, -⟩ := List.cons.inj hone
  exact hother

end PoolEntry

/-! Runs. -/

namespace Pool

open PoolEntry PoolExecutor

variable (p : Pool σ) (d : PoolDialect)

/-- A call on a pool that is recorded: whether it returns, and the state it leaves. -/
def callFrom (call : ExecutorCall) (u : Recorded σ) : Bool × Recorded σ :=
  let (result, v) := (ExceptT.run (call.step (p.recorded.executor d))).run u
  (result.isOk, v)

/-- Makes calls one after another, whether they fail or not. Each entry holds what its call has added to
the record. -/
def entriesFrom (u : Recorded σ) : List ExecutorCall → List PoolEntry × Recorded σ
  | [] => ([], u)
  | call :: rest =>
      let (returned, v) := p.callFrom d call u
      let (entries, last) := entriesFrom v rest
      (⟨call, returned, v.1.2.drop u.1.2.length⟩ :: entries, last)

/-- The entries make up what is added to the record, and each of them is as its kind asks. -/
theorem entriesFrom_fit (calls : List ExecutorCall) (u : Recorded σ) :
    (p.entriesFrom d u calls).1.map PoolEntry.call = calls ∧
      (p.entriesFrom d u calls).2.1.2 = u.1.2 ++ record (p.entriesFrom d u calls).1 ∧
      AllFit d (PoolEvent.taken u.1.2).length (transactionOf u) (p.entriesFrom d u calls).1 := by
  induction calls generalizing u with
  | nil => exact ⟨rfl, (List.append_nil _).symm, trivial⟩
  | cons call rest ih =>
      obtain ⟨result, v, events, hrun, hrecord, hfits, hopen⟩ := sends_call p d call (u := u)
      obtain ⟨hcalls, hrest, hmore⟩ := ih v
      have hcall : p.callFrom d call u = (result.isOk, v) := by
        rw [callFrom, hrun]
      have hadded : v.1.2.drop u.1.2.length = events := by
        rw [hrecord, List.drop_left]
      simp only [entriesFrom, hcall, hadded]
      refine ⟨?_, ?_, hfits, ?_⟩
      · rw [List.map_cons, hcalls]
      · rw [hrest, hrecord, record, record, List.flatMap_cons, List.append_assoc]
      · rw [← hopen, ← List.length_append, ← PoolEvent.taken_append, ← hrecord]
        exact hmore

/-- For every pool and dialect, whatever fails on the connections, and every sequence of calls on a new
executor: what is done with the pool is, call by call, what the kind of the call does. After every call
as many connections are taken and not closed as transactions are open, one or none, and every connection
whose transaction or statement has ended was closed exactly once. A statement in a transaction runs on
the connection of the transaction; every other one runs on a connection that is taken for it, on which
nothing else runs and which is closed with it. -/
theorem connections_balanced (s : σ) (calls : List ExecutorCall) :
    let made := p.entriesFrom d ((s, []), none) calls
    made.1.map PoolEntry.call = calls ∧
      made.2.1.2 = record made.1 ∧
      AllFit d 0 none made.1 ∧
      (∀ before after, made.1 = before ++ after → Balanced before) ∧
      ∀ before e after, made.1 = before ++ e :: after → Placed before e after := by
  intro made
  obtain ⟨hcalls, hrecord, hfit⟩ := p.entriesFrom_fit d calls ((s, []), none)
  refine ⟨hcalls, hrecord, hfit, fun before after heq => ?_, fun before e after heq => ?_⟩
  · have hall : AllFit d 0 none (before ++ after) := heq ▸ hfit
    exact balanced_of_allFit (allFit_append.mp hall).1
  · have hall : AllFit d 0 none (before ++ e :: after) := heq ▸ hfit
    exact placed_of_allFit hall

end Pool

end QueryLoom
