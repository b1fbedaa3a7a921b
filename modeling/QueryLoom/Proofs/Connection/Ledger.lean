import QueryLoom.Proofs.Connection.Trace

/-!
Which statements become durable. A statement that was executed is pending until the connection is
committed or rolled back, and all pending statements share their fate. A statement outside a
transaction is committed alone, unless the last end that the connection was sent has failed and left
statements pending: the executor takes a transaction for ended even if its commit fails, and does not
roll it back.
-/

namespace QueryLoom

/-- The statements that were executed on a connection. -/
structure Ledger where
  /-- Those that the next commit makes durable. -/
  pending : List (String × Value)
  durable : List (String × Value)
  /-- Whether the last commit or rollback failed. -/
  endFailed : Bool

namespace Ledger

def record (l : Ledger) : ConnectionEvent → Ledger
  | .execute statement values true => { l with pending := l.pending ++ [(statement, values)] }
  | .execute _ _ false | .closeCursor => l
  | .commit true => ⟨[], l.durable ++ l.pending, false⟩
  | .rollback true => ⟨[], l.durable, false⟩
  | .commit false | .rollback false => { l with endFailed := true }
  | .close => { l with pending := [] }

/-- The ledger of a connection after some events. -/
def of (trace : List ConnectionEvent) : Ledger := trace.foldl record ⟨[], [], false⟩

theorem of_append (trace events : List ConnectionEvent) :
    of (trace ++ events) = events.foldl record (of trace) :=
  List.foldl_append

/-- Nothing is pending, unless a transaction is open or the last end failed. -/
def Settled (l : Ledger) (isOpen : Bool) : Prop :=
  isOpen = false → l.endFailed = false → l.pending = []

/-- A step settles what it leaves outside a transaction. -/
theorem settled_step {l : Ledger} {events : List ConnectionEvent} {before after : Bool}
    (h : l.Settled before) (hstep : ConnectionStep before events after) :
    (events.foldl record l).Settled after := by
  intro hafter hended
  cases hstep with
  | inside => cases hafter
  | committed => rfl
  | uncommitted statement values ok =>
      cases ok with
      | true => rfl
      | false => cases hended
  | failed statement values executed ok =>
      cases ok with
      | true => rfl
      | false => cases hended
  | begin => cases hafter
  | commit ok =>
      cases ok with
      | true => rfl
      | false => cases hended
  | rollback ok =>
      cases ok with
      | true => rfl
      | false => cases hended
  | refused => exact h hafter hended

end Ledger

namespace ConnectionStep

variable {first last ok : Bool} {statement : String} {values : Value}

/-- A step starts with its statement, if it has one. -/
theorem execute_first {event : ConnectionEvent} {rest : List ConnectionEvent}
    (h : ConnectionStep first (event :: rest) last) : .execute statement values ok ∉ rest := by
  cases h <;> simp

theorem own_commit {rest : List ConnectionEvent}
    (h : ConnectionStep first (.execute statement values true :: .commit ok :: rest) last) :
    first = false ∧ (ok = false → ∃ undone more, rest = .rollback undone :: more) := by
  cases h with
  | committed => exact ⟨rfl, fun hok => by cases hok⟩
  | uncommitted _ _ undone => exact ⟨rfl, fun _ => ⟨undone, _, rfl⟩⟩

end ConnectionStep

namespace ConnectionTrace

open Ledger

variable {trace before after : List ConnectionEvent} {isOpen : Bool} {statement : String}
  {values : Value}

/-- The ledger is settled after any steps. -/
theorem settled (h : ConnectionTrace trace isOpen) : (Ledger.of trace).Settled isOpen := by
  induction h with
  | start => exact fun _ _ => rfl
  | step _ hstep ih =>
      rw [of_append]
      exact settled_step ih hstep

/-- A statement does not stand at the end of a record: its cursor is closed afterwards. -/
theorem getLast?_ne_execute (h : ConnectionTrace trace isOpen) (ok : Bool) :
    trace.getLast? ≠ some (.execute statement values ok) := by
  induction h with
  | start => simp
  | step _ hstep ih =>
      rw [List.getLast?_append]
      cases hstep with
      | begin => exact ih
      | refused => exact ih
      | _ => simp

/-- A commit directly after a statement is the statement's own: it finds no transaction open, and is
followed by a rollback if it fails. -/
theorem own_commit (h : ConnectionTrace trace isOpen) {ok : Bool}
    (hsplit : trace = before ++ .execute statement values true :: .commit ok :: after) :
    ConnectionTrace before false ∧
      (ok = false → ∃ undone rest, after = .rollback undone :: rest) := by
  induction h generalizing after with
  | start => simp at hsplit
  | @step trace events _ _ h hstep ih =>
      -- The two events stand in the last step, or before it; they are not parted by its beginning.
      rcases List.append_eq_append_iff.mp hsplit with ⟨early, rfl, rfl⟩ | ⟨late, rfl, hlate⟩
      · cases early with
        | nil =>
            obtain ⟨rfl, hundone⟩ := hstep.own_commit
            exact ⟨by simpa using h, hundone⟩
        | cons first early =>
            have hmem : .execute statement values true ∈
                early ++ .execute statement values true :: .commit ok :: after := by simp
            exact absurd hmem hstep.execute_first
      · rcases List.append_eq_cons_iff.mp hlate.symm with ⟨rfl, rfl⟩ | ⟨late, rfl, htail⟩
        · obtain ⟨rfl, hundone⟩ := hstep.own_commit
          exact ⟨by simpa using h, hundone⟩
        rcases List.append_eq_cons_iff.mp htail.symm with ⟨rfl, rfl⟩ | ⟨late, rfl, rfl⟩
        · exact absurd List.getLast?_concat (h.getLast?_ne_execute true)
        · obtain ⟨hbefore, hundone⟩ := ih rfl
          refine ⟨hbefore, fun hfailed => ?_⟩
          obtain ⟨undone, rest, rfl⟩ := hundone hfailed
          exact ⟨undone, rest ++ events, rfl⟩

end ConnectionTrace

namespace Connection

open Ledger

variable {σ α : Type}

/-- Whatever a program on a database does and wherever the driver fails: a statement's own commit makes
that statement durable and no other, unless the last commit or rollback before it failed; and if it
fails, the next thing the connection is sent is a rollback. -/
theorem own_commit_makes_durable (c : Connection σ) (style : ParamStyle) (backslash : Bool)
    (config : Config) (dialect : Dialect) (nesting : Nat) (driver : σ)
    {program : Action (ConnectionState (σ × List ConnectionEvent)) Unit α}
    (h : (c.recordedDatabase style backslash config dialect nesting).Composed program) :
    (∀ before statement values after,
      trace driver program = before ++ .execute statement values true :: .commit true :: after →
      (Ledger.of before).endFailed = false →
      (Ledger.of (before ++ [.execute statement values true, .commit true])).durable =
        (Ledger.of before).durable ++ [(statement, values)]) ∧
    ∀ before statement values after,
      trace driver program = before ++ .execute statement values true :: .commit false :: after →
      ∃ undone rest, after = .rollback undone :: rest := by
  obtain ⟨isOpen, htrace⟩ := c.trace_of_composed style backslash config dialect nesting driver h
  constructor
  · intro before statement values after hsplit hended
    have hpending : (Ledger.of before).pending = [] :=
      (htrace.own_commit hsplit).1.settled rfl hended
    rw [of_append]
    simp [record, hpending]
  · intro before statement values after hsplit
    exact (htrace.own_commit hsplit).2 rfl

/-- A connection that refuses the given number of commits. -/
def locked : Connection Nat where
  execute _ _ := return .ok ⟨none, .ok [], some 1, .null⟩
  closeCursor := return ()
  commit := modifyGet fun
    | 0 => (.ok (), 0)
    | n + 1 => (.error "database is locked", n)
  rollback := return .ok ()
  close := return ()

def lockedDatabase : Database (ConnectionState (Nat × List ConnectionEvent)) Unit :=
  locked.recordedDatabase .qmark false ⟨"sqlite", "", false, 1000⟩ .sqlite Json.usualNesting

/-- What is recorded when calls are made one after another, whether they fail or not, and the first
commit is refused. -/
def lockedTrace (calls : List Call) : List ConnectionEvent :=
  trace 1 (Database.runAll (Call.actions lockedDatabase calls))

/-- A transaction whose commit is refused. -/
def refusedTransaction : List Call :=
  [.method .begin [] [], .method .execute [.str "UPDATE accounts SET sum = 0"] [],
    .method .commit [] []]

def insertion : Call := .method .execute [.str "INSERT INTO notes VALUES (1)"] []

/-- A transaction whose commit is refused, an empty one that is rolled back, and a statement: its
commit does not make the first transaction durable. -/
theorem own_commit_makes_durable_of_rollback :
    let before : List ConnectionEvent :=
      [.execute "UPDATE accounts SET sum = 0" (.list []) true, .closeCursor, .commit false,
        .rollback true]
    let own : List ConnectionEvent :=
      [.execute "INSERT INTO notes VALUES (1)" (.list []) true, .commit true]
    lockedTrace (refusedTransaction ++
        [.method .begin [] [], .method .rollback [] [], insertion]) =
          before ++ own ++ [.closeCursor] ∧
      (Ledger.of before).endFailed = false ∧
      (Ledger.of (before ++ own)).durable = [("INSERT INTO notes VALUES (1)", .list [])] := by
  intro before own
  have htrace : lockedTrace (refusedTransaction ++
      [.method .begin [] [], .method .rollback [] [], insertion]) =
        before ++ own ++ [.closeCursor] := by
    with_unfolding_all rfl
  have hcomposed := Database.Composed.runAll (Call.composed_actions lockedDatabase
    (refusedTransaction ++ [.method .begin [] [], .method .rollback [] [], insertion]))
  exact ⟨htrace, rfl, (locked.own_commit_makes_durable .qmark false _ .sqlite _ 1 hcomposed).1
    before _ _ [.closeCursor] htrace rfl⟩

/-- A transaction whose commit is refused, and a statement: the connection is sent no rollback in
between, and the commit of the statement makes the transaction durable. -/
theorem refused_transaction_made_durable :
    lockedTrace (refusedTransaction ++ [insertion]) =
      [.execute "UPDATE accounts SET sum = 0" (.list []) true, .closeCursor, .commit false,
        .execute "INSERT INTO notes VALUES (1)" (.list []) true, .commit true, .closeCursor] ∧
    (Ledger.of (lockedTrace (refusedTransaction ++ [insertion]))).durable =
      [("UPDATE accounts SET sum = 0", .list []), ("INSERT INTO notes VALUES (1)", .list [])] := by
  have htrace : lockedTrace (refusedTransaction ++ [insertion]) =
      [.execute "UPDATE accounts SET sum = 0" (.list []) true, .closeCursor, .commit false,
        .execute "INSERT INTO notes VALUES (1)" (.list []) true, .commit true, .closeCursor] := by
    with_unfolding_all rfl
  rw [htrace]
  exact ⟨rfl, rfl⟩

end Connection

end QueryLoom
