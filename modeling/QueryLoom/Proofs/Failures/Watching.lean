import QueryLoom.Execution.Connection
import QueryLoom.Execution.Pool
import QueryLoom.Proofs.Runs.Records

/-!
What executors make of the failures of their driver. The failures are recorded while they happen, and a
step of an executor ends in a fault if it has added one to the record. A failed statement is rolled
back, which may fail in turn, so that a statement adds two failures at most; the fault it ends in is
made of the last one. An end of a transaction passes the failure of the driver on as it is.
-/

namespace QueryLoom

variable {σ τ α : Type}

/-- Where a driver fails: while a statement is executed and its rows are fetched, or at an end. -/
inductive DriverPoint
  | statement | commit | rollback
deriving DecidableEq, Repr

structure DriverFailure where
  point : DriverPoint
  /-- Whether it is no error of the database, but one from elsewhere. -/
  foreign : Bool
  message : String
deriving DecidableEq, Repr

namespace DriverFailure

/-- The fault that a statement ends in. Some failures are passed on bare, as the driver raised them;
any other becomes a fault of execution that carries the message and the statement. -/
def seen (bare : DriverFailure → Bool) (sql : String) (d : DriverFailure) : Fault :=
  if bare d then .driver d.message else .execution d.message (some sql)

/-- The failures of a statement that failed, and the last of them: there is one, or a second one on the
way back. -/
inductive Fails : List DriverFailure → DriverFailure → Prop
  | once {d : DriverFailure} (h : d.point ≠ .rollback) : Fails [d] d
  | undoing {first d : DriverFailure} (hfirst : first.point ≠ .rollback)
      (h : d.point = .rollback) : Fails [first, d] d

/-- What an end of a transaction ends in, by the failures that it has added. -/
def Ended (point : DriverPoint) (result : Except Fault α) (added : List DriverFailure) : Prop :=
  added = [] ∨ ∃ d, d.point = point ∧ added = [d] ∧ result = .error (.driver d.message)

end DriverFailure

open DriverFailure

/-- An action of a driver of which the failures are recorded. -/
def watching (action : StateM σ α) (failure? : α → Option DriverFailure) :
    StateM (σ × List DriverFailure) α := fun (s, failures) =>
  let (a, s) := action.run s
  (a, (s, failures ++ (failure? a).toList))

/-! The executor on a connection. -/

namespace ConnectionExecutor

/-- The failure at an end. -/
def failureAt? (point : DriverPoint) : Except String Unit → Option DriverFailure
  | .ok _ => none
  | .error message => some ⟨point, false, message⟩

/-- The failure of a statement. The rows of a query are fetched as soon as it is executed. -/
def statementFailure? : Except String CursorReply → Option DriverFailure
  | .error message => some ⟨.statement, false, message⟩
  | .ok reply =>
      match fetchRows reply with
      | .error message => some ⟨.statement, false, message⟩
      | .ok _ => none

end ConnectionExecutor

open ConnectionExecutor in
/-- A connection that records the failures of its driver. -/
def Connection.watched (c : Connection σ) : Connection (σ × List DriverFailure) where
  execute statement values := watching (c.execute statement values) statementFailure?
  closeCursor := watching c.closeCursor fun _ => none
  commit := watching c.commit (failureAt? .commit)
  rollback := watching c.rollback (failureAt? .rollback)
  close := watching c.close fun _ => none

namespace ConnectionExecutor

abbrev Watched (σ : Type) := State (σ × List DriverFailure)

def failures (s : Watched σ) : List DriverFailure := s.driver.2

/-- A connection passes on the failures of rolling back as they are. -/
def bare (d : DriverFailure) : Bool := d.point == .rollback

abbrev Fails (step : Step (Watched σ) Unit α) (u : Watched σ × Unit)
    (Q : Except Fault α → List DriverFailure → Watched σ × Unit → Prop) : Prop :=
  Step.Adds failures step u Q

variable {u : Watched σ × Unit}

theorem fails_drive (action : StateM σ α) (failure? : α → Option DriverFailure) :
    Fails (drive (watching action failure?)) u fun result added v =>
      ∃ a, result = .ok a ∧ added = (failure? a).toList ∧
        v.1.inTransaction = u.1.inTransaction :=
  .shared rfl rfl ⟨_, rfl, rfl, rfl⟩

theorem fails_driveOrFail (action : StateM σ (Except String Unit)) (point : DriverPoint) :
    Fails (driveOrFail (watching action (failureAt? point))) u fun result added _ =>
      (result = .ok () ∧ added = []) ∨ ∃ message,
        result = .error (.driver message) ∧ added = [⟨point, false, message⟩] := by
  refine (fails_drive action _).bind ?_ ?_
  · rintro ended added v - ⟨_, heq, rfl, -⟩
    cases heq
    cases ended with
    | ok _ => exact .pure (.inl ⟨rfl, rfl⟩)
    | error message => exact .throw (.inr ⟨message, rfl, rfl⟩)
  · rintro f added v ⟨_, heq, -⟩
    cases heq

theorem fails_inTransaction : Fails inTransaction u fun result added v =>
    result = .ok u.1.inTransaction ∧ added = [] ∧ v = u :=
  .pure ⟨rfl, rfl, rfl⟩

theorem fails_finish (action : StateM σ (Except String Unit)) (point : DriverPoint) :
    Fails (finish (watching action (failureAt? point))) u fun result added _ =>
      Ended point result added := by
  refine fails_inTransaction.bind ?_ ?_
  · rintro isOpen _ _ - ⟨-, rfl, rfl⟩
    cases isOpen with
    | false => exact .throw (.inl rfl)
    | true =>
        refine (fails_driveOrFail action point).andFinally ?_
        rintro result added v - hended
        refine ⟨.ok (), _, [], rfl, (List.append_nil _).symm, rfl, ?_⟩
        rw [List.append_nil]
        obtain ⟨rfl, rfl⟩ | ⟨message, rfl, rfl⟩ := hended
        · exact .inl rfl
        · exact .inr ⟨_, rfl, rfl, rfl⟩
  · rintro f _ _ ⟨heq, -⟩
    cases heq

end ConnectionExecutor

/-! The executor on a pool. -/

def PoolFailure.at (point : DriverPoint) : PoolFailure → DriverFailure
  | .database message => ⟨point, false, message⟩
  | .foreign message => ⟨point, true, message⟩

namespace PoolExecutor

def failureAt? (point : DriverPoint) : Except PoolFailure α → Option DriverFailure
  | .ok _ => none
  | .error failure => some (failure.at point)

end PoolExecutor

open PoolExecutor in
/-- A pool that records the failures on its connections. -/
def Pool.watched (p : Pool σ) : Pool (σ × List DriverFailure) where
  connect := watching p.connect fun _ => none
  prepare connection statement := watching (p.prepare connection statement) fun _ => none
  begin connection := watching (p.begin connection) fun _ => none
  execute connection statement values :=
    watching (p.execute connection statement values) (failureAt? .statement)
  commit connection := watching (p.commit connection) (failureAt? .commit)
  rollback connection := watching (p.rollback connection) (failureAt? .rollback)
  close connection := watching (p.close connection) fun _ => none
  dispose := watching p.dispose fun _ => none

namespace PoolExecutor

/-- A pool passes on the failures from elsewhere as they are. -/
def bare (d : DriverFailure) : Bool := d.foreign

abbrev Fails (step : PoolStep (σ × List DriverFailure) α) (u : (σ × List DriverFailure) × Option Nat)
    (Q : Except Fault α → List DriverFailure → (σ × List DriverFailure) × Option Nat → Prop) : Prop :=
  Step.Adds Prod.snd step u Q

variable {u : (σ × List DriverFailure) × Option Nat}

theorem fails_shared (action : StateM σ α) (failure? : α → Option DriverFailure) :
    Fails (Step.shared (watching action failure?)) u fun result added _ =>
      ∃ a, result = .ok a ∧ added = (failure? a).toList :=
  .shared rfl rfl ⟨_, rfl, rfl⟩

/-- An action that cannot fail. -/
theorem fails_quiet (action : StateM σ α) :
    Fails (Step.shared (watching action fun _ => none)) u fun result added _ =>
      (∃ a, result = .ok a) ∧ added = [] :=
  .shared rfl rfl ⟨⟨_, rfl⟩, rfl⟩

/-- Failures at a point are passed on as faults. -/
structure Passes (point : DriverPoint)
    (pass : Except PoolFailure α → PoolStep (σ × List DriverFailure) α)
    (fault : DriverFailure → Fault) : Prop where
  ok (a : α) : pass (.ok a) = pure a
  error (failure : PoolFailure) : pass (.error failure) = throw (fault (failure.at point))

theorem passes_orRaise (point : DriverPoint) :
    Passes point (orRaise : Except PoolFailure α → PoolStep (σ × List DriverFailure) α)
      (fun d => .driver d.message) where
  ok _ := rfl
  error failure := by cases failure <;> rfl

variable {point : DriverPoint}

/-- An action whose failure becomes a fault. -/
theorem fails_passed (action : StateM σ (Except PoolFailure α))
    {pass : Except PoolFailure α → PoolStep (σ × List DriverFailure) α}
    {fault : DriverFailure → Fault} (hpass : Passes point pass fault) :
    Fails (do pass (← Step.shared (watching action (failureAt? point)))) u fun result added _ =>
      ((∃ a, result = .ok a) ∧ added = []) ∨
        ∃ d, d.point = point ∧ added = [d] ∧ result = .error (fault d) := by
  refine (fails_shared action _).bind ?_ ?_
  · rintro ended added v - ⟨_, heq, rfl⟩
    cases heq
    cases ended with
    | ok a =>
        rw [hpass.ok]
        exact .pure (.inl ⟨⟨a, rfl⟩, rfl⟩)
    | error failure =>
        rw [hpass.error]
        refine .throw (.inr ⟨failure.at point, ?_, rfl, rfl⟩)
        cases failure <;> rfl
  · rintro f added v ⟨_, heq, -⟩
    cases heq

/-- An action that ends the use of a connection, and the closing of the connection. -/
theorem fails_ending (p : Pool σ) (own : Nat) (action : StateM σ (Except PoolFailure Unit))
    {pass : Except PoolFailure Unit → PoolStep (σ × List DriverFailure) Unit}
    {fault : DriverFailure → Fault} (hpass : Passes point pass fault) :
    Fails (Step.andFinally (do pass (← Step.shared (watching action (failureAt? point))))
      (Step.shared (p.watched.close own))) u fun result added _ =>
        (result = .ok () ∧ added = []) ∨
          ∃ d, d.point = point ∧ added = [d] ∧ result = .error (fault d) := by
  refine (fails_passed action hpass).andFinally ?_
  rintro result added v - hresult
  refine (fails_quiet (p.close own)).mono ?_
  rintro ended _ w - ⟨⟨_, rfl⟩, rfl⟩
  rw [List.append_nil]
  refine ⟨rfl, hresult.imp_left ?_⟩
  rintro ⟨⟨_, rfl⟩, rfl⟩
  exact ⟨rfl, rfl⟩

theorem fails_finish (p : Pool σ) (action : Nat → StateM σ (Except PoolFailure Unit))
    (point : DriverPoint) :
    Fails (finish p.watched fun own => watching (action own) (failureAt? point)) u
      fun result added _ => Ended point result added := by
  obtain ⟨s, part⟩ := u
  cases part with
  | none => exact .throw (.inl rfl)
  | some own =>
      have hends := fails_ending (u := (s, none)) p own (action own) (passes_orRaise point)
      refine hends.mono ?_
      rintro result added v - (⟨-, rfl⟩ | ⟨d, hpoint, rfl, rfl⟩)
      · exact .inl rfl
      · exact .inr ⟨d, hpoint, rfl, rfl⟩

end PoolExecutor

/-! Both executors. -/

/-- The executors that come with a database, on drivers whose failures are recorded, and which failures
of a statement each of them passes on bare. -/
inductive Executor.Watched : {σ τ : Type} → Executor σ τ → (σ → List DriverFailure) →
    (DriverFailure → Bool) → Prop
  | connection {σ : Type} (c : Connection σ) (style : ParamStyle) (backslash : Bool) :
      Watched (c.watched.executor style backslash) ConnectionExecutor.failures
        ConnectionExecutor.bare
  | pool {σ : Type} (p : Pool σ) (d : PoolDialect) :
      Watched (p.watched.executor d) Prod.snd PoolExecutor.bare

end QueryLoom
