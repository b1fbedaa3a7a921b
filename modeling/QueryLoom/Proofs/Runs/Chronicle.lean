import Mathlib.Data.List.DropRight
import QueryLoom.Proofs.Runs.Keeping
import QueryLoom.Proofs.Statement.Call
import QueryLoom.Proofs.Statement.RawFree

/-!
What a database tells of its statements. A clerk looks on while calls are made: the clerk knows where
the counter stands, whether a dry run is pending and what state the executor is in, and writes down
what becomes of each call. The log, the last statement, the last error and the last row identifier that
the database tells are those of what the clerk has written down, and the executor is asked for nothing
else.
-/

namespace QueryLoom

variable {σ τ α β : Type}

/-! Calls, and what becomes of them. -/

/-- The methods that issue one statement at most. A text is executed by a call of its own. -/
def Method.isSingle : Method → Bool
  | .execute | .parallelSelect => false
  | _ => true

/-- A call on a database that issues one statement at most. -/
inductive SingleCall
  | method (m : Method) (args : List Value) (named : List (String × Value))
      (single : m.isSingle = true)
  | execute (sql : String) (params : Value)

def SingleCall.action (db : Database σ τ) : SingleCall → Action σ τ Reply
  | .method m args named _ => db.call m args named
  | .execute sql params => db.call .execute [.str sql, params] []

/-- The beginning or an end of a transaction. -/
inductive Boundary
  | begin | commit | rollback

def Boundary.step (e : Executor σ τ) : Boundary → Step σ τ Unit
  | .begin => e.begin
  | .commit => e.commit
  | .rollback => e.rollback

/-- A statement that reached execution with no dry run pending, and what came of it. -/
structure Issue where
  sql : String
  params : Dict
  inserting : Bool
  outcome : Except Fault ExecutionResult

/-- The execution error that an issued statement raised. -/
def Issue.fault? (i : Issue) : Option Fault :=
  match i.outcome with
  | .error (.execution message sql) => some (.execution message sql)
  | _ => none

theorem Issue.fault?_of_other {i : Issue} {f : Fault} (hended : i.outcome = .error f)
    (hother : ∀ message sql, f ≠ .execution message sql) : i.fault? = none := by
  rw [Issue.fault?, hended]
  cases f with
  | execution message sql => exact absurd rfl (hother message sql)
  | _ => rfl

/-- The row identifier of an insertion that was executed. -/
def Issue.insertId? (i : Issue) : Option Value :=
  match i.outcome with
  | .ok r => if i.inserting then some r.lastId else none
  | .error _ => none

/-- What becomes of a call. -/
inductive Happening
  /-- It is refused before a statement of it reaches execution. -/
  | refused (f : Fault)
  /-- It has no statement. -/
  | quiet
  /-- It asks for a dry run. -/
  | asked
  | boundary (b : Boundary)
  /-- Its statement is shown in a dry run. -/
  | diverted (sql : String) (params : Dict)
  | issued (i : Issue)

namespace Happening

def issue? : Happening → Option Issue
  | .issued i => some i
  | _ => none

/-- Whether a statement reached execution. -/
def reaches : Happening → Bool
  | .diverted _ _ | .issued _ => true
  | _ => false

def isDiverted : Happening → Bool
  | .diverted _ _ => true
  | _ => false

/-- A dry run was asked for, and no statement has reached execution since. -/
def AskedLast (happened : List Happening) : Prop :=
  ∃ earlier later, happened = earlier ++ .asked :: later ∧ ∀ h ∈ later, h.reaches = false

/-- Whether a dry run is pending afterwards. -/
def leavesPending (pending : Bool) : Happening → Bool
  | .asked => true
  | .diverted _ _ | .issued _ => false
  | .refused _ | .quiet | .boundary _ => pending

/-- A statement that reaches execution is diverted just if a dry run is pending. -/
def Heeds (pending : Bool) (h : Happening) : Prop :=
  h.reaches = true → h.isDiverted = pending

/-- What the executor is asked for. -/
def onExecutor (db : Database σ τ) (h : Happening) (state : σ × τ) : σ × τ :=
  match h, db.executor with
  | .issued i, some e => ((ExceptT.run (e.execute i.sql i.params)).run state).2
  | .boundary b, some e => ((ExceptT.run (b.step e)).run state).2
  | _, _ => state

/-- How the call ends. What a result is made into is not said. -/
def Ends (db : Database σ τ) (reply : Except Fault Reply) : Happening → Prop
  | .refused f => reply = .error f
  | .diverted sql params => reply = (db.generate sql params).map fun text => .value (.str text)
  | .issued i => ∀ f, i.outcome = .error f → reply = .error f
  | .quiet | .asked | .boundary _ => True

theorem heeds_of_not_reaches {pending : Bool} {h : Happening} (hreaches : h.reaches = false) :
    h.Heeds pending := by
  intro htrue
  rw [hreaches] at htrue
  cases htrue

theorem askedLast_concat (happened : List Happening) (h : Happening) :
    AskedLast (happened ++ [h]) ↔ h = .asked ∨ h.reaches = false ∧ AskedLast happened := by
  constructor
  · rintro ⟨earlier, later, heq, hlater⟩
    rcases List.eq_nil_or_concat later with rfl | ⟨init, last, rfl⟩
    · obtain ⟨-, hlast⟩ := List.append_inj' heq rfl
      exact .inl (List.singleton_inj.mp hlast)
    · rw [List.concat_eq_append, ← List.cons_append, ← List.append_assoc] at heq
      obtain ⟨rfl, hlast⟩ := List.append_inj' heq rfl
      obtain rfl := List.singleton_inj.mp hlast
      simp only [List.concat_eq_append, List.mem_append, List.mem_singleton] at hlater
      exact .inr ⟨hlater h (.inr rfl), earlier, init, rfl, fun x hx => hlater x (.inl hx)⟩
  · rintro (rfl | ⟨hreaches, earlier, later, rfl, hlater⟩)
    · exact ⟨happened, [], rfl, fun x hx => absurd hx List.not_mem_nil⟩
    · refine ⟨earlier, later ++ [h], by simp, fun x hx => ?_⟩
      rcases List.mem_append.mp hx with hx | hx
      · exact hlater x hx
      · rw [List.mem_singleton.mp hx, hreaches]

theorem pending_iff (happened : List Happening) :
    happened.foldl leavesPending false = true ↔ AskedLast happened := by
  induction happened using List.reverseRecOn with
  | nil => simp [AskedLast]
  | append_singleton before h ih =>
      rw [List.foldl_append, List.foldl_cons, List.foldl_nil, askedLast_concat, ← ih]
      cases h <;> simp [leavesPending, reaches]

end Happening

/-! The clerk. -/

/-- What has to be known to tell what becomes of a call. -/
structure Clerk (σ τ : Type) where
  next : Nat
  pending : Bool
  executor : σ × τ

/-- The verb that compiles the statement of a method. -/
def Method.verb? : Method → Option Verb
  | .select => some .select
  | .get => some .get
  | .rand => some .rand
  | .has => some .has
  | .aggregate | .count | .avg | .max | .min | .sum => some .aggregate
  | .insert => some .insert
  | .update => some .update
  | .delete => some .delete
  | .replace => some .replace
  | .query => some .raw
  | _ => none

/-- What a method gives to its verb: some methods are named after the function they aggregate by. -/
def Method.verbValues (m : Method) (values : List Value) : List Value :=
  match m.aggregate? with
  | some f => .str f.name :: values
  | none => values

namespace Clerk

def fresh (shared : σ) (part : τ) : Clerk σ τ := ⟨0, false, (shared, part)⟩

variable (db : Database σ τ) (k : Clerk σ τ)

/-- What the executor makes of a statement. -/
def outcome (sql : String) (params : Dict) : Except Fault ExecutionResult :=
  match db.executor with
  | none => .error (Database.noExecutor sql)
  | some e => ((ExceptT.run (e.execute sql params)).run k.executor).1

/-- A statement reaches execution. -/
def reach (sql : String) (params : Dict) (inserting : Bool) : Happening :=
  if k.pending then .diverted sql params
  else .issued ⟨sql, params, inserting, k.outcome db sql params⟩

variable {db k} in
theorem reach_pending {sql : String} {params : Dict} {inserting : Bool} (h : k.pending = true) :
    k.reach db sql params inserting = .diverted sql params := by
  rw [reach, if_pos h]

variable {db k} in
theorem reach_issued {sql : String} {params : Dict} {inserting : Bool} (h : k.pending = false) :
    k.reach db sql params inserting =
      .issued ⟨sql, params, inserting, k.outcome db sql params⟩ := by
  rw [reach, h, if_neg Bool.false_ne_true]

/-- A statement is compiled, and reaches execution unless this fails. The counter stands elsewhere
afterwards. -/
def compile (step : Compile Compiled) (inserting : Bool) : Happening × Nat :=
  let (result, next) := Statement.run step k.next
  match result with
  | .error f => (.refused f, next)
  | .ok c => (k.reach db c.text c.paramsDict inserting, next)

/-- A method is performed with values for all its parameters. -/
def perform (m : Method) (values : List Value) : Happening × Nat :=
  match m, values with
  | .debug, _ => (.asked, k.next)
  | .begin, _ => (.boundary .begin, k.next)
  | .commit, _ => (.boundary .commit, k.next)
  | .rollback, _ => (.boundary .rollback, k.next)
  | .error, _ | .id, _ | .last, _ | .log, _ | .inTransaction, _ | .generate, _ => (.quiet, k.next)
  | .replace, [table, .dict entries, wheres] =>
      if entries.any fun (_, v) => Database.holdsReplacements v then
        k.compile db (Statement.replace db.target table (.dict entries) wheres) false
      else (.quiet, k.next)
  | .replace, [_, _, _] => (.refused .missingMember, k.next)
  | m, values =>
      match m.verb? with
      | some verb =>
          k.compile db (verb.compileWith db.target (m.verbValues values)) (m == .insert)
      | none => (.refused .wrongKind, k.next)

def call : SingleCall → Happening × Nat
  | .method m args named _ =>
      match m.signature.bind args named with
      | .error f => (.refused f, k.next)
      | .ok values => k.perform db m values
  | .execute sql params =>
      match params.toDictOrEmpty with
      | .error f => (.refused f, k.next)
      | .ok params => (k.reach db sql params false, k.next)

/-- What is to be known after something has become of a call. -/
def after (h : Happening) (next : Nat) : Clerk σ τ :=
  ⟨next, h.leavesPending k.pending, h.onExecutor db k.executor⟩

/-- What becomes of calls that are made one after another, and what is to be known then. -/
def follow (k : Clerk σ τ) : List SingleCall → List Happening × Clerk σ τ
  | [] => ([], k)
  | c :: rest =>
      let (h, next) := k.call db c
      let (more, last) := follow (k.after db h next) rest
      (h :: more, last)

variable {db : Database σ τ} {k : Clerk σ τ}

theorem foldl_follow (calls : List SingleCall) :
    (k.follow db calls).2.executor =
      (k.follow db calls).1.foldl (fun state h => h.onExecutor db state) k.executor := by
  induction calls generalizing k with
  | nil => rfl
  | cons c rest ih => exact ih

/-! A dry run is pending if it was asked for and nothing has reached execution since. -/

theorem heeds_reach (sql : String) (params : Dict) (inserting : Bool) :
    (k.reach db sql params inserting).Heeds k.pending := by
  intro _
  unfold reach
  cases k.pending with
  | true => rfl
  | false => rfl

theorem heeds_compile (step : Compile Compiled) (inserting : Bool) :
    (k.compile db step inserting).1.Heeds k.pending := by
  unfold compile
  rcases Statement.run step k.next with ⟨_ | c, next⟩
  · exact Happening.heeds_of_not_reaches rfl
  · exact heeds_reach c.text c.paramsDict inserting

theorem heeds_perform (m : Method) (values : List Value) :
    (k.perform db m values).1.Heeds k.pending := by
  unfold perform
  repeat' split
  all_goals first | exact heeds_compile _ _ | exact Happening.heeds_of_not_reaches rfl

theorem heeds_call (c : SingleCall) : (k.call db c).1.Heeds k.pending := by
  cases c with
  | method m args named single =>
      simp only [call]
      cases m.signature.bind args named with
      | error f => exact Happening.heeds_of_not_reaches rfl
      | ok values => exact heeds_perform m values
  | execute sql params =>
      simp only [call]
      cases params.toDictOrEmpty with
      | error f => exact Happening.heeds_of_not_reaches rfl
      | ok params => exact heeds_reach sql params false

theorem heeds_follow {calls : List SingleCall} {before after : List Happening} {h : Happening}
    (heq : (k.follow db calls).1 = before ++ h :: after) :
    h.Heeds (before.foldl Happening.leavesPending k.pending) := by
  induction calls generalizing k before with
  | nil => simp [follow] at heq
  | cons c rest ih =>
      have hfirst : (k.call db c).1.Heeds k.pending := heeds_call c
      change (k.call db c).1 :: ((k.after db (k.call db c).1 (k.call db c).2).follow db rest).1 =
        before ++ h :: after at heq
      cases before with
      | nil =>
          cases heq
          exact hfirst
      | cons earlier before =>
          obtain ⟨hhead, hrest⟩ := List.cons.inj heq
          rw [List.foldl_cons, ← hhead]
          exact ih hrest

end Clerk

/-! Actions that lead from states to states. -/

/-- From each state with a property, an action ends in an outcome and a state that belong together. -/
def Action.Leads (P : DatabaseState σ τ → Prop) (m : Action σ τ α)
    (Q : Except Fault α → DatabaseState σ τ → Prop) : Prop :=
  ∀ s, P s → Q ((ExceptT.run m).run s).1 ((ExceptT.run m).run s).2

namespace Action.Leads

variable {P : DatabaseState σ τ → Prop} {m : Action σ τ α}
  {Q Q' : Except Fault α → DatabaseState σ τ → Prop}
  {R : Except Fault β → DatabaseState σ τ → Prop}

theorem pure {a : α} (h : ∀ s, P s → Q (.ok a) s) : Leads P (Pure.pure a) Q := h

theorem throw {f : Fault} (h : ∀ s, P s → Q (.error f) s) : Leads P (MonadExcept.throw f) Q := h

theorem mono (hm : Leads P m Q) (h : ∀ r s, Q r s → Q' r s) : Leads P m Q' :=
  fun s hs => h _ _ (hm s hs)

theorem bind {k : α → Action σ τ β} (hm : Leads P m Q) (hok : ∀ a, Leads (Q (.ok a)) (k a) R)
    (herror : ∀ f s, Q (.error f) s → R (.error f) s) : Leads P (m >>= k) R := by
  intro s hs
  have hfirst := hm s hs
  simp only [ExceptT.run_bind, StateT.run_bind]
  cases hrun : (ExceptT.run m).run s with
  | mk result u =>
      rw [hrun] at hfirst
      cases result with
      | ok a => exact hok a u hfirst
      | error f => exact herror f u hfirst

theorem get {k : DatabaseState σ τ → Action σ τ β} (h : ∀ s, P s → Leads P (k s) R) :
    Leads P (MonadState.get >>= k) R :=
  fun s hs => h s hs s hs

/-- What goes on after bookkeeping. -/
theorem modify {f : DatabaseState σ τ → DatabaseState σ τ} {Q : DatabaseState σ τ → Prop}
    {k : Unit → Action σ τ β} (hf : ∀ s, P s → Q (f s)) (h : Leads Q (k ()) R) :
    Leads P (modify f >>= k) R :=
  fun s hs => h (f s) (hf s hs)

theorem of_keeps (h : Keeps P m) : Leads P m fun _ s => P s := h

theorem attempt (hm : Leads P m Q) :
    Leads P (Database.attempt m) fun ended s => ∃ r, ended = .ok r ∧ Q r s :=
  fun s hs => ⟨_, rfl, hm s hs⟩

end Action.Leads

/-! What is kept. -/

/-- What a database keeps of the statements that it has issued. -/
structure Kept where
  history : List (String × Dict)
  lastError : Option Fault
  lastInsertId : Value

namespace Kept

variable (db : Database σ τ)

/-- What is kept of a statement before it is known how it ends. -/
def remembered (kept : Kept) (sql : String) (params : Dict) : Kept :=
  { kept with
    history := (kept.history ++ [(sql, params)]).rtake db.historySize
    lastError := none }

/-- What is kept once the executor has ended. -/
def executed (kept : Kept) (h : Happening) : Kept :=
  match h with
  | .issued i =>
      { kept with
        history := (kept.history ++ [(i.sql, i.params)]).rtake db.historySize
        lastError := i.fault? }
  | _ => kept

/-- What is kept after a call: an insertion that was executed also leaves its row identifier. -/
def after (kept : Kept) (h : Happening) : Kept :=
  { kept.executed db h with
    lastInsertId := (h.issue?.bind Issue.insertId?).getD kept.lastInsertId }

/-- What is kept after calls on a database that has kept nothing. -/
def of (happened : List Happening) : Kept := happened.foldl (after db) ⟨[], none, .null⟩

variable {db : Database σ τ}

/-- The last items of a list that goes on are found among the last items that it had before. -/
theorem rtake_concat {γ : Type} (items : List γ) (item : γ) (size : Nat) :
    (items.rtake size ++ [item]).rtake size = (items ++ [item]).rtake size := by
  cases size with
  | zero => simp only [List.rtake_zero]
  | succ n =>
      rw [List.rtake_concat_succ, List.rtake_concat_succ]
      simp only [List.rtake, List.drop_drop, List.length_drop]
      congr 2
      omega

theorem after_of_quiet {h : Happening} (hissue : h.issue? = none) (kept : Kept) :
    kept.after db h = kept := by
  cases h with
  | issued i => cases hissue
  | _ => rfl

theorem map_rtake {γ δ : Type} (f : γ → δ) (items : List γ) (size : Nat) :
    (items.map f).rtake size = (items.rtake size).map f := by
  simp only [List.rtake, List.length_map, List.map_drop]

/-- What is kept is the end of the history of what was issued, the error of the last statement and the
row identifier of the last insertion. -/
theorem of_eq (happened : List Happening) :
    let issued := happened.filterMap Happening.issue?
    of db happened =
      ⟨(issued.map fun i => (i.sql, i.params)).rtake db.historySize,
        issued.getLast?.bind Issue.fault?,
        (issued.filterMap Issue.insertId?).getLast?.getD .null⟩ := by
  induction happened using List.reverseRecOn with
  | nil => simp [of]
  | append_singleton before h ih =>
      have hof : of db (before ++ [h]) = (of db before).after db h := by
        simp only [of, List.foldl_append, List.foldl_cons, List.foldl_nil]
      cases hissue : h.issue? with
      | none =>
          rw [hof, ih, after_of_quiet hissue]
          simp only [List.filterMap_append, List.filterMap_cons, List.filterMap_nil, hissue,
            List.append_nil]
      | some i =>
          obtain rfl : h = .issued i := by
            cases h <;> simp [Happening.issue?] at hissue
            rw [hissue]
          rw [hof, ih]
          simp only [List.filterMap_append, List.filterMap_cons, List.filterMap_nil, hissue]
          cases hid : i.insertId? <;>
            simp [after, executed, hissue, hid, rtake_concat]

end Kept

/-! One call. -/

/-- A state is what a clerk knows and what is kept. -/
structure Clerk.Describes (k : Clerk σ τ) (kept : Kept) (s : DatabaseState σ τ) : Prop where
  next : s.next = k.next
  pending : s.thread.dryRun = k.pending
  executor : (s.shared, s.thread.part) = k.executor
  history : s.history = kept.history
  lastError : s.lastError = kept.lastError
  lastInsertId : s.lastInsertId = kept.lastInsertId

namespace Clerk

open QueryLoom.Action Database

variable {db : Database σ τ} {k : Clerk σ τ} {kept : Kept}

theorem keeps_report (note : Note) : Keeps (Describes k kept) (report note) :=
  fun _ hs => ⟨hs.next, hs.pending, hs.executor, hs.history, hs.lastError, hs.lastInsertId⟩

theorem keeps_mapping (m : Mapping α) : Keeps (Describes k kept) (mapping m) := by
  have hnotes : Keeps (Describes k kept) (modify fun s =>
      { s with journal := s.journal ++ (Shape.run m).2 } : Action σ τ Unit) :=
    fun _ hs => ⟨hs.next, hs.pending, hs.executor, hs.history, hs.lastError, hs.lastInsertId⟩
  exact hnotes.bind fun _ => .lift _

/-- A step of the executor. -/
theorem leads_executorStep (step : Step σ τ α) :
    Leads (Describes k kept) (executorStep step) fun r s =>
      let ended := (ExceptT.run step).run k.executor
      r = ended.1 ∧ Describes { k with executor := ended.2 } kept s := by
  intro s hs
  rcases hended : (ExceptT.run step).run (s.shared, s.thread.part) with ⟨result, u⟩
  rw [executorStep_run hended, ← hs.executor, hended]
  exact ⟨rfl, hs.next, hs.pending, rfl, hs.history, hs.lastError, hs.lastInsertId⟩

theorem leads_keepFault (f : Fault) (sql : String) :
    Leads (Describes k kept) (keepFault f sql) fun r s =>
      r = .ok () ∧ Describes k { kept with lastError := some f } s :=
  fun _ hs => ⟨rfl, hs.next, hs.pending, hs.executor, hs.history, rfl, hs.lastInsertId⟩

/-- What executing a statement gives. -/
def Gives (db : Database σ τ) (r : Except Fault Outcome) : Happening → Prop
  | .diverted sql params => r = (db.generate sql params).map .statement
  | .issued i => r = i.outcome.map .result
  | _ => False

/-- A state after a statement was issued, by what the executor was asked for. -/
theorem Describes.issued {i : Issue} {s : DatabaseState σ τ} {u : σ × τ}
    (h : Describes { k with executor := u } kept s) (hpending : k.pending = false)
    (hu : (Happening.issued i).onExecutor db k.executor = u) :
    Describes (k.after db (.issued i) k.next) kept s where
  next := h.next
  pending := h.pending.trans hpending
  executor := h.executor.trans hu.symm
  history := h.history
  lastError := h.lastError
  lastInsertId := h.lastInsertId

theorem Describes.remembered {s : DatabaseState σ τ} (h : Describes k kept s) (sql : String)
    (params : Dict) :
    Describes k (kept.remembered db sql params) { s with
      history := (s.history ++ [(sql, params)]).rtake db.historySize, lastError := none } where
  next := h.next
  pending := h.pending
  executor := h.executor
  history := by rw [h.history]; rfl
  lastError := rfl
  lastInsertId := h.lastInsertId

/-- Without an executor a statement fails, and nothing is asked for. -/
theorem outcome_of_none {sql : String} {params : Dict} (h : db.executor = none) :
    k.outcome db sql params = .error (noExecutor sql) := by
  simp only [outcome, h]

theorem onExecutor_of_none (h : db.executor = none) (i : Issue) :
    (Happening.issued i).onExecutor db k.executor = k.executor := by
  simp only [Happening.onExecutor, h]

/-- What the executor makes of a statement, and the state that it leaves. -/
theorem outcome_of_some {executor : Executor σ τ} {sql : String} {params : Dict}
    {ended : Except Fault ExecutionResult} {u : σ × τ} (h : db.executor = some executor)
    (hended : (ExceptT.run (executor.execute sql params)).run k.executor = (ended, u)) :
    k.outcome db sql params = ended := by
  simp only [outcome, h, hended]

theorem onExecutor_of_some {executor : Executor σ τ} {i : Issue}
    {ended : Except Fault ExecutionResult} {u : σ × τ} (h : db.executor = some executor)
    (hended : (ExceptT.run (executor.execute i.sql i.params)).run k.executor = (ended, u)) :
    (Happening.issued i).onExecutor db k.executor = u := by
  simp only [Happening.onExecutor, h, hended]

theorem leads_execute (sql : String) (params : Dict) (inserting : Bool) :
    Leads (Describes k kept) (db.execute sql params) fun r s =>
      let h := k.reach db sql params inserting
      Gives db r h ∧ Describes (k.after db h k.next) (kept.executed db h) s := by
  refine .get fun s hs => ?_
  rw [hs.pending]
  unfold reach
  cases hpending : k.pending with
  | true =>
      simp only [if_true, Gives]
      refine .modify (Q := Describes { k with pending := false } kept)
        (fun s hs => ⟨hs.next, rfl, hs.executor, hs.history, hs.lastError, hs.lastInsertId⟩) ?_
      -- no dry run is pending any more, even if the statement cannot be shown
      cases db.generate sql params with
      | error f => exact .throw fun s hs => ⟨rfl, hs⟩
      | ok text => exact fun s hs => ⟨rfl, keeps_report _ s hs⟩
  | false =>
      simp only [Bool.false_eq_true, if_false]
      -- the history holds the statement before it is known how it ends
      refine .modify (Q := Describes k (kept.remembered db sql params))
        (fun s hs => hs.remembered sql params) ?_
      cases hexecutor : db.executor with
      | none =>
          rw [outcome_of_none hexecutor]
          refine (leads_keepFault _ sql).bind (fun _ => .throw ?_) (fun f s hs => nomatch hs.1)
          rintro s ⟨-, hs⟩
          exact ⟨rfl, hs.issued hpending (onExecutor_of_none hexecutor _)⟩
      | some executor =>
          refine .modify (fun s hs => keeps_report _ s hs) ?_
          refine (leads_executorStep _).attempt.bind (fun result => ?_) (fun f s hs => ?_)
          · rcases hended : (ExceptT.run (executor.execute sql params)).run k.executor with
              ⟨ended, u⟩
            have hsent : (Happening.issued ⟨sql, params, inserting, ended⟩).onExecutor db
                k.executor = u := onExecutor_of_some hexecutor hended
            rw [outcome_of_some hexecutor hended]
            cases result with
            | ok r =>
                refine .pure ?_
                rintro s ⟨_, heq, rfl, hs⟩
                cases heq
                exact ⟨rfl, hs.issued hpending hsent⟩
            | error f =>
                rintro s ⟨_, heq, rfl, hs⟩
                cases heq
                dsimp only
                split
                · next message failed =>
                    have hfailed := leads_keepFault (.execution message failed)
                      (failed.getD "None") s hs
                    exact ⟨rfl, hfailed.2.issued hpending hsent⟩
                · next hother =>
                    have hfault : Issue.fault? ⟨sql, params, inserting, .error f⟩ = none :=
                      Issue.fault?_of_other rfl hother
                    refine ⟨rfl, Describes.issued ?_ hpending hsent⟩
                    simp only [Kept.executed, hfault]
                    exact hs
          · obtain ⟨_, heq, _⟩ := hs
            cases heq

/-- A compilation leaves the counter elsewhere, also when it fails. -/
theorem leads_compile (step : Compile Compiled) :
    Leads (Describes k kept) (Database.compile step : Action σ τ Compiled) fun r s =>
      let ended := Statement.run step k.next
      r = ended.1 ∧ Describes { k with next := ended.2 } kept s := by
  intro s hs
  rw [Database.run_compile, hs.next]
  rcases Statement.run step k.next with ⟨_ | _, next⟩
  · exact ⟨rfl, rfl, hs.pending, hs.executor, hs.history, hs.lastError, hs.lastInsertId⟩
  · exact ⟨rfl, rfl, hs.pending, hs.executor, hs.history, hs.lastError, hs.lastInsertId⟩

/-- A call ends as what has become of it says, in a state that the clerk describes. -/
def Told (db : Database σ τ) (k : Clerk σ τ) (kept : Kept) (happened : Happening × Nat)
    (reply : Except Fault Reply) (s : DatabaseState σ τ) : Prop :=
  happened.1.Ends db reply ∧
    Describes (k.after db happened.1 happened.2) (kept.after db happened.1) s

theorem told_refused (f : Fault) :
    Leads (Describes k kept) (throw f) (Told db k kept (.refused f, k.next)) :=
  fun _ hs => ⟨rfl, hs⟩

theorem told_quiet {m : Action σ τ Reply} (h : Keeps (Describes k kept) m) :
    Leads (Describes k kept) m (Told db k kept (.quiet, k.next)) :=
  fun s hs => ⟨trivial, h s hs⟩

/-- What is made of a result keeps what is kept, except that an insertion remembers its row
identifier. -/
def Completes (inserting : Bool) (f : ExecutionResult → Action σ τ Reply) : Prop :=
  ∀ r (k : Clerk σ τ) kept, Leads (Describes k kept) (f r) fun _ s =>
    Describes k (if inserting then { kept with lastInsertId := r.lastId } else kept) s

/-- A statement is executed, and something is made of its result. -/
theorem told_execute (sql : String) (params : Dict) (inserting : Bool)
    {f : ExecutionResult → Action σ τ Reply} (hf : Completes inserting f) :
    Leads (Describes k kept) (do replyWith (← db.execute sql params) f)
      (Told db k kept (k.reach db sql params inserting, k.next)) := by
  have hexecute : Leads (Describes k kept) (db.execute sql params) _ :=
    leads_execute sql params inserting
  cases hpending : k.pending with
  | true =>
      simp only [reach_pending hpending, Gives] at hexecute ⊢
      refine hexecute.bind (fun outcome => ?_) ?_
      · rintro s ⟨hgives, hs⟩
        cases hshown : db.generate sql params with
        | error f =>
            rw [hshown] at hgives
            cases hgives
        | ok text =>
            rw [hshown] at hgives
            cases hgives
            exact ⟨by rw [Happening.Ends, hshown]; rfl, hs⟩
      · rintro fault s ⟨hgives, hs⟩
        cases hshown : db.generate sql params with
        | error f =>
            rw [hshown] at hgives
            cases hgives
            exact ⟨by rw [Happening.Ends, hshown]; rfl, hs⟩
        | ok text =>
            rw [hshown] at hgives
            cases hgives
  | false =>
      simp only [reach_issued hpending] at hexecute ⊢
      generalize k.outcome db sql params = ended at hexecute ⊢
      refine hexecute.bind (fun outcome => ?_) ?_
      · rintro s ⟨hgives, hs⟩
        cases ended with
        | error fault => cases hgives
        | ok r =>
            cases hgives
            have hcompleted := hf r _ _ s hs
            refine ⟨fun fault hfault => (by cases hfault), ?_⟩
            cases inserting with
            | true => exact hcompleted
            | false => exact hcompleted
      · rintro fault s ⟨hgives, hs⟩
        cases ended with
        | ok r => cases hgives
        | error other =>
            cases hgives
            refine ⟨fun raised hraised => ?_, hs⟩
            cases hraised
            rfl

/-- A verb: a statement is compiled and executed, and something is made of its result. -/
theorem told_compile (step : Compile Compiled) (inserting : Bool)
    {f : Compiled → ExecutionResult → Action σ τ Reply} (hf : ∀ c, Completes inserting (f c)) :
    Leads (Describes k kept) (do
      let compiled ← Database.compile step
      replyWith (← db.executeCompiled compiled) (f compiled))
      (Told db k kept (k.compile db step inserting)) := by
  unfold compile
  refine (leads_compile step).bind (fun c => ?_) ?_
  · rintro s ⟨heq, hs⟩
    rcases hrun : Statement.run step k.next with ⟨result, next⟩
    rw [hrun] at heq hs
    cases heq
    exact told_execute c.text c.paramsDict inserting (hf c) s hs
  · rintro fault s ⟨heq, hs⟩
    rcases hrun : Statement.run step k.next with ⟨result, next⟩
    rw [hrun] at heq hs
    cases heq
    exact ⟨rfl, hs⟩

/-! Methods. -/

/-- What is made of a result changes nothing that is kept. -/
theorem completes_of_keeps {f : ExecutionResult → Action σ τ Reply}
    (h : ∀ r (k : Clerk σ τ) kept, Keeps (Describes k kept) (f r)) : Completes false f :=
  h

theorem told_rows (step : Compile Compiled) :
    Leads (Describes k kept) (db.rowsOf step) (Told db k kept (k.compile db step false)) :=
  told_compile step false fun _ => completes_of_keeps fun _ _ _ =>
    (keeps_mapping _).bind fun _ => .pure _

theorem told_first (table columns wheres join : Value) :
    Leads (Describes k kept) (db.getFirst table columns wheres join)
      (Told db k kept (k.compile db (Statement.get db.target table columns wheres join) false)) := by
  refine told_compile _ false fun c => completes_of_keeps fun r k kept => ?_
  cases r.rows with
  | nil => exact .pure _
  | cons row rest => exact (keeps_mapping _).bind fun _ => .pure _

theorem told_aggregate (function table column wheres join : Value) :
    Leads (Describes k kept) (db.aggregate function table column wheres join)
      (Told db k kept
        (k.compile db (Statement.aggregate db.target function table column wheres join) false)) :=
  told_compile _ false fun _ => completes_of_keeps fun _ _ _ => (Keeps.lift _).bind fun _ => .pure _

theorem told_write (step : Compile Compiled) :
    Leads (Describes k kept) (db.write step) (Told db k kept (k.compile db step false)) :=
  told_compile step false fun _ => completes_of_keeps fun _ _ _ => .pure _

/-- The row identifier is remembered where the result is made into a reply. -/
theorem insert_eq (table rows : Value) :
    db.insert table rows = (do
      let compiled ← Database.compile (Statement.insert db.target table rows)
      replyWith (← db.executeCompiled compiled) fun r => do
        modify fun s => { s with lastInsertId := r.lastId }
        return .result r) := by
  unfold Database.insert write
  generalize Statement.insert db.target table rows = step
  simp only [bind_assoc]
  congr 1
  funext compiled
  congr 1
  funext outcome
  cases outcome with
  | result r => rfl
  | statement text => rfl

theorem told_insert (table rows : Value) :
    Leads (Describes k kept) (db.insert table rows)
      (Told db k kept (k.compile db (Statement.insert db.target table rows) true)) := by
  rw [insert_eq]
  refine told_compile _ true fun _ r k kept s hs => ?_
  exact ⟨hs.next, hs.pending, hs.executor, hs.history, hs.lastError, rfl⟩

theorem told_replace (table columns wheres : Value) :
    Leads (Describes k kept) (db.replace table columns wheres)
      (Told db k kept (k.perform db .replace [table, columns, wheres])) := by
  unfold Database.replace
  split
  · next entries =>
      by_cases hholds : entries.any fun (_, v) => holdsReplacements v
      · simp only [perform, hholds, if_true]
        exact told_write _
      · simp only [perform, hholds]
        exact told_quiet (.pure _)
  · next hother =>
      cases columns with
      | dict entries => exact absurd rfl (hother entries)
      | _ => exact told_refused _

/-- The executor is asked for the beginning or an end of a transaction, if there is an executor. -/
theorem leads_boundary (b : Boundary) :
    Leads (Describes k kept) (do executorStep (b.step (← db.requireExecutor))) fun _ s =>
      Describes { k with executor := (Happening.boundary b).onExecutor db k.executor } kept s := by
  unfold requireExecutor Happening.onExecutor
  cases db.executor with
  | none => exact .throw fun s hs => hs
  | some e => exact (leads_executorStep (b.step e)).mono fun _ s hs => hs.2

theorem keeps_setInTransaction (isOpen : Bool) :
    Keeps (Describes k kept) (setInTransaction isOpen : Action σ τ Unit) :=
  fun _ hs => ⟨hs.next, hs.pending, hs.executor, hs.history, hs.lastError, hs.lastInsertId⟩

/-- A beginning or an end is no statement; nothing that is kept changes, even if it fails. -/
theorem told_boundary (b : Boundary) {m : Action σ τ Unit}
    (hm : Leads (Describes k kept) m fun _ s =>
      Describes { k with executor := (Happening.boundary b).onExecutor db k.executor } kept s) :
    Leads (Describes k kept) (quietly m) (Told db k kept (.boundary b, k.next)) :=
  hm.bind (fun _ => .pure fun _ hs => ⟨trivial, hs⟩) fun _ _ hs => ⟨trivial, hs⟩

theorem told_begin : Leads (Describes k kept) (quietly db.begin)
    (Told db k kept (.boundary .begin, k.next)) := by
  have hbegin : db.begin = (do executorStep (Boundary.begin.step (← db.requireExecutor))) >>=
      fun _ => setInTransaction true := (bind_assoc _ _ _).symm
  rw [hbegin]
  exact told_boundary .begin ((leads_boundary .begin).bind
    (fun _ => .of_keeps (keeps_setInTransaction true)) fun _ _ hs => hs)

/-- An end counts as one even if it fails. -/
theorem told_finally (b : Boundary) :
    Leads (Describes k kept)
      (quietly (andFinally (do executorStep (b.step (← db.requireExecutor)))
        (setInTransaction false)))
      (Told db k kept (.boundary b, k.next)) := by
  refine told_boundary b ((leads_boundary b).attempt.bind (fun result => ?_) ?_)
  · have hclosed : Keeps (Describes
        { k with executor := (Happening.boundary b).onExecutor db k.executor } kept)
        (setInTransaction false : Action σ τ Unit) := keeps_setInTransaction false
    rintro s ⟨_, -, hs⟩
    exact (hclosed.bind fun _ => Keeps.lift result) s hs
  · rintro f s ⟨_, heq, _⟩
    cases heq

/-- A method ends as the clerk says, if it is given values for all its parameters. -/
theorem told_perform (m : Method) (values : List Value) (hsingle : m.isSingle = true)
    (hlength : values.length = m.signature.positional.length + m.signature.named.length) :
    Leads (Describes k kept) (db.perform m values) (Told db k kept (k.perform db m values)) := by
  cases m with
  | select | rand =>
      obtain ⟨table, columns, wheres, join, rfl⟩ := List.length_eq_four.mp hlength
      exact told_rows _
  | get =>
      obtain ⟨table, columns, wheres, join, rfl⟩ := List.length_eq_four.mp hlength
      exact told_first table columns wheres join
  | has =>
      obtain ⟨table, wheres, join, rfl⟩ := List.length_eq_three.mp hlength
      exact told_compile _ false fun _ => completes_of_keeps fun _ _ _ =>
        (Keeps.lift _).bind fun _ => .pure _
  | aggregate =>
      obtain ⟨function, rest, rfl⟩ := List.exists_cons_of_length_eq_add_one hlength
      obtain ⟨table, column, wheres, join, rfl⟩ := List.length_eq_four.mp (Nat.succ.inj hlength)
      exact told_aggregate function table column wheres join
  | count | avg | max | min | sum =>
      obtain ⟨table, column, wheres, join, rfl⟩ := List.length_eq_four.mp hlength
      exact told_aggregate _ table column wheres join
  | insert =>
      obtain ⟨table, rows, rfl⟩ := List.length_eq_two.mp hlength
      exact told_insert table rows
  | update =>
      obtain ⟨table, data, wheres, rfl⟩ := List.length_eq_three.mp hlength
      exact told_write _
  | delete =>
      obtain ⟨table, wheres, rfl⟩ := List.length_eq_two.mp hlength
      exact told_write _
  | replace =>
      obtain ⟨table, columns, wheres, rfl⟩ := List.length_eq_three.mp hlength
      exact told_replace table columns wheres
  | query =>
      obtain ⟨statement, rfl⟩ := List.length_eq_one_iff.mp hlength
      exact told_compile _ false fun _ => completes_of_keeps fun _ _ _ => .pure _
  | generate =>
      obtain ⟨sql, params, rfl⟩ := List.length_eq_two.mp hlength
      exact told_quiet (.lift _)
  | debug =>
      exact fun s hs =>
        ⟨trivial, hs.next, rfl, hs.executor, hs.history, hs.lastError, hs.lastInsertId⟩
  | error | id | inTransaction => exact told_quiet (Keeps.get.bind fun _ => .pure _)
  | last | log =>
      exact told_quiet (Keeps.get.bind fun _ => (Keeps.lift _).bind fun _ => .pure _)
  | begin => exact told_begin
  | commit => exact told_finally .commit
  | rollback => exact told_finally .rollback
  | execute | parallelSelect => cases hsingle

/-- A call ends as the clerk says. -/
theorem told_call (c : SingleCall) :
    Leads (Describes k kept) (c.action db) (Told db k kept (k.call db c)) := by
  cases c with
  | method m args named single =>
      simp only [SingleCall.action, Database.call, call]
      cases hbind : m.signature.bind args named with
      | error f => exact told_refused f
      | ok values => exact told_perform m values single (Signature.length_bind hbind)
  | execute sql params =>
      have haction : (SingleCall.execute sql params).action db = (do
          let params ← Database.lift params.toDictOrEmpty
          replyWith (← db.execute sql params) fun r => return .result r) := rfl
      rw [haction]
      simp only [call]
      cases params.toDictOrEmpty with
      | error f => exact told_refused f
      | ok params =>
          exact told_execute sql params false (completes_of_keeps fun _ _ _ => .pure _)

end Clerk

/-! Calls one after another. -/

namespace Database

/-- Makes calls one after another, whether they fail or not. -/
def makeAll (db : Database σ τ) (s : DatabaseState σ τ) :
    List SingleCall → List (Except Fault Reply) × DatabaseState σ τ
  | [] => ([], s)
  | c :: rest =>
      let (reply, s) := (ExceptT.run (c.action db)).run s
      let (replies, last) := db.makeAll s rest
      (reply :: replies, last)

variable (db : Database σ τ)

/-- The calls end as the clerk says, who describes the state that they leave. -/
theorem makeAll_told (calls : List SingleCall) {k : Clerk σ τ} {kept : Kept}
    {s : DatabaseState σ τ} (h : k.Describes kept s) :
    let made := db.makeAll s calls
    let told := k.follow db calls
    List.Forall₂ (fun h reply => h.Ends db reply) told.1 made.1 ∧
      told.2.Describes (told.1.foldl (Kept.after db) kept) made.2 := by
  induction calls generalizing k kept s with
  | nil => exact ⟨.nil, h⟩
  | cons c rest ih =>
      obtain ⟨hends, hdescribes⟩ := Clerk.told_call c s h
      obtain ⟨hmore, hlast⟩ := ih hdescribes
      exact ⟨.cons hends hmore, hlast⟩

/-- The values that are written into a statement are among its parameters. -/
theorem exists_entry_of_mem_values {backslash : Bool} {params : Dict} {sql name : String}
    {v : Value} (h : (name, v) ∈ Binding.values (Binding.parts backslash params sql)) :
    ∃ key, (key, v) ∈ params := by
  obtain ⟨span, -, heq⟩ := List.mem_map.mp (Binding.mem_values.mp h)
  split at heq
  · cases heq
  · split at heq
    · next hfound =>
        cases heq
        obtain ⟨key, hmem, -⟩ := Assoc.mem_of_get? hfound
        exact ⟨key, hmem⟩
    · cases heq

/-- A statement is shown if all its parameters have texts. -/
theorem exists_generate {sql : String} {params : Dict}
    (h : ∀ entry ∈ params, entry.2.hasText = true) : ∃ text, db.generate sql params = .ok text := by
  refine ⟨_, (Binding.inline_literal).trans (if_pos ?_)⟩
  refine List.all_eq_true.mpr fun found hfound => ?_
  obtain ⟨key, hmem⟩ := exists_entry_of_mem_values hfound
  exact h _ hmem

/-- A statement is not shown if a placeholder of it stands for a value without a text. -/
theorem generate_of_placeholder {sql name : String} {params : Dict} {v : Value}
    (hname : name ∈ Binding.names db.dialect.backslashEscapes sql)
    (hv : Dict.get? params name = some v) (htext : v.hasText = false) :
    db.generate sql params = .error .badValue := by
  refine (Binding.inline_literal).trans (if_neg fun hall => ?_)
  obtain ⟨span, hspan, hpart⟩ := List.mem_filterMap.mp hname
  cases span with
  | copied cs => cases hpart
  | placeholder cs =>
      obtain rfl := Option.some.inj hpart
      have hbound : .bound (String.ofList cs) v ∈
          Binding.parts db.dialect.backslashEscapes params sql :=
        List.mem_map.mpr ⟨_, hspan, by simp only [hv]⟩
      have hfound := List.all_eq_true.mp hall _ (Binding.mem_values.mpr hbound)
      rw [htext] at hfound
      cases hfound

/-- What a method without parameters replies in a state. -/
def reply (db : Database σ τ) (m : Method) (s : DatabaseState σ τ) : Except Fault Reply :=
  ((ExceptT.run (db.call m [] [])).run s).1

theorem reply_log (s : DatabaseState σ τ) :
    db.reply .log s = (db.log s).map fun log => .value (.list (log.map .str)) := by
  change ((ExceptT.run (lift (db.log s) >>= fun log =>
    (pure (.value (.list (log.map .str))) : Action σ τ Reply))).run s).1 = _
  cases db.log s <;> rfl

theorem reply_last (s : DatabaseState σ τ) :
    db.reply .last s = (db.last? s).map fun last => .value ((last.map .str).getD .null) := by
  change ((ExceptT.run (lift (db.last? s) >>= fun last =>
    (pure (.value ((last.map .str).getD .null)) : Action σ τ Reply))).run s).1 = _
  cases db.last? s <;> rfl

/-- For every executor, or none, and every sequence of calls on a new database: the history holds the
last issued statements, as many as the configured size allows if logging is on and one otherwise. The
log shows them with their values, and the last statement is the last of them; both succeed if every
value in them has a text, and end with the fault of showing them if not. The error is the execution
error of the last issued statement and the row identifier that of the last insertion that was executed.
The calls end as what has become of them says. The executor is asked for the issued statements and the
transactions, and for nothing else. A statement that reaches execution is diverted if a dry run was
asked for and no statement has reached execution since. -/
theorem diagnostics_follow_statements (db : Database σ τ) (shared : σ) (part : τ)
    (calls : List SingleCall) :
    let made := db.makeAll (start shared part) calls
    let happened := ((Clerk.fresh shared part).follow db calls).1
    let issued := happened.filterMap Happening.issue?
    let kept := issued.rtake (if db.config.logging then db.config.logSize.toNat else 1)
    let shown := fun i : Issue => db.generate i.sql i.params
    db.reply .log made.2 = (kept.mapM shown).map (fun log => .value (.list (log.map .str))) ∧
      db.reply .last made.2 =
        (match kept.getLast? with
        | none => .ok (.value .null)
        | some i => (shown i).map fun text => .value (.str text)) ∧
      ((∀ i ∈ kept, ∀ entry ∈ i.params, entry.2.hasText = true) →
        ∃ log, kept.mapM shown = .ok log) ∧
      db.reply .error made.2 =
        .ok (((issued.getLast?.bind Issue.fault?).map .fault).getD (.value .null)) ∧
      db.reply .id made.2 =
        .ok (.value ((issued.filterMap Issue.insertId?).getLast?.getD .null)) ∧
      List.Forall₂ (fun h reply => h.Ends db reply) happened made.1 ∧
      (made.2.shared, made.2.thread.part) =
        happened.foldl (fun state h => h.onExecutor db state) (shared, part) ∧
      ∀ before h after, happened = before ++ h :: after → h.reaches = true →
        (h.isDiverted = true ↔ Happening.AskedLast before) := by
  intro made happened issued kept shown
  have hstart : (Clerk.fresh shared part).Describes ⟨[], none, .null⟩ (start shared part) :=
    ⟨rfl, rfl, rfl, rfl, rfl, rfl⟩
  obtain ⟨hends, hdescribes⟩ := makeAll_told db calls hstart
  have hkept : happened.foldl (Kept.after db) ⟨[], none, .null⟩ =
      ⟨(issued.map fun i => (i.sql, i.params)).rtake db.historySize,
        issued.getLast?.bind Issue.fault?,
        (issued.filterMap Issue.insertId?).getLast?.getD .null⟩ := Kept.of_eq happened
  have hhistory : made.2.history = kept.map fun i => (i.sql, i.params) := by
    rw [← Kept.map_rtake]
    exact hdescribes.history.trans (congrArg Kept.history hkept)
  refine ⟨?_, ?_, ?_, ?_, ?_, hends, ?_, ?_⟩
  · have hlog : db.log made.2 = kept.mapM shown := by
      rw [Database.log, hhistory, List.mapM_map]
      rfl
    rw [reply_log, hlog]
  · rw [reply_last, Database.last?, hhistory, List.getLast?_map]
    cases kept.getLast? with
    | none => rfl
    | some i =>
        change ((shown i).map some).map _ = (shown i).map _
        cases shown i <;> rfl
  · intro htexts
    refine ⟨_, Except.mapM_eq_ok (g := fun i => (shown i).toOption.getD "") fun i hi => ?_⟩
    obtain ⟨text, htext⟩ : ∃ text, db.generate i.sql i.params = .ok text :=
      exists_generate db (htexts i hi)
    change db.generate i.sql i.params = .ok ((db.generate i.sql i.params).toOption.getD "")
    rw [htext]
    rfl
  · have herror := hdescribes.lastError
    rw [hkept] at herror
    change Except.ok ((made.2.lastError.map Reply.fault).getD (.value .null)) = _
    rw [herror]
  · have hid := hdescribes.lastInsertId
    rw [hkept] at hid
    change Except.ok (Reply.value made.2.lastInsertId) = _
    rw [hid]
  · rw [hdescribes.executor, Clerk.foldl_follow]
    rfl
  · intro before h after heq hreaches
    rw [Clerk.heeds_follow heq hreaches]
    exact Happening.pending_iff before

end Database

/-! A history of two statements. -/

/-- An executor that numbers the statements it is asked for, and gives their numbers as row
identifiers. -/
def Executor.numbering : Executor Nat Unit where
  execute _ _ := do
    modify fun (asked, part) => (asked + 1, part)
    return ⟨[], .int 1, .int (← get).1⟩
  begin := pure ()
  commit := pure ()
  rollback := pure ()
  close := pure ()
  newThread := ()

namespace Database

def numbering : Database Nat Unit :=
  ⟨⟨"sqlite", "", true, 2⟩, .sqlite, some .numbering, Json.usualNesting⟩

/-- With logging on, two of three statements are kept, and the one of the dry run is none of them. -/
theorem diagnostics_follow_statements_of_insertions :
    let insertion := fun v : Value =>
      SingleCall.method .insert [.str "t", .dict [(.str "a", v)]] [] rfl
    let calls := [insertion (.int 1), insertion (.str "it's"), .method .debug [] [] rfl,
      insertion (.int 2), .execute "DELETE FROM t WHERE a = :n" (.dict [(.str "n", .int 3)])]
    let shown := ["INSERT INTO \"t\" (\"a\") VALUES ('it''s')", "DELETE FROM t WHERE a = 3"]
    numbering.reply .log (numbering.makeAll (start 0 ()) calls).2 =
        .ok (.value (.list (shown.map .str))) ∧
      (numbering.makeAll (start 0 ()) calls).2.shared = 3 := by
  intro insertion calls shown
  have hsize : (if numbering.config.logging then numbering.config.logSize.toNat else 1) = 2 := rfl
  have hshown : (((((Clerk.fresh 0 ()).follow numbering calls).1.filterMap
      Happening.issue?).rtake 2).mapM fun i => numbering.generate i.sql i.params).toOption =
      some shown := by
    decide +kernel
  have hasked : (((Clerk.fresh 0 ()).follow numbering calls).1.foldl
      (fun state h => h.onExecutor numbering state) (0, ())).1 = 3 := by
    decide +kernel
  clear_value calls
  obtain ⟨hlog, -, -, -, -, -, hshared, -⟩ := diagnostics_follow_statements numbering 0 () calls
  refine ⟨hlog.trans ?_, (congrArg Prod.fst hshared).trans hasked⟩
  rw [hsize]
  cases hmade : ((((Clerk.fresh 0 ()).follow numbering calls).1.filterMap
      Happening.issue?).rtake 2).mapM fun i => numbering.generate i.sql i.params with
  | error f =>
      rw [hmade] at hshown
      cases hshown
  | ok log =>
      rw [hmade] at hshown
      obtain rfl := Option.some.inj hshown
      rfl

/-- A statement with a number of more digits than are written is kept, but neither it nor the log can be
shown. -/
theorem long_number_stops_log :
    let sql := "SELECT :n"
    let params : Dict := [(.str "n", .int (Nat.pow 10 Reading.digitLimit))]
    let made := numbering.makeAll (start 0 ()) [.execute sql (.dict params)]
    made.2.history = [(sql, params)] ∧ numbering.reply .last made.2 = .error .badValue ∧
      numbering.reply .log made.2 = .error .badValue := by
  intro sql params made
  have hlong : Value.isWritten (Nat.pow 10 Reading.digitLimit) = false :=
    Value.not_isWritten_of_le (Nat.le_refl _) (Nat.le_of_eq (Int.natAbs_natCast _).symm)
  have hshown : numbering.generate sql params = .error .badValue :=
    @generate_of_placeholder _ _ numbering sql "n" params _ (by decide +kernel) rfl hlong
  have hhistory : made.2.history = [(sql, params)] := rfl
  refine ⟨hhistory, ?_, ?_⟩
  · rw [reply_last, last?, hhistory]
    change ((numbering.generate sql params).map some).map _ = _
    rw [hshown]
    rfl
  · rw [reply_log, log, hhistory, List.mapM_cons]
    change ((numbering.generate sql params) >>= _).map _ = _
    rw [hshown]
    rfl

end Database

end QueryLoom
