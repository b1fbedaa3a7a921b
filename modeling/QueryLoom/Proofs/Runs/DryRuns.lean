import QueryLoom.Proofs.Lexing.Scanner
import QueryLoom.Proofs.Runs.Programs
import QueryLoom.Proofs.Statement.Reads

/-!
Which statement a dry run takes. A dry run that is pending on a thread takes the first statement that a
program on this thread brings to execution, whatever the program is made of: the statement is the reply
of its call, and later statements reach the executor. Workers are threads of their own: what they do is
what they do without the dry run, which stays pending on the calling thread. A selection in chunks counts
its rows on the calling thread, so that its count is the statement taken; what it is told then is no
number, and it selects nothing.
-/

namespace QueryLoom

variable {σ τ α : Type}

/-! What becomes of the calls of a program. -/

/-- What a clerk would know who came in a state. -/
def Clerk.ofState (s : DatabaseState σ τ) : Clerk σ τ :=
  ⟨s.next, s.thread.dryRun, (s.shared, s.thread.part)⟩

def Kept.ofState (s : DatabaseState σ τ) : Kept := ⟨s.history, s.lastError, s.lastInsertId⟩

theorem Clerk.describes_ofState (s : DatabaseState σ τ) :
    (Clerk.ofState s).Describes (Kept.ofState s) s := ⟨rfl, rfl, rfl, rfl, rfl, rfl⟩

namespace Made

variable (db : Database σ τ) (x : Made SingleCall σ τ)

/-- What becomes of a call. -/
def happening : Happening := ((Clerk.ofState x.before).call db x.call).1

/-- A call brings a statement to execution. -/
def Reaches : Prop := (x.happening db).reaches = true

/-- A call ends as what becomes of it says; this also tells what the executor is asked for, and whether
a dry run is pending afterwards. -/
theorem told :
    (x.happening db).Ends db (x.reply (SingleCall.action db)) ∧
      ((x.after (SingleCall.action db)).shared, (x.after (SingleCall.action db)).thread.part) =
        (x.happening db).onExecutor db (x.before.shared, x.before.thread.part) ∧
      (x.after (SingleCall.action db)).thread.dryRun =
        (x.happening db).leavesPending x.before.thread.dryRun := by
  have hleads : Action.Leads ((Clerk.ofState x.before).Describes (Kept.ofState x.before))
      (x.call.action db) _ := Clerk.told_call x.call
  obtain ⟨hends, hdescribes⟩ := hleads x.before (Clerk.describes_ofState x.before)
  exact ⟨hends, hdescribes.executor, hdescribes.pending⟩

theorem heeds : (x.happening db).Heeds x.before.thread.dryRun :=
  Clerk.heeds_call (k := Clerk.ofState x.before) x.call

variable {db x} {s t : DatabaseState σ τ} {made : List (Made SingleCall σ τ)}

theorem diverted_of_pending (hpending : x.before.thread.dryRun = true) (hx : x.Reaches db) :
    ∃ sql params, x.happening db = .diverted sql params := by
  have hheeds := x.heeds db hx
  rw [hpending] at hheeds
  cases hhappening : x.happening db with
  | diverted sql params => exact ⟨sql, params, rfl⟩
  | _ =>
      rw [hhappening] at hheeds
      cases hheeds

theorem issued_of_clear (hclear : x.before.thread.dryRun = false) (hx : x.Reaches db) :
    ∃ i, x.happening db = .issued i := by
  have hheeds := x.heeds db hx
  unfold Reaches at hx
  rw [hclear] at hheeds
  cases hhappening : x.happening db with
  | issued i => exact ⟨i, rfl⟩
  | diverted sql params =>
      rw [hhappening] at hheeds
      cases hheeds
  | _ =>
      rw [hhappening] at hx
      cases hx

/-- Until a statement reaches execution, the dry run stays pending. -/
theorem Chain.stays_pending (h : Chain (SingleCall.action db) s made t)
    (hs : s.thread.dryRun = true) (hmade : ∀ x ∈ made, ¬ x.Reaches db) :
    t.thread.dryRun = true := by
  induction h with
  | nil s => exact hs
  | cons x h ih =>
      rw [List.forall_mem_cons] at hmade
      refine ih ?_ hmade.2
      have hkept := (x.told db).2.2
      have hnot := hmade.1
      unfold Reaches at hnot
      rw [hkept, hs]
      cases hx : x.happening db <;> simp_all [Happening.leavesPending, Happening.reaches]

/-- Until a dry run is asked for, none is pending. -/
theorem Chain.stays_clear (h : Chain (SingleCall.action db) s made t)
    (hs : s.thread.dryRun = false) (hmade : ∀ x ∈ made, x.happening db ≠ .asked) :
    t.thread.dryRun = false := by
  induction h with
  | nil s => exact hs
  | cons x h ih =>
      rw [List.forall_mem_cons] at hmade
      refine ih ?_ hmade.2
      have hkept := (x.told db).2.2
      have hnot := hmade.1
      rw [hkept, hs]
      cases hx : x.happening db <;> simp_all [Happening.leavesPending]

end Made

/-! Operations as calls. -/

/-- The call that an operation stands for. -/
def Operation.call (o : Operation) : SingleCall :=
  match o.kind with
  | .select => .method .select [o.table, o.columns, o.wheres] [("join", o.join)] rfl
  | .get => .method .get [o.table, o.columns, o.wheres] [("join", o.join)] rfl
  | .has => .method .has [o.table, o.wheres] [("join", o.join)] rfl
  | .count => .method .count [o.table, o.columns, o.wheres] [("join", o.join)] rfl
  | .avg => .method .avg [o.table, o.columns, o.wheres] [("join", o.join)] rfl
  | .max => .method .max [o.table, o.columns, o.wheres] [("join", o.join)] rfl
  | .min => .method .min [o.table, o.columns, o.wheres] [("join", o.join)] rfl
  | .sum => .method .sum [o.table, o.columns, o.wheres] [("join", o.join)] rfl

theorem Operation.action_call (db : Database σ τ) (o : Operation) :
    o.call.action db = db.run o := by
  obtain ⟨kind, table, columns, wheres, join⟩ := o
  cases kind <;> rfl

/-! On the calling thread, and on workers. -/

namespace Database

variable {db : Database σ τ} {s : DatabaseState σ τ}

theorem inTransaction_run (s : DatabaseState σ τ) :
    (ExceptT.run (inTransaction : Action σ τ Bool)).run s = (.ok s.thread.inTransaction, s) := rfl

/-- Operations that are not handed to workers are a program. -/
theorem parallel_here {operations : List Operation} {concurrent : Bool}
    (h : concurrent = false ∨ operations.length < 2 ∨ s.thread.inTransaction = true) :
    (ExceptT.run (db.parallel operations concurrent)).run s =
      (Program.together (operations.map fun o => .call o.call)).run (SingleCall.action db) s := by
  have hactions : (operations.map fun o => Program.call o.call).map
      (Program.action (SingleCall.action db)) = operations.map db.run := by
    rw [List.map_map]
    exact List.map_congr_left fun o _ => o.action_call db
  have hhere : (!concurrent || decide (operations.length < 2) || s.thread.inTransaction) = true := by
    rcases h with rfl | hlength | hopen
    · rfl
    · rw [decide_eq_true hlength, Bool.or_true, Bool.true_or]
    · rw [hopen, Bool.or_true]
  rw [Program.run, Program.action_together, hactions, parallel]
  dsimp only
  rw [run_bind_ok (inTransaction_run s), if_pos hhere]

theorem batch_here {programs : List (Program SingleCall Reply)}
    (h : programs = [] ∨ s.thread.inTransaction = true) :
    (ExceptT.run (db.batch (programs.map (Program.action (SingleCall.action db))))).run s =
      (Program.together programs).run (SingleCall.action db) s := by
  rw [Program.run, Program.action_together, batch]
  rcases h with rfl | hopen
  · rfl
  · split_ifs with hempty
    · rw [List.isEmpty_iff.mp hempty]
      rfl
    · rw [run_bind_ok (inTransaction_run s), if_pos hopen]

end Database

/-- The state with no dry run pending. -/
def DatabaseState.withoutDryRun (s : DatabaseState σ τ) : DatabaseState σ τ :=
  { s with thread := { s.thread with dryRun := false } }

namespace Database

variable {db : Database σ τ} {s : DatabaseState σ τ}

/-- An action ends as it does without a dry run, and leaves the calling thread what it was. -/
def Apart (m : Action σ τ α) (s : DatabaseState σ τ) : Prop :=
  let without := (ExceptT.run m).run s.withoutDryRun
  (ExceptT.run m).run s = (without.1, { without.2 with thread := s.thread })

/-- What is made of an action on a new thread is made apart from the calling thread. -/
theorem apart_onNewThread (db : Database σ τ) (m : Action σ τ α) (f : α → Reply)
    (s : DatabaseState σ τ) :
    Apart (do return f (← db.onNewThread m) : Action σ τ Reply) s := by
  rcases hrun : (ExceptT.run m).run { s with thread := db.newThread s.thread } with ⟨result, u⟩
  have hs : (ExceptT.run (db.onNewThread m)).run s = (result, { u with thread := s.thread }) :=
    onNewThread_run hrun
  have hwithout : (ExceptT.run (db.onNewThread m)).run s.withoutDryRun =
      (result, { u with thread := s.withoutDryRun.thread }) := onNewThread_run hrun
  rw [Apart, ExceptT.run_bind, StateT.run_bind, StateT.run_bind, hs, hwithout]
  cases result with
  | ok a => rfl
  | error f => rfl

theorem apart_onWorker (db : Database σ τ) (actions : List (Action σ τ Reply))
    (s : DatabaseState σ τ) :
    Apart (do return Reply.list (← db.onWorker actions) : Action σ τ Reply) s :=
  apart_onNewThread db _ Reply.list s

theorem apart_parallel {operations : List Operation} (hlength : 2 ≤ operations.length)
    (hclosed : s.thread.inTransaction = false) : Apart (db.parallel operations true) s := by
  have hthere : ∀ u : DatabaseState σ τ, u.thread.inTransaction = false →
      (ExceptT.run (db.parallel operations true)).run u =
        (ExceptT.run (do return Reply.list (← db.onWorker (operations.map db.run)) :
          Action σ τ Reply)).run u := by
    intro u hu
    rw [parallel]
    dsimp only
    rw [run_bind_ok (inTransaction_run u), if_neg (by simp [hu]; omega)]
  have hworker := apart_onWorker db (operations.map db.run) s
  rw [Apart, ← hthere s hclosed, ← hthere s.withoutDryRun hclosed] at hworker
  exact hworker

theorem apart_batch {actions : List (Action σ τ Reply)} (hne : actions ≠ [])
    (hclosed : s.thread.inTransaction = false) : Apart (db.batch actions) s := by
  have hthere : ∀ u : DatabaseState σ τ, u.thread.inTransaction = false →
      (ExceptT.run (db.batch actions)).run u =
        (ExceptT.run (do return Reply.list (← db.onWorker actions) : Action σ τ Reply)).run u := by
    intro u hu
    rw [batch, if_neg (by simpa using hne), run_bind_ok (inTransaction_run u), if_neg (by simp [hu])]
  have hworker := apart_onWorker db actions s
  rw [Apart, ← hthere s hclosed, ← hthere s.withoutDryRun hclosed] at hworker
  exact hworker

end Database

/-! Selections in chunks. -/

namespace Database

variable {db : Database σ τ} {s : DatabaseState σ τ} {table columns wheres join size atOnce : Value}

theorem run_lift_bind {β : Type} (r : Except Fault α) (k : α → Action σ τ β)
    (s : DatabaseState σ τ) :
    (ExceptT.run (lift r >>= k)).run s =
      match r with
      | .ok a => (ExceptT.run (k a)).run s
      | .error f => (.error f, s) := by
  cases r <;> rfl

/-- What a selection in chunks asks of its arguments before it counts rows: both sizes are one at
least, and the rows are told by entries. -/
def chunkEntries (wheres size atOnce : Value) : Except Fault Dict := do
  if ← size.less (.int 1) then throw .badValue
  if ← atOnce.less (.int 1) then throw .badValue
  whereEntries wheres

/-- The count of the rows that match some entries, as a call in a state. -/
def countCall (table join : Value) (entries : Dict) (s : DatabaseState σ τ) :
    Made SingleCall σ τ :=
  ⟨(Operation.mk .count table .null (.dict entries) join).call, s⟩

/-- The count of the rows that a selection in chunks selects, in whatever order. -/
def chunksCount (table join : Value) (entries : Dict) (s : DatabaseState σ τ) :
    Made SingleCall σ τ :=
  countCall table join (Assoc.erase (.str Tail.limitKey) (Assoc.erase (.str Tail.orderKey) entries)) s

/-- What a selection in chunks does once it has asked for the number of rows. -/
def afterCount (db : Database σ τ) (table columns wheres join size : Value) (entries : Dict)
    (counted : Reply) : Action σ τ Reply := do
  let counted ← lift (valueOf counted)
  let total := if counted.truthy then counted else .int 0
  if ← lift (total.atMost size) then
    db.select table columns wheres join
  else
    let limits ← lift (chunkLimits total size)
    let selections := limits.map fun limit =>
      db.select table columns (.dict (Assoc.insert (.str Tail.limitKey) limit entries)) join
    let replies ← if ← inTransaction then inOrder selections else db.onWorker selections
    let parts ← lift (replies.mapM valueOf)
    return .value (← lift (joinParts parts))

theorem selectInChunks_checked :
    db.selectInChunks table columns wheres join size atOnce = (do
      let entries ← lift (chunkEntries wheres size atOnce)
      let base := Assoc.erase (.str Tail.limitKey) (Assoc.erase (.str Tail.orderKey) entries)
      let counted ← db.aggregate AggregateFunction.count.name table .null (.dict base) join
      db.afterCount table columns wheres join size entries counted) := by
  unfold selectInChunks chunkEntries
  cases size.less (.int 1) with
  | error f => rfl
  | ok small =>
  cases small with
  | true => rfl
  | false =>
  cases atOnce.less (.int 1) with
  | error f => rfl
  | ok none =>
  cases none with
  | true => rfl
  | false =>
  cases whereEntries wheres with
  | error f => rfl
  | ok entries => rfl

/-- A selection in chunks is refused, or counts its rows and goes on from there. -/
theorem selectInChunks_run (s : DatabaseState σ τ) :
    (ExceptT.run (db.selectInChunks table columns wheres join size atOnce)).run s =
      match chunkEntries wheres size atOnce with
      | .error f => (.error f, s)
      | .ok entries =>
          let count := chunksCount table join entries s
          match count.reply (SingleCall.action db) with
          | .error f => (.error f, count.after (SingleCall.action db))
          | .ok counted =>
              (ExceptT.run (db.afterCount table columns wheres join size entries counted)).run
                (count.after (SingleCall.action db)) := by
  rw [selectInChunks_checked, run_lift_bind]
  cases chunkEntries wheres size atOnce with
  | error f => rfl
  | ok entries =>
  let count := chunksCount table join entries s
  have hcount : (ExceptT.run (count.call.action db)).run s =
      (count.reply (SingleCall.action db), count.after (SingleCall.action db)) := rfl
  change (ExceptT.run (count.call.action db >>=
    db.afterCount table columns wheres join size entries)).run s = _
  rw [ExceptT.run_bind, StateT.run_bind, hcount]
  change _ = match count.reply (SingleCall.action db) with
    | .error f => (Except.error f, count.after (SingleCall.action db))
    | .ok counted => _
  cases count.reply (SingleCall.action db) with
  | error f => rfl
  | ok counted => rfl

/-- With a dry run pending, a count is refused, or diverted with a statement that selects. -/
theorem happening_chunksCount (hpending : s.thread.dryRun = true) (entries : Dict) :
    (∃ f, (chunksCount table join entries s).happening db = .refused f) ∨
      ∃ sql params rest, (chunksCount table join entries s).happening db = .diverted sql params ∧
        sql.toList = 'S' :: rest := by
  let base := Assoc.erase (.str Tail.limitKey) (Assoc.erase (.str Tail.orderKey) entries)
  let step := Statement.aggregate db.target AggregateFunction.count.name table .null (.dict base) join
  have hcall : (chunksCount table join entries s).happening db =
      ((Clerk.ofState s).compile db step false).1 := rfl
  rw [hcall, Clerk.compile, Statement.run]
  rcases hrun : (ExceptT.run step).run (Parameters.start s.next) with ⟨f | c, u⟩
  · exact .inl ⟨f, by rw [Clerk.ofState, hrun]⟩
  · obtain ⟨rest, hrest⟩ := Statement.text_aggregate ⟨hrun⟩
    refine .inr ⟨c.text, c.paramsDict, rest, ?_, hrest⟩
    rw [Clerk.ofState, hrun]
    exact Clerk.reach_pending hpending

/-- A statement that begins with a letter is shown as a text that is not empty. -/
theorem ne_empty_of_generate {sql text : String} {params : Dict} {rest : List Char}
    (hsql : sql.toList = 'S' :: rest) (h : db.generate sql params = .ok text) : text ≠ "" := by
  have hname : Placeholder.name? ('S' :: rest) = none := rfl
  have hparts : Binding.parts db.dialect.backslashEscapes params sql = .text ['S'] ::
      Binding.parts db.dialect.backslashEscapes params (String.ofList rest) := by
    rw [Binding.parts, hsql, Lexer.spans_of_code rfl hname, Binding.parts, String.toList_ofList]
    rfl
  rw [generate, Binding.inline_literal] at h
  split_ifs at h
  cases h
  rw [hparts, List.map_cons, String.join_cons]
  intro hempty
  simpa [Binding.Part.written] using congrArg String.toList hempty

/-- No text is a number of rows. -/
theorem afterCount_text {text : String} (htext : text ≠ "") (entries : Dict)
    (s : DatabaseState σ τ) :
    (ExceptT.run (db.afterCount table columns wheres join size entries (.value (.str text)))).run
      s = (.error .wrongKind, s) := by
  have htruthy : (Value.str text).truthy = true := by
    simpa [Value.truthy] using htext
  have hatMost : (Value.str text).atMost size = .error .wrongKind := rfl
  unfold afterCount
  rw [run_lift_bind]
  dsimp only [valueOf]
  rw [if_pos htruthy, hatMost]
  rfl

/-- Nothing is selected after a count that replies with its statement. -/
theorem selectInChunks_diverted {entries : Dict} {sql : String} {params : Dict} {rest : List Char}
    (hentries : chunkEntries wheres size atOnce = .ok entries) (hsql : sql.toList = 'S' :: rest)
    (hreply : (chunksCount table join entries s).reply (SingleCall.action db) =
      (db.generate sql params).map fun text => .value (.str text)) :
    (ExceptT.run (db.selectInChunks table columns wheres join size atOnce)).run s =
      ((db.generate sql params).bind fun _ => .error .wrongKind,
        (chunksCount table join entries s).after (SingleCall.action db)) := by
  rw [selectInChunks_run, hentries]
  dsimp only
  rw [hreply]
  cases hshown : db.generate sql params with
  | error f => rfl
  | ok text => exact afterCount_text (ne_empty_of_generate hsql hshown) entries _

/-- A selection in chunks that is made with a dry run pending asks the executor for nothing. It is
refused for its arguments; or its count is refused, which leaves the dry run pending; or its count takes
the dry run and replies with its statement. No chunk is selected then: a text is compared with the size
of the chunks, which is no comparison. -/
def CountTakesDryRun (db : Database σ τ) (s : DatabaseState σ τ)
    (table columns wheres join size atOnce : Value) : Prop :=
  let act := SingleCall.action db
  let ended := (ExceptT.run (db.selectInChunks table columns wheres join size atOnce)).run s
  (ended.2.shared, ended.2.thread.part) = (s.shared, s.thread.part) ∧
    match chunkEntries wheres size atOnce with
    | .error f => ended = (.error f, s)
    | .ok entries =>
        let count := chunksCount table join entries s
        ended.2 = count.after act ∧
          ((∃ f, count.happening db = .refused f ∧ ended.1 = .error f ∧
              ended.2.thread.dryRun = true) ∨
            ∃ sql params, count.happening db = .diverted sql params ∧
              count.reply act = (db.generate sql params).map (fun text => .value (.str text)) ∧
              ended.2.thread.dryRun = false ∧
              ended.1 = (db.generate sql params).bind fun _ => .error .wrongKind)

theorem countTakesDryRun (hpending : s.thread.dryRun = true) :
    db.CountTakesDryRun s table columns wheres join size atOnce := by
  unfold CountTakesDryRun
  dsimp only
  cases hentries : chunkEntries wheres size atOnce with
  | error f =>
      rw [selectInChunks_run, hentries]
      exact ⟨rfl, rfl⟩
  | ok entries =>
  obtain ⟨hends, hexecutor, hdryRun⟩ := (chunksCount table join entries s).told db
  rcases @happening_chunksCount _ _ db _ table join hpending entries with
    ⟨f, hrefused⟩ | ⟨sql, params, rest, hdiverted, hsql⟩
  · rw [hrefused] at hends hexecutor hdryRun
    have hreply : (chunksCount table join entries s).reply (SingleCall.action db) = .error f := hends
    rw [selectInChunks_run, hentries]
    dsimp only
    rw [hreply]
    exact ⟨hexecutor, rfl, .inl ⟨f, hrefused, rfl, hdryRun.trans hpending⟩⟩
  · rw [hdiverted] at hends hexecutor hdryRun
    rw [selectInChunks_diverted hentries hsql hends]
    exact ⟨hexecutor, rfl, .inr ⟨sql, params, hdiverted, hends, hdryRun, rfl⟩⟩

end Database

namespace Program

/-- A state with a dry run pending. In every program on the calling thread, the first statement that
reaches execution is the reply of its call, with its values written in, which succeeds if all of them
have texts; the executor is not asked for it, no dry run is pending afterwards, and until one is asked
for again the executor is asked for the later statements. Pipelines are programs, and so is what runs in
order: operations that are not to run at once, are fewer than two, or run in a transaction, and a batch
in a transaction. What runs on workers ends as it does without the dry run, which stays pending on the
calling thread. A selection in chunks has its count taken and selects nothing. -/
theorem dry_run_takes_first_statement (db : Database σ τ) {s : DatabaseState σ τ}
    (hpending : s.thread.dryRun = true) :
    let act := SingleCall.action db
    (∀ {α : Type} (program : Program SingleCall α) (before after : List (Made SingleCall σ τ))
        (x : Made SingleCall σ τ), program.made act s = before ++ x :: after →
      (∀ y ∈ before, ¬ y.Reaches db) → x.Reaches db →
      (∃ sql params, x.happening db = .diverted sql params ∧
        x.reply act = (db.generate sql params).map (fun text => .value (.str text)) ∧
        ((∀ entry ∈ params, entry.2.hasText = true) →
          ∃ text, db.generate sql params = .ok text)) ∧
      ((x.after act).shared, (x.after act).thread.part) = (x.before.shared, x.before.thread.part) ∧
      (x.after act).thread.dryRun = false ∧
      ∀ (middle more : List (Made SingleCall σ τ)) (z : Made SingleCall σ τ),
        after = middle ++ z :: more → (∀ y ∈ middle, y.happening db ≠ .asked) → z.Reaches db →
        ∃ i, z.happening db = .issued i ∧
          ((z.after act).shared, (z.after act).thread.part) =
            (Happening.issued i).onExecutor db (z.before.shared, z.before.thread.part)) ∧
    (∀ reply stages, (pipeline reply stages).action act =
      Database.pipeline reply (stages.map fun stage reply => (stage reply).action act)) ∧
    (∀ operations concurrent,
      concurrent = false ∨ operations.length < 2 ∨ s.thread.inTransaction = true →
      (ExceptT.run (db.parallel operations concurrent)).run s =
        (together (operations.map fun o => .call o.call)).run act s) ∧
    (∀ programs : List (Program SingleCall Reply), programs = [] ∨ s.thread.inTransaction = true →
      (ExceptT.run (db.batch (programs.map (action act)))).run s =
        (together programs).run act s) ∧
    (s.thread.inTransaction = false →
      (∀ operations : List Operation, 2 ≤ operations.length →
        Database.Apart (db.parallel operations true) s) ∧
      ∀ actions : List (Action σ τ Reply), actions ≠ [] → Database.Apart (db.batch actions) s) ∧
    ∀ table columns wheres join size atOnce,
      db.CountTakesDryRun s table columns wheres join size atOnce := by
  intro act
  refine ⟨fun program before after x hmade hbefore hx => ?_, action_pipeline,
    fun _ _ => Database.parallel_here, fun _ => Database.batch_here, fun hclosed =>
      ⟨fun _ hlength => Database.apart_parallel hlength hclosed,
        fun _ hne => Database.apart_batch hne hclosed⟩,
    fun _ _ _ _ _ _ => Database.countTakesDryRun hpending⟩
  have hchain : Made.Chain act s (before ++ x :: after) _ := hmade ▸ chain_made program s
  obtain ⟨t, hfirst, hrest⟩ := hchain.of_append
  cases hrest with
  | cons _ hlater =>
      have hpendingx : x.before.thread.dryRun = true := hfirst.stays_pending hpending hbefore
      obtain ⟨sql, params, hdiverted⟩ := Made.diverted_of_pending hpendingx hx
      obtain ⟨hends, hexecutor, hclear⟩ := x.told db
      rw [hdiverted] at hends hexecutor hclear
      refine ⟨⟨sql, params, hdiverted, hends, Database.exists_generate db⟩, hexecutor, hclear, ?_⟩
      rintro middle more z rfl hmiddle hz
      obtain ⟨u, hmade, hlast⟩ := hlater.of_append
      cases hlast with
      | cons _ _ =>
          obtain ⟨i, hissued⟩ := Made.issued_of_clear (hmade.stays_clear hclear hmiddle) hz
          refine ⟨i, hissued, ?_⟩
          rw [← hissued]
          exact (z.told db).2.1

end Program

/-! Two counts. -/

/-- An executor that writes down the statements it is asked for, and counts three rows. -/
def Executor.counting : Executor (List String) Unit where
  execute sql _ := do
    modify fun (asked, part) => (asked ++ [sql], part)
    return ⟨[[(.str "count", .int 3)]], .int 1, .null⟩
  begin := pure ()
  commit := pure ()
  rollback := pure ()
  close := pure ()
  newThread := ()

def Database.counting : Database (List String) Unit :=
  ⟨⟨"sqlite", "", false, 100⟩, .sqlite, some .counting, Json.usualNesting⟩

def Operation.count (table : String) : Operation := ⟨.count, .str table, .null, .null, .null⟩

/-- A new database right after a dry run was asked for. -/
def Database.asked : DatabaseState (List String) Unit :=
  { Database.start [] () with thread := ⟨true, false, ()⟩ }

theorem Program.dry_run_takes_first_statement_of_counts :
    let act := SingleCall.action Database.counting
    let counts := [Operation.count "users", Operation.count "posts"]
    let users : Made SingleCall (List String) Unit :=
      ⟨(Operation.count "users").call, Database.asked⟩
    (∃ after, (together (counts.map fun o => .call o.call)).made act Database.asked =
      users :: after) ∧
      users.reply act = .ok (.value (.str "SELECT COUNT(*) FROM \"users\"")) ∧
      (users.after act).shared = [] ∧ (users.after act).thread.dryRun = false ∧
      (ExceptT.run (Database.counting.parallel counts false)).run Database.asked =
        (together (counts.map fun o => .call o.call)).run act Database.asked ∧
      Database.counting.CountTakesDryRun Database.asked (.str "users") (.str "*") .null .null
        (.int 1000) (.int 5) := by
  intro act counts users
  have hpending : Database.asked.thread.dryRun = true := rfl
  obtain ⟨after, hmade⟩ := made_together_call (σ := List String) (Operation.count "users").call
    [.call (Operation.count "posts").call] Database.asked
  have hreaches : users.Reaches Database.counting := by
    unfold Made.Reaches
    decide +kernel
  have htakes := dry_run_takes_first_statement Database.counting hpending
  have hsplit := hmade.trans (List.nil_append _).symm
  have hfirst := htakes.1 _ [] after users hsplit (fun y hy => absurd hy List.not_mem_nil) hreaches
  have hasked : (users.after act).shared = [] := congrArg Prod.fst hfirst.2.1
  have hreply : users.reply act = .ok (.value (.str "SELECT COUNT(*) FROM \"users\"")) := by
    obtain ⟨sql, params, hdiverted, hshown, -⟩ := hfirst.1
    have hcount : users.happening Database.counting =
        .diverted "SELECT COUNT(*) FROM \"users\"" [] := rfl
    obtain ⟨rfl, rfl⟩ := Happening.diverted.inj (hcount.symm.trans hdiverted)
    have hgenerated : Database.counting.generate "SELECT COUNT(*) FROM \"users\"" [] =
        .ok "SELECT COUNT(*) FROM \"users\"" :=
      Binding.inline_literal.trans ((if_pos (by decide +kernel)).trans
        (congrArg Except.ok (by decide +kernel)))
    rw [hshown, hgenerated]
    rfl
  exact ⟨⟨after, hmade⟩, hreply, hasked, hfirst.2.2.1, htakes.2.2.1 counts false (.inl rfl),
    htakes.2.2.2.2.2 _ _ _ _ _ _⟩

/-- A selection in chunks right after a dry run was asked for fails, with nothing asked for. -/
example :
    let ended := (ExceptT.run (Database.counting.selectInChunks (.str "users") (.str "*") .null .null
      (.int 1000) (.int 5))).run Database.asked
    ended.1.toOption.isNone ∧ ended.2.shared = [] ∧ ended.2.thread.dryRun = false := by
  decide +kernel

/-- Workers do not see the dry run: both statements reach the executor, and the dry run stays pending. -/
theorem Database.dry_run_not_seen_by_workers :
    let ended := (ExceptT.run (Database.counting.parallel
      [Operation.count "users", Operation.count "posts"] true)).run Database.asked
    ended.2.shared = ["SELECT COUNT(*) FROM \"users\"", "SELECT COUNT(*) FROM \"posts\""] ∧
      ended.2.thread.dryRun = true := by
  decide +kernel

end QueryLoom
