import QueryLoom.Proofs.Runs.Keeping
import QueryLoom.Proofs.Statement.OneRow

/-!
The first row of a selection next to a selection of one row. Both verbs issue the same statement; the
first takes the first row of whatever is answered and maps it alone, the second maps all rows. So it gives
the one element of what the second gives where nothing but the first row is answered.
-/

namespace QueryLoom

variable {σ τ α β γ δ : Type}

/-! One row of a result. -/

namespace Shape

variable {nesting : Nat}

/-- The object of a row, or its value if there is one column. -/
def mapFirst (nesting : Nat) (tree : ColumnTree) (row : Row) : Mapping Value :=
  if tree.isSingle then mapValue nesting tree row else mapRow nesting tree row

/-- The value of a row as the only one of a result: in a list, or under its index. -/
def alone (tree : ColumnTree) (row : Row) (v : Value) : Value :=
  match tree with
  | .indexed key _ => .dict [(Dict.getD row (ColumnTree.lastSegment key), v)]
  | _ => .list [v]

/-- A row whose index value, if rows are found under one, can be a key. -/
def HasIndex (tree : ColumnTree) (row : Row) : Prop :=
  ∀ key children, tree = .indexed key children →
    (Dict.getD row (ColumnTree.lastSegment key)).isHashable = true

/-- The rows of a result of one row. -/
theorem mapRows_alone {tree : ColumnTree} {row : Row} (h : HasIndex tree row) :
    mapRows nesting tree [row] = (do return alone tree row (← mapFirst nesting tree row)) := by
  cases tree with
  | everything => rfl
  | single ref => simp [mapRows, mapEach, mapFirst, ColumnTree.isSingle, alone]
  | indexed key children =>
      have hkey := h key children rfl
      simp [mapRows, mapIndexed, mapFirst, ColumnTree.isSingle, alone, hkey, Assoc.insert]
  | columns nodes => simp [mapRows, mapEach, mapFirst, ColumnTree.isSingle, alone]

/-- What is made of the result of a mapping leaves its notes as they are. -/
theorem run_map (m : Mapping α) (f : α → β) :
    run (do return f (← m)) = ((run m).1.map f, (run m).2) := by
  rw [run, ExceptT.run_bind, StateT.run_bind]
  change _ = (((ExceptT.run m).run []).1.map f, ((ExceptT.run m).run []).2)
  rcases (ExceptT.run m).run [] with ⟨_ | a, notes⟩ <;> rfl

theorem hasIndex_of_forall {row : Row} (h : ∀ entry ∈ row, entry.2.isHashable = true)
    (tree : ColumnTree) : HasIndex tree row := by
  intro key _ _
  induction row with
  | nil => rfl
  | cons entry rest ih =>
      rw [List.forall_mem_cons] at h
      rw [Dict.getD_cons]
      split_ifs
      · exact h.1
      · exact ih h.2

end Shape

/-- What is given for a row, next to what is given for all rows of a result that has no other: the only
element. A dry run gives the same text for both. -/
inductive Reply.OneOf (dry : Bool) : Reply → Reply → Prop
  | text (h : dry = true) (t : String) : OneOf dry (.value (.str t)) (.value (.str t))
  | row (h : dry = false) (v : Value) : OneOf dry (.value v) (.value (.list [v]))
  | entry (h : dry = false) (key v : Value) : OneOf dry (.value v) (.value (.dict [(key, v)]))

theorem Reply.OneOf.alone (tree : ColumnTree) (row : Row) (v : Value) :
    Reply.OneOf false (.value v) (.value (Shape.alone tree row v)) := by
  cases tree with
  | indexed key children => exact .entry rfl _ v
  | _ => exact .row rfl v

/-! Actions beside each other. -/

/-- States that differ in their journals at most. -/
def DatabaseState.SameButJournal (s t : DatabaseState σ τ) : Prop :=
  ∃ journal, t = { s with journal := journal }

namespace Action

/-- The same fault, or related results. -/
def Paired (R : α → β → Prop) (x : Except Fault α) (y : Except Fault β) : Prop :=
  (∃ f, x = .error f ∧ y = .error f) ∨ ∃ a b, x = .ok a ∧ y = .ok b ∧ R a b

theorem Paired.refl (x : Except Fault α) : Paired Eq x x := by
  cases x with
  | error f => exact .inl ⟨f, rfl, rfl⟩
  | ok a => exact .inr ⟨a, a, rfl, rfl, rfl⟩

/-- The first action from the first state and the second one from the second fail with the same fault
or give related results, and leave states that differ in their journals at most. -/
def Beside (R : α → β → Prop) (s t : DatabaseState σ τ) (m : Action σ τ α) (n : Action σ τ β) :
    Prop :=
  ∃ x y u v, (ExceptT.run m).run s = (x, u) ∧ (ExceptT.run n).run t = (y, v) ∧
    u.SameButJournal v ∧ Paired R x y

namespace Beside

variable {R : α → β → Prop} {S : γ → δ → Prop} {s t : DatabaseState σ τ} {m : Action σ τ α}
  {n : Action σ τ β}

theorem pure {a : α} {b : β} (hst : s.SameButJournal t) (h : R a b) :
    Beside R s t (Pure.pure a) (Pure.pure b) :=
  ⟨_, _, s, t, rfl, rfl, hst, .inr ⟨a, b, rfl, rfl, h⟩⟩

theorem throw (hst : s.SameButJournal t) (f : Fault) :
    Beside R s t (MonadExcept.throw f) (MonadExcept.throw f) :=
  ⟨_, _, s, t, rfl, rfl, hst, .inl ⟨f, rfl, rfl⟩⟩

theorem lift {x : Except Fault α} {y : Except Fault β} (hst : s.SameButJournal t)
    (h : Paired R x y) : Beside R s t (Database.lift x) (Database.lift y) := by
  obtain ⟨f, rfl, rfl⟩ | ⟨a, b, rfl, rfl, hab⟩ := h
  · exact throw hst f
  · exact pure hst hab

/-- What goes on from results. -/
theorem after {u v : DatabaseState σ τ} {a : α} {b : β} {k : α → Action σ τ γ}
    {l : β → Action σ τ δ} (hm : (ExceptT.run m).run s = (.ok a, u))
    (hn : (ExceptT.run n).run t = (.ok b, v)) (h : Beside S u v (k a) (l b)) :
    Beside S s t (m >>= k) (n >>= l) := by
  obtain ⟨x, y, u', v', hk, hl, hrest⟩ := h
  exact ⟨x, y, u', v', (Database.run_bind_ok hm).trans hk, (Database.run_bind_ok hn).trans hl, hrest⟩

theorem failed {u v : DatabaseState σ τ} {f : Fault} {k : α → Action σ τ γ} {l : β → Action σ τ δ}
    (hm : (ExceptT.run m).run s = (.error f, u)) (hn : (ExceptT.run n).run t = (.error f, v))
    (huv : u.SameButJournal v) : Beside S s t (m >>= k) (n >>= l) :=
  ⟨.error f, .error f, u, v, Database.run_bind_error hm, Database.run_bind_error hn, huv,
    .inl ⟨f, rfl, rfl⟩⟩

theorem bind {k : α → Action σ τ γ} {l : β → Action σ τ δ} (h : Beside R s t m n)
    (hk : ∀ u v a b, u.SameButJournal v → R a b → Beside S u v (k a) (l b)) :
    Beside S s t (m >>= k) (n >>= l) := by
  obtain ⟨x, y, u, v, hm, hn, huv, ⟨f, rfl, rfl⟩ | ⟨a, b, rfl, rfl, hab⟩⟩ := h
  · exact failed hm hn huv
  · exact after hm hn (hk u v a b huv hab)

theorem attempt (h : Beside R s t m n) :
    Beside (Paired R) s t (Database.attempt m) (Database.attempt n) := by
  obtain ⟨x, y, u, v, hm, hn, huv, hxy⟩ := h
  exact ⟨.ok x, .ok y, u, v, congrArg (Prod.map Except.ok id) hm,
    congrArg (Prod.map Except.ok id) hn, huv, .inr ⟨x, y, rfl, rfl, hxy⟩⟩

/-- What goes on from the state. -/
theorem get {k : DatabaseState σ τ → Action σ τ α} {l : DatabaseState σ τ → Action σ τ β}
    (h : Beside R s t (k s) (l t)) : Beside R s t (MonadState.get >>= k) (MonadState.get >>= l) :=
  h

/-- What goes on after bookkeeping. -/
theorem modify {f g : DatabaseState σ τ → DatabaseState σ τ} {k : Unit → Action σ τ α}
    {l : Unit → Action σ τ β} (h : Beside R (f s) (g t) (k ()) (l ())) :
    Beside R s t (modify f >>= k) (modify g >>= l) :=
  h

/-- What goes on after notes, which may differ. -/
theorem report (hst : s.SameButJournal t) (note other : Note) {k : Unit → Action σ τ α}
    {l : Unit → Action σ τ β}
    (h : ∀ journal entries, Beside R { s with journal } { s with journal := entries } (k ()) (l ())) :
    Beside R s t (Database.report note >>= k) (Database.report other >>= l) := by
  obtain ⟨_, rfl⟩ := hst
  exact modify (h _ _)

end Beside

end Action

/-! The database that is answered with the first row alone. -/

/-- The executor that leaves of every result the first row alone. -/
def Executor.firstRowOnly (e : Executor σ τ) : Executor σ τ :=
  { e with
    execute := fun sql params => do
      let result ← e.execute sql params
      return { result with rows := result.rows.take 1 } }

namespace Database

open QueryLoom.Action Statement

/-- The same database on the executor that answers with the first row alone. -/
def firstRowOnly (db : Database σ τ) : Database σ τ :=
  { db with executor := db.executor.map Executor.firstRowOnly }

/-- What a statement gives, next to what it gives with the first row alone. -/
inductive Shortened (dry : Bool) (P : ExecutionResult → Prop) : Outcome → Outcome → Prop
  | statement (h : dry = true) (text : String) : Shortened dry P (.statement text) (.statement text)
  | result (h : dry = false) {r : ExecutionResult} (hr : P r) :
      Shortened dry P (.result r) (.result { r with rows := r.rows.take 1 })

variable {db : Database σ τ} {table columns wheres join : Value} {s t : DatabaseState σ τ}

/-- The result that the executor gives for a statement in a state without a pending dry run. -/
def Answers (db : Database σ τ) (s : DatabaseState σ τ) (sql : String) (params : Dict)
    (r : ExecutionResult) : Prop :=
  s.thread.dryRun = false ∧ ∃ e u, db.executor = some e ∧
    (ExceptT.run (e.execute sql params)).run (s.shared, s.thread.part) = (.ok r, u)

theorem compile_run_ok {step : Compile Compiled} {c : Compiled} {n : Nat}
    (h : Statement.run step s.next = (.ok c, n)) :
    ∃ journal, (ExceptT.run (compile step)).run s = (.ok c, { s with next := n, journal }) := by
  rw [run_compile, h]
  exact ⟨_, rfl⟩

theorem compile_run_error {step : Compile Compiled} {f : Fault} {n : Nat}
    (h : Statement.run step s.next = (.error f, n)) :
    (ExceptT.run (compile step)).run s = (.error f, { s with next := n }) := by
  rw [run_compile, h]
  rfl

/-- Both steps compile the same statement, with other notes. -/
theorem beside_compile {step other : Compile Compiled}
    (h : Compile.SideBySide Compiled.Same step other) (hst : s.SameButJournal t)
    {S : α → β → Prop} {k : Compiled → Action σ τ α} {l : Compiled → Action σ τ β}
    (hk : ∀ c d n journal entries, Statement.run step s.next = (.ok c, n) → c.Same d →
      Beside S { s with next := n, journal } { s with next := n, journal := entries } (k c) (l d)) :
    Beside S s t (compile step >>= k) (compile other >>= l) := by
  obtain ⟨journal, rfl⟩ := hst
  obtain ⟨x, y, u, hm, hn, hxy⟩ := h (Parameters.start s.next)
  have hstep : Statement.run step s.next = (x, u.next) := by
    rw [Statement.run, hm]
  have hother : Statement.run other s.next = (y, u.next) := by
    rw [Statement.run, hn]
  obtain ⟨f, rfl, rfl⟩ | ⟨c, d, rfl, rfl, hsame⟩ := hxy
  · exact .failed (compile_run_error hstep) (compile_run_error (s := { s with journal }) hother)
      ⟨journal, rfl⟩
  · obtain ⟨_, hcompiled⟩ := compile_run_ok hstep
    obtain ⟨_, hcompiled'⟩ := compile_run_ok (s := { s with journal }) hother
    exact .after hcompiled hcompiled' (hk c d u.next _ _ hstep hsame)

theorem beside_executorStep (hst : s.SameButJournal t) (e : Executor σ τ) (sql : String)
    (params : Dict) :
    Beside (fun r first => first = { r with rows := r.rows.take 1 } ∧ ∃ u,
        (ExceptT.run (e.execute sql params)).run (s.shared, s.thread.part) = (.ok r, u)) s t
      (executorStep (e.execute sql params)) (executorStep (e.firstRowOnly.execute sql params)) := by
  obtain ⟨journal, rfl⟩ := hst
  rcases hrun : (ExceptT.run (e.execute sql params)).run (s.shared, s.thread.part) with ⟨f | r, u⟩
  · have hfirst : (ExceptT.run (e.firstRowOnly.execute sql params)).run (s.shared, s.thread.part) =
        (.error f, u) := run_bind_error hrun
    exact ⟨_, _, _, _, executorStep_run hrun, executorStep_run hfirst, ⟨journal, rfl⟩,
      .inl ⟨f, rfl, rfl⟩⟩
  · have hfirst : (ExceptT.run (e.firstRowOnly.execute sql params)).run (s.shared, s.thread.part) =
        (.ok { r with rows := r.rows.take 1 }, u) := run_bind_ok hrun
    exact ⟨_, _, _, _, executorStep_run hrun, executorStep_run hfirst, ⟨journal, rfl⟩,
      .inr ⟨r, _, rfl, rfl, rfl, u, rfl⟩⟩

theorem beside_keepFault {R : α → β → Prop} (hst : s.SameButJournal t) (kept : Fault) (sql : String)
    (f : Fault) :
    Beside R s t (keepFault kept sql >>= fun _ => throw f) (keepFault kept sql >>= fun _ => throw f) := by
  obtain ⟨_, rfl⟩ := hst
  unfold keepFault
  rw [bind_assoc, bind_assoc]
  exact .modify (.report ⟨_, rfl⟩ _ _ fun _ _ => .throw ⟨_, rfl⟩ f)

/-- A statement is issued, or taken by a dry run, in the same way. -/
theorem beside_execute (hst : s.SameButJournal t) (sql : String) (params : Dict) :
    Beside (Shortened s.thread.dryRun (db.Answers s sql params)) s t (db.execute sql params)
      (db.firstRowOnly.execute sql params) := by
  obtain ⟨journal, rfl⟩ := hst
  unfold Database.execute
  refine .get ?_
  by_cases hdry : s.thread.dryRun = true
  · rw [if_pos hdry, if_pos hdry]
    -- the text does not depend on the executor, so that both have it or fail for want of it
    refine .modify ((Beside.lift ⟨_, rfl⟩ (Paired.refl (db.generate sql params))).bind ?_)
    rintro u v text _ huv rfl
    exact .report huv _ _ fun _ _ => .pure ⟨_, rfl⟩ (.statement hdry text)
  · rw [if_neg hdry, if_neg hdry]
    replace hdry : s.thread.dryRun = false := by simpa using hdry
    refine .modify ?_
    cases hexecutor : db.executor with
    | none =>
        have hnone : db.firstRowOnly.executor = none := by
          rw [firstRowOnly, hexecutor]
          rfl
        rw [hnone]
        exact beside_keepFault ⟨journal, rfl⟩ _ _ _
    | some e =>
        have hsome : db.firstRowOnly.executor = some e.firstRowOnly := by
          rw [firstRowOnly, hexecutor]
          rfl
        rw [hsome]
        refine .report ⟨journal, rfl⟩ _ _ fun _ _ => ?_
        refine (beside_executorStep ⟨_, rfl⟩ e sql params).attempt.bind ?_
        rintro u v x y huv (⟨f, rfl, rfl⟩ | ⟨r, _, rfl, rfl, rfl, w, hrun⟩)
        · cases f with
          | execution _ failed => exact beside_keepFault huv _ _ _
          | _ => exact .throw huv _
        · exact .pure huv (.result hdry ⟨hdry, e, w, hexecutor, hrun⟩)

/-- What is made of the result of a mapping. -/
theorem beside_mapping (hst : s.SameButJournal t) (m : Mapping α) (f : α → β) :
    Beside (fun a b => b = f a) s t (mapping m) (mapping (do return f (← m))) := by
  obtain ⟨journal, rfl⟩ := hst
  have hpaired : Paired (fun a b => b = f a) (Shape.run m).1 ((Shape.run m).1.map f) := by
    cases (Shape.run m).1 with
    | error fault => exact .inl ⟨fault, rfl, rfl⟩
    | ok a => exact .inr ⟨a, f a, rfl, rfl, rfl⟩
  unfold mapping
  rw [Shape.run_map]
  exact .modify (.lift ⟨_, rfl⟩ hpaired)

/-- What is made of the rows that are answered. -/
theorem beside_replies {nesting : Nat} (hst : s.SameButJournal t) (tree : ColumnTree) (rows : List Row) :
    (∃ row ∈ rows.head?, Shape.HasIndex tree row) → Beside (Reply.OneOf false) s t
      (match rows with
        | [] => pure (.value .null)
        | row :: _ => do
            return .value (← mapping (Shape.mapFirst nesting tree row)))
      (do return .value (← mapping (Shape.mapRows nesting tree (rows.take 1)))) := by
  rintro ⟨row, hrow, hindex⟩
  obtain ⟨rest, rfl⟩ := List.head?_eq_some_iff.mp hrow
  rw [List.take_succ_cons, List.take_zero, Shape.mapRows_alone hindex]
  refine (beside_mapping hst _ _).bind ?_
  rintro u v a _ huv rfl
  exact .pure huv (.alone tree row a)

/-- If the statement of a step is answered in a state, it is answered with a first row, whose index
value can be a key. -/
def AnswersRow (db : Database σ τ) (s : DatabaseState σ τ) (step : Compile Compiled) : Prop :=
  ∀ c n r, Statement.run step s.next = (.ok c, n) → db.Answers s c.text c.paramsDict r →
    ∃ row ∈ r.rows.head?, Shape.HasIndex (treeOf c) row

/-- The first row is the one element of what the selection of one row gives where nothing but the first
row is answered. -/
theorem beside_getFirst (hst : s.SameButJournal t) (hwheres : IsWheres wheres)
    (hrow : db.AnswersRow s (Statement.get db.target table columns wheres join)) :
    Beside (Reply.OneOf s.thread.dryRun) s t (db.getFirst table columns wheres join)
      (db.firstRowOnly.select table columns (withLimit (.int 1) wheres) join) := by
  refine beside_compile (get_sideBySide hwheres) hst fun c d n journal entries hc hsame => ?_
  have hexecute : Beside (Shortened s.thread.dryRun (db.Answers s c.text c.paramsDict))
      { s with next := n, journal } { s with next := n, journal := entries } (db.executeCompiled c)
      (db.firstRowOnly.executeCompiled d) := by
    have hparams : c.paramsDict = d.paramsDict := by
      rw [Compiled.paramsDict, Compiled.paramsDict, hsame.params]
    rw [executeCompiled, executeCompiled, ← hsame.text, ← hparams]
    exact beside_execute ⟨entries, rfl⟩ _ _
  have htree : treeOf d = treeOf c := by
    rw [treeOf, treeOf, hsame.columns]
  refine hexecute.bind fun u v outcome first huv hshort => ?_
  cases hshort with
  | statement hdry text => exact .pure huv (.text hdry text)
  | @result hdry r hanswer =>
      rw [replyWith, replyWith, htree, hdry]
      exact beside_replies huv _ _ (hrow c n r hc hanswer)

/-! An answer without rows. -/

/-- A statement that is answered. -/
theorem executeCompiled_run {c : Compiled} {r : ExecutionResult}
    (h : db.Answers s c.text c.paramsDict r) :
    ∃ t, (ExceptT.run (db.executeCompiled c)).run s = (.ok (.result r), t) := by
  obtain ⟨hdry, e, u, hexecutor, hrun⟩ := h
  have hget : (ExceptT.run (MonadState.get : Action σ τ (DatabaseState σ τ))).run s = (.ok s, s) :=
    rfl
  have hmodify : ∀ (f : DatabaseState σ τ → DatabaseState σ τ) t,
      (ExceptT.run (modify f : Action σ τ Unit)).run t = (.ok (), f t) := fun _ _ => rfl
  have hattempt : ∀ t : DatabaseState σ τ, (t.shared, t.thread.part) = (s.shared, s.thread.part) →
      (ExceptT.run (attempt (executorStep (e.execute c.text c.paramsDict)))).run t =
        (.ok (.ok r), { t with shared := u.1, thread := { t.thread with part := u.2 } }) := by
    intro t hparts
    rw [← hparts] at hrun
    exact congrArg (Prod.map Except.ok id) (executorStep_run hrun)
  unfold executeCompiled Database.execute remember report
  rw [hexecutor, run_bind_ok hget, if_neg (by simp [hdry]), run_bind_ok (hmodify _ _),
    run_bind_ok (hmodify _ _), ExceptT.run_bind, StateT.run_bind, hattempt]
  · exact ⟨_, rfl⟩
  · rfl

/-- Where no row is answered, there is no first one. -/
theorem getFirst_of_no_rows {c : Compiled} {n : Nat}
    (hcompile : Statement.run (Statement.get db.target table columns wheres join) s.next = (.ok c, n))
    {r : ExecutionResult} (hanswer : db.Answers s c.text c.paramsDict r) (hrows : r.rows = []) :
    ((ExceptT.run (db.getFirst table columns wheres join)).run s).1 = .ok (.value .null) := by
  obtain ⟨journal, hcompiled⟩ := compile_run_ok hcompile
  obtain ⟨t, hexecuted⟩ := executeCompiled_run (s := { s with next := n, journal }) hanswer
  rw [getFirst, run_bind_ok hcompiled, run_bind_ok hexecuted, replyWith, hrows]
  rfl

/-- A selection of the first row is a selection with its limit replaced by one. The same statement is
compiled, or refused with the same fault. The one issued gives null if no row is answered, and otherwise
the one element of what the other gives for the first row alone. -/
theorem getFirst_is_select_of_one (db : Database σ τ) (table columns join : Value)
    (hwheres : IsWheres wheres) :
    (∀ next,
      let got := Statement.run (Statement.get db.target table columns wheres join) next
      let selected := Statement.run
        (Statement.select db.target table columns (withLimit (.int 1) wheres) join) next
      got.2 = selected.2 ∧ Paired Compiled.Same got.1 selected.1) ∧
    ∀ s,
      (db.AnswersRow s (Statement.get db.target table columns wheres join) →
        let got := (ExceptT.run (db.getFirst table columns wheres join)).run s
        let selected := (ExceptT.run
          (db.firstRowOnly.select table columns (withLimit (.int 1) wheres) join)).run s
        got.2.SameButJournal selected.2 ∧
          Paired (Reply.OneOf s.thread.dryRun) got.1 selected.1) ∧
      ∀ c n r,
        Statement.run (Statement.get db.target table columns wheres join) s.next = (.ok c, n) →
        db.Answers s c.text c.paramsDict r → r.rows = [] →
        ((ExceptT.run (db.getFirst table columns wheres join)).run s).1 = .ok (.value .null) := by
  refine ⟨fun next => ?_, fun s => ⟨fun hrow => ?_, fun c n r hcompile hanswer hrows => ?_⟩⟩
  · have hbeside : Compile.SideBySide Compiled.Same (Statement.get db.target table columns wheres join)
        (Statement.select db.target table columns (withLimit (.int 1) wheres) join) :=
      get_sideBySide hwheres
    obtain ⟨x, y, u, hgot, hselected, hxy⟩ := hbeside (Parameters.start next)
    dsimp only
    rw [Statement.run, Statement.run, hgot, hselected]
    exact ⟨rfl, hxy⟩
  · obtain ⟨x, y, u, v, hgot, hselected, huv, hxy⟩ := beside_getFirst ⟨s.journal, rfl⟩ hwheres hrow
    dsimp only
    rw [hgot, hselected]
    exact ⟨huv, hxy⟩
  · exact getFirst_of_no_rows hcompile hanswer hrows

/-- An executor of a table of one row. -/
def holdingOne (row : Row) : Executor Unit Unit where
  execute _ _ := return ⟨[row], .int 1, .null⟩
  begin := return ()
  commit := return ()
  rollback := return ()
  close := return ()
  newThread := ()

/-- A name that is found under its index, with a limit of the caller's that is replaced. -/
theorem getFirst_is_select_of_one_of_index :
    let row : Row := [(.str "id", .int 7), (.str "name", .str "x")]
    let db : Database Unit Unit :=
      ⟨⟨"sqlite", "", false, 1000⟩, .sqlite, some (holdingOne row), Json.usualNesting⟩
    let columns : Value := .dict [(.str "id", .list [.str "name"])]
    let wheres : Value := .dict [(.str Tail.limitKey, .int 5)]
    let s : DatabaseState Unit Unit := Database.start () ()
    IsWheres wheres ∧ db.AnswersRow s (Statement.get db.target (.str "t") columns wheres .null) ∧
      let got := (ExceptT.run (db.getFirst (.str "t") columns wheres .null)).run s
      let selected := (ExceptT.run
        (db.firstRowOnly.select (.str "t") columns (withLimit (.int 1) wheres) .null)).run s
      Paired (Reply.OneOf false) got.1 selected.1 ∧
        got.1 = .ok (.value (.dict [(.str "name", .str "x")])) := by
  intro row db columns wheres s
  have hwheres : IsWheres wheres := .inr ⟨_, rfl⟩
  have hrow : db.AnswersRow s (Statement.get db.target (.str "t") columns wheres .null) := by
    rintro c n r - ⟨-, e, u, hexecutor, hrun⟩
    obtain rfl : holdingOne row = e := Option.some.inj hexecutor
    obtain rfl : ExecutionResult.mk [row] (.int 1) .null = r :=
      Except.ok.inj (congrArg Prod.fst hrun)
    exact ⟨row, rfl, Shape.hasIndex_of_forall (by decide) _⟩
  refine ⟨hwheres, hrow, (((getFirst_is_select_of_one db _ _ _ hwheres).2 s).1 hrow).2, ?_⟩
  with_unfolding_all rfl

end Database

end QueryLoom
