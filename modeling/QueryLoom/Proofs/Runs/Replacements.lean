import QueryLoom.Proofs.Runs.FirstRow
import QueryLoom.Proofs.Statement.Call

/-!
Replacements through a database. Whether there is anything to replace is decided twice: by the database,
which then issues nothing, and by the statement, which is refused then. Both agree wherever a column has
a replacement or all columns have dictionaries, so the database issues just the statement that is
compiled, or fails as its compilation does. A column whose replacements are no dictionary is only looked
at by the statement: next to columns without replacements it goes unnoticed.
-/

namespace QueryLoom

variable {σ τ : Type}

/-! What there is to replace. -/

/-- Every column has a dictionary of replacements. -/
def AreReplacements (columns : Dict) : Prop := ∀ e ∈ columns, ∃ pairs, e.2 = .dict pairs

/-- Some column has a replacement. -/
def HasReplacement (columns : Dict) : Prop := ∃ e ∈ columns, ∃ pairs, pairs ≠ [] ∧ e.2 = .dict pairs

/-- Every column has an empty dictionary of replacements. -/
def NothingToReplace (columns : Dict) : Prop := ∀ e ∈ columns, e.2 = .dict []

theorem NothingToReplace.not_hasReplacement {columns : Dict} (h : NothingToReplace columns) :
    ¬HasReplacement columns := by
  rintro ⟨e, he, pairs, hpairs, heq⟩
  rw [h e he] at heq
  exact hpairs (Value.dict.inj heq).symm

/-- Dictionaries without a replacement are empty. -/
theorem AreReplacements.nothingToReplace {columns : Dict} (h : AreReplacements columns)
    (hnone : ¬HasReplacement columns) : NothingToReplace columns := by
  intro e he
  obtain ⟨pairs, heq⟩ := h e he
  by_cases hpairs : pairs = []
  · rw [heq, hpairs]
  · exact absurd ⟨e, he, pairs, hpairs, heq⟩ hnone

/-! The statement. -/

namespace Statement

variable {t : Target} {p q : Parameters} {sets : List Sql} {columns : Dict}

/-- Replacements that are compiled are dictionaries, and there is an assignment if one of them is not
empty. -/
theorem yields_replacements (h : (replacements t columns).Yields p sets q) :
    AreReplacements columns ∧ (sets ≠ [] ↔ HasReplacement columns) := by
  induction columns generalizing p sets q with
  | nil =>
      simp only [replacements, Compile.yields_pure] at h
      simp [AreReplacements, HasReplacement, h.1]
  | cons entry rest ih =>
      obtain ⟨column, v⟩ := entry
      cases v with
      | dict pairs =>
          simp only [replacements, Compile.yields_bind, Compile.yields_pure] at h
          obtain ⟨_, _, -, _, _, -, more, _, hmore, rfl, -⟩ := h
          obtain ⟨hdicts, hsome⟩ := ih hmore
          refine ⟨List.forall_mem_cons.mpr ⟨⟨pairs, rfl⟩, hdicts⟩, ?_⟩
          have hrest : HasReplacement ((column, .dict pairs) :: rest) ↔
              pairs ≠ [] ∨ HasReplacement rest := by
            simp [HasReplacement]
          rw [hrest, ← hsome]
          cases pairs with
          | nil => simp
          | cons pair pairs => simp
      | _ => simp [replacements, malformed] at h

/-- A statement of replacements that is compiled replaces something, and has no column whose replacements
are no dictionary. -/
theorem replaces_of_run {table wheres : Value} {next n : Nat} {c : Compiled}
    (h : run (replace t table (.dict columns) wheres) next = (.ok c, n)) :
    AreReplacements columns ∧ HasReplacement columns := by
  obtain ⟨_, hyields, -⟩ := yields_of_run h
  simp only [replace, Compile.yields_bind] at hyields
  obtain ⟨sets, _, hsets, hrest⟩ := hyields
  obtain ⟨hdicts, hsome⟩ := yields_replacements hsets
  refine ⟨hdicts, hsome.mp ?_⟩
  rintro rfl
  simp at hrest

end Statement

/-! The database. -/

namespace Database

variable {db : Database σ τ} {table wheres : Value} {columns : Dict} {s : DatabaseState σ τ}

/-- What is given for a statement whose result is not mapped. -/
def Outcome.reply : Outcome → Reply
  | .result r => .result r
  | .statement text => .value (.str text)

/-- A call from a state ends as the compilation of its statement does, or as the execution of just this
statement. A fault of the compilation leaves everything but the counter as it was. -/
def Issues (db : Database σ τ) (s : DatabaseState σ τ) (compiled : Except Fault Compiled × Nat)
    (ended : Except Fault Reply × DatabaseState σ τ) : Prop :=
  match compiled with
  | (.error f, n) => ended = (.error f, { s with next := n })
  | (.ok c, n) => ∃ journal,
      let executed := (ExceptT.run (db.executeCompiled c)).run { s with next := n, journal }
      ended = (executed.1.map Outcome.reply, executed.2)

theorem Issues.ne_null {compiled : Except Fault Compiled × Nat}
    {ended : Except Fault Reply × DatabaseState σ τ} (h : db.Issues s compiled ended) :
    ended.1 ≠ .ok (.value .null) := by
  obtain ⟨f | c, n⟩ := compiled
  · obtain rfl := h
    exact nofun
  · obtain ⟨journal, rfl⟩ := h
    dsimp only
    rcases ((ExceptT.run (db.executeCompiled c)).run { s with next := n, journal }).1 with
      f | (r | text)
    · exact nofun
    · exact nofun
    · exact nofun

/-- A write issues the statement that its step compiles. -/
theorem issues_write (db : Database σ τ) (s : DatabaseState σ τ) (step : Compile Compiled) :
    db.Issues s (Statement.run step s.next) ((ExceptT.run (db.write step)).run s) := by
  rcases hrun : Statement.run step s.next with ⟨f | c, n⟩
  · exact run_bind_error (compile_run_error hrun)
  · obtain ⟨journal, hcompiled⟩ := compile_run_ok hrun
    refine ⟨journal, ?_⟩
    rw [write, run_bind_ok hcompiled]
    dsimp only
    rcases hexecuted : (ExceptT.run (db.executeCompiled c)).run { s with next := n, journal } with
      ⟨f | outcome, u⟩
    · exact run_bind_error hexecuted
    · rw [run_bind_ok hexecuted]
      cases outcome <;> rfl

/-- The test of the database finds the replacements. -/
theorem any_holdsReplacements_iff :
    (columns.any fun (_, v) => holdsReplacements v) = true ↔ HasReplacement columns := by
  have hholds : ∀ v, holdsReplacements v = true ↔ ∃ pairs, pairs ≠ [] ∧ v = .dict pairs := by
    intro v
    cases v with
    | dict pairs => simp [holdsReplacements]
    | _ => simp [holdsReplacements]
  simp only [List.any_eq_true, hholds, HasReplacement]

/-- Without a replacement nothing happens. -/
theorem replace_of_not_hasReplacement (h : ¬HasReplacement columns) :
    (ExceptT.run (db.replace table (.dict columns) wheres)).run s = (.ok (.value .null), s) := by
  rw [replace, if_neg (mt any_holdsReplacements_iff.mp h)]
  rfl

theorem replace_of_hasReplacement (h : HasReplacement columns) :
    db.replace table (.dict columns) wheres =
      db.write (Statement.replace db.target table (.dict columns) wheres) := by
  rw [replace, if_pos (any_holdsReplacements_iff.mpr h)]

/-- Where a column has a replacement or all columns have dictionaries: null is given exactly if every
column has an empty dictionary, and then nothing changes, and no such statement is compiled. In every
other case the statement that is compiled is issued, or the fault of its compilation is raised, which is
certain if the replacements of a column are no dictionary. -/
theorem replace_agrees_with_statement (db : Database σ τ) (table wheres : Value) {columns : Dict}
    (h : AreReplacements columns ∨ HasReplacement columns) (s : DatabaseState σ τ) :
    let compiled := Statement.run (Statement.replace db.target table (.dict columns) wheres) s.next
    let ended := (ExceptT.run (db.replace table (.dict columns) wheres)).run s
    (ended.1 = .ok (.value .null) ↔ NothingToReplace columns) ∧
    (NothingToReplace columns → ended.2 = s ∧ ∃ f, compiled.1 = .error f) ∧
    (¬NothingToReplace columns → db.Issues s compiled ended) ∧
    (¬AreReplacements columns → ∃ f, compiled.1 = .error f ∧ ended.1 = .error f) := by
  intro compiled ended
  have hrefused : ¬(AreReplacements columns ∧ HasReplacement columns) →
      ∃ f, compiled.1 = .error f := by
    intro hnot
    rcases hcompiled : compiled with ⟨f | c, n⟩
    · exact ⟨f, rfl⟩
    · exact absurd (Statement.replaces_of_run hcompiled) hnot
  by_cases hsome : HasReplacement columns
  · have hthing : ¬NothingToReplace columns := fun hnothing => hnothing.not_hasReplacement hsome
    have hissues : db.Issues s compiled ended := by
      have hwrite : ended = (ExceptT.run (db.write
          (Statement.replace db.target table (.dict columns) wheres))).run s := by
        simp only [ended, replace_of_hasReplacement hsome]
      rw [hwrite]
      exact issues_write db s _
    refine ⟨iff_of_false hissues.ne_null hthing, fun hnothing => absurd hnothing hthing,
      fun _ => hissues, fun hmalformed => ?_⟩
    obtain ⟨f, hf⟩ := hrefused fun hboth => hmalformed hboth.1
    refine ⟨f, hf, ?_⟩
    rcases hcompiled : compiled with ⟨f' | c, n⟩
    · rw [hcompiled] at hf hissues
      obtain rfl : f' = f := Except.error.inj hf
      exact congrArg Prod.fst hissues
    · rw [hcompiled] at hf
      cases hf
  · have hdicts : AreReplacements columns := h.resolve_right hsome
    have hended : ended = (.ok (.value .null), s) := replace_of_not_hasReplacement hsome
    have hnothing := hdicts.nothingToReplace hsome
    refine ⟨iff_of_true (congrArg Prod.fst hended) hnothing, fun _ => ⟨congrArg Prod.snd hended, ?_⟩,
      fun hnot => absurd hnothing hnot, fun hnot => absurd hdicts hnot⟩
    exact hrefused fun hboth => hsome hboth.2

/-- A column with replacements and one whose replacements are no dictionary. -/
theorem replace_agrees_with_statement_of_malformed :
    let db : Database Unit Unit :=
      ⟨⟨"sqlite", "", false, 1000⟩, .sqlite, none, Json.usualNesting⟩
    let columns : Dict := [(.str "body", .dict [(.str "a", .str "b")]), (.str "title", .str "x")]
    let s : DatabaseState Unit Unit := Database.start () ()
    (AreReplacements columns ∨ HasReplacement columns) ∧ ¬AreReplacements columns ∧
      ∃ f, ((ExceptT.run (db.replace (.str "posts") (.dict columns) .null)).run s).1 = .error f := by
  intro db columns s
  have hsome : HasReplacement columns := ⟨_, List.mem_cons_self, [(.str "a", .str "b")], nofun, rfl⟩
  have hmalformed : ¬AreReplacements columns := by
    intro hdicts
    obtain ⟨pairs, hpairs⟩ := hdicts (.str "title", .str "x") (by simp [columns])
    cases hpairs
  obtain ⟨f, -, hf⟩ :=
    (replace_agrees_with_statement db (.str "posts") .null (.inr hsome) s).2.2.2 hmalformed
  exact ⟨.inr hsome, hmalformed, f, hf⟩

/-- A column whose replacements are no dictionary goes unnoticed if no other column has a replacement,
though no such statement is compiled. -/
theorem malformed_replacements_go_unnoticed :
    let db : Database Unit Unit :=
      ⟨⟨"sqlite", "", false, 1000⟩, .sqlite, none, Json.usualNesting⟩
    let columns : Dict := [(.str "body", .str "x")]
    let s : DatabaseState Unit Unit := Database.start () ()
    (ExceptT.run (db.replace (.str "posts") (.dict columns) .null)).run s =
        (.ok (.value .null), s) ∧
      (Statement.run (Statement.replace db.target (.str "posts") (.dict columns) .null) s.next).1 =
        .error (.malformedColumn (.str "body") .replacementsNotDict .set) := by
  exact ⟨rfl, rfl⟩

end Database

end QueryLoom
