import QueryLoom.Proofs.Numbers.Quotient
import QueryLoom.Proofs.Renumbering.Limits
import QueryLoom.Proofs.Runs.Giving

/-!
Selections in chunks. For an executor that holds the rows of a table in a fixed order, a selection
has the same outcome whatever the size of its chunks, as long as a limit of the caller's leaves all
rows: the chunks of a large selection, put together, are the rows that a small one takes at once. Any
other limit is kept by the one statement of a small selection only; chunks replace it.
-/

namespace QueryLoom

open QueryLoom.Action Statement

/-- Consecutive pieces of one size are the front of a list. -/
theorem flatten_pieces {α : Type} (items : List α) (size count : Nat) :
    ((List.range count).map fun i => (items.drop (i * size)).take size).flatten =
      items.take (count * size) := by
  induction count with
  | zero => simp
  | succ count ih =>
      rw [List.range_succ, List.map_append, List.flatten_append, ih, List.map_singleton,
        List.flatten_singleton, ← List.take_add, Nat.succ_mul]

namespace Value

theorem less_int (a b : Int) : (Value.int a).less (.int b) = .ok (decide (a < b)) := by
  have hless : (Value.int a).less (.int b) = .ok (Fraction.compare ⟨a, 1⟩ ⟨b, 1⟩ == .lt) := rfl
  rw [hless]
  by_cases h : a < b
  · simp [Fraction.compare, Fraction.less, h]
  · by_cases hgreater : b < a <;> simp [Fraction.compare, Fraction.less, h, hgreater]

theorem atMost_int (a b : Int) : (Value.int a).atMost (.int b) = .ok (decide (a ≤ b)) := by
  have hatMost : (Value.int a).atMost (.int b) = .ok (Fraction.compare ⟨a, 1⟩ ⟨b, 1⟩ != .gt) := rfl
  rw [hatMost]
  by_cases h : a < b
  · simp [Fraction.compare, Fraction.less, h, h.le]
  · by_cases hgreater : b < a
    · simp [Fraction.compare, Fraction.less, h, hgreater]
    · simp [Fraction.compare, Fraction.less, h, hgreater, not_lt.mp hgreater]

end Value

namespace Statement

/-- The rows of a table that a limit leaves. -/
def limited (limit : Value) (rows : List Row) : List Row :=
  match limit with
  | .list [.int passed, .int taken] => (rows.drop passed.toNat).take taken.toNat
  | .int taken => rows.take taken.toNat
  | _ => rows

/-- A limit, if there is one, is not refused and leaves all rows. -/
def LeavesAll (limit : Value) (rows : List Row) : Prop :=
  Tail.Accepted limit ∧ limited limit rows = rows

theorem leavesAll_null (rows : List Row) : LeavesAll .null rows := ⟨.inl rfl, rfl⟩

end Statement

namespace Database

variable {σ τ : Type}

/-- The conditions by which rows are counted before they are selected in chunks. -/
def countedWheres (wheres : Value) : Value :=
  .dict (Assoc.erase (.str Tail.limitKey) (Assoc.erase (.str Tail.orderKey) (entriesOf wheres)))

/-- The statement that counts the rows of a selection in chunks. -/
def countStatement (db : Database σ τ) (table wheres join : Value) : Compile Compiled :=
  Statement.aggregate db.target (.str AggregateFunction.count.name) table .null
    (countedWheres wheres) join

/-- In the states that `J` describes the executor holds a fixed list of rows for the conditions and
the join: it counts them, and selects those that a limit leaves. -/
structure HoldsRows (db : Database σ τ) (executor : Executor σ τ) (J : σ → Prop)
    (table columns wheres join : Value) (rows : List Row) : Prop where
  counted : executor.AnswersStep J (db.countStatement table wheres join)
    fun r => firstValue r = .int rows.length
  selected : executor.AnswersStep J (Statement.select db.target table columns wheres join)
    fun r => r.rows = limited (limitOf wheres) rows
  piece : ∀ passed taken : Nat, executor.AnswersStep J
    (Statement.select db.target table columns
      (withLimit (.list [.int passed, .int taken]) wheres) join)
    fun r => r.rows = (rows.drop passed).take taken

section Chunks

variable {db : Database σ τ} {executor : Executor σ τ} {J : σ → Prop}
  {table columns wheres join : Value} {rows : List Row}

/-- What a selection gives that is not refused: its rows in the shape of its column tree. -/
def shaped (db : Database σ τ) (rows : List Row) (columns : Option ColumnTree) :
    Except Fault Reply :=
  (Shape.rowsValue db.nesting (columns.getD .everything) rows).map .value

/-- A selection that is compiled with one verdict and whose rows are fixed. -/
theorem gives_select (hexecutor : db.executor = some executor)
    {verdict : Except Fault (Option ColumnTree)}
    (hverdict : ∀ n,
      Statement.verdict (Statement.select db.target table columns wheres join) n = verdict)
    (hanswers : executor.AnswersStep J (Statement.select db.target table columns wheres join)
      fun r => r.rows = rows) :
    Gives (Ready J) (db.select table columns wheres join) (verdict >>= db.shaped rows) := by
  refine gives_verb hexecutor hverdict hanswers fun c result hrows => ?_
  rw [← hrows]
  exact (gives_mapping (Shape.endsIn_rowsValue db.nesting (treeOf c) result.rows)).map

/-- What goes on from the number of rows. -/
theorem gives_count (hexecutor : db.executor = some executor) (hwheres : KeepsApart wheres)
    (hholds : db.HoldsRows executor J table columns wheres join rows) {k : Reply → Action σ τ Reply}
    {outcome : Except Fault Reply}
    (hk : Gives (Ready J) (k (.value (.int rows.length))) outcome) :
    Gives (Ready J) (db.aggregate (.str AggregateFunction.count.name) table .null
      (countedWheres wheres) join >>= k)
      (verdict (db.countStatement table wheres join) 0 >>= fun _ => outcome) := by
  have hcounted : KeepsApart (countedWheres wheres) := by
    refine Value.bringsOnly_dict.mpr fun entry hentry => ?_
    exact Value.bringsOnly_dict.mp hwheres.entriesOf entry
      (List.mem_of_mem_filter (List.mem_of_mem_filter hentry))
  have hcount : Gives (Ready J) (db.aggregate (.str AggregateFunction.count.name) table .null
      (countedWheres wheres) join) (verdict (db.countStatement table wheres join) 0 >>= fun _ =>
        .ok (.value (.int rows.length))) := by
    refine gives_verb hexecutor (verdict_aggregate Value.bringsOnly_null hcounted) hholds.counted
      fun c result hresult => ?_
    rw [hresult]
    exact (Gives.lift _).bind_ok (Gives.pure _)
  cases hverdict : verdict (db.countStatement table wheres join) 0 with
  | error f =>
      rw [hverdict] at hcount
      exact hcount.bind (l := fun _ => outcome) fun _ hreply => by cases hreply
  | ok _ =>
      rw [hverdict] at hcount
      exact hcount.bind_ok hk

/-- Pieces that are shaped one by one and put together are shaped at once. -/
theorem joined_pieces (columns : Except Fault (Option ColumnTree)) {pieces : List (List Row)}
    (h : pieces ≠ []) :
    ((pieces.map fun piece => columns >>= db.shaped piece).mapM id >>= fun replies =>
      replies.mapM valueOf >>= fun parts => (joinParts parts).map Reply.value) =
        columns >>= db.shaped pieces.flatten := by
  cases columns with
  | error f =>
      cases pieces with
      | nil => exact absurd rfl h
      | cons piece rest =>
          rw [List.map_cons, List.mapM_cons]
          rfl
  | ok columns =>
      have hvalues : ∀ parts : List Value, (parts.map Reply.value).mapM valueOf = .ok parts :=
        Except.mapM_map_ok fun _ => rfl
      have hpieces : ∀ tree, (pieces.map fun piece => (Shape.rowsValue db.nesting tree piece).map
          Reply.value).mapM id = (pieces.mapM (Shape.rowsValue db.nesting tree)).map (List.map Reply.value) := by
        intro tree
        rw [List.mapM_map]
        exact Except.mapM_map _ _ pieces
      change (pieces.map fun piece => (Shape.rowsValue db.nesting (columns.getD .everything) piece).map
          Reply.value).mapM id >>= _ = (Shape.rowsValue db.nesting _ pieces.flatten).map Reply.value
      rw [hpieces, ← Shape.rowsValue_flatten _ h]
      cases pieces.mapM (Shape.rowsValue db.nesting (columns.getD .everything)) with
      | error f => rfl
      | ok parts =>
          change ((parts.map Reply.value).mapM valueOf >>= _) = (joinParts parts).map Reply.value
          rw [hvalues]
          rfl

theorem chunkLimits_int {total size : Nat} (hsize : 0 < size) (hle : size ≤ total)
    (htotal : total < 2 ^ 53) :
    chunkLimits (.int total) (.int size) = .ok ((List.range ((total + size - 1) / size)).map
      fun i : Nat => .list [.int (i * size : Nat), .int size]) := by
  have hlimits : chunkLimits (.int total) (.int size) = do
      let count ← chunkCount (.int total) (.int size)
      return (List.range count).map fun i : Nat => chunkLimit (.int size) (i * size) := rfl
  rw [hlimits, chunkCount_int hsize hle htotal]
  rfl

theorem whereEntries_eq (h : IsWheres wheres) : whereEntries wheres = .ok (entriesOf wheres) := by
  obtain rfl | ⟨entries, rfl⟩ := h <;> rfl

/-- The part of a selection in chunks that selects by limits and puts the pieces together. -/
def selectPieces (db : Database σ τ) (table columns wheres join : Value) (limits : List Value) :
    Action σ τ Reply := do
  let selections := limits.map fun limit => db.select table columns (withLimit limit wheres) join
  let replies ← if ← inTransaction then inOrder selections else db.onWorker selections
  let parts ← lift (replies.mapM valueOf)
  return .value (← lift (joinParts parts))

/-- The part of a selection in chunks that goes on from the number of rows. -/
def selectCounted (db : Database σ τ) (table columns wheres join total size : Value) :
    Action σ τ Reply := do
  if ← lift (total.atMost size) then
    db.select table columns wheres join
  else
    db.selectPieces table columns wheres join (← lift (chunkLimits total size))

theorem selectInChunks_eq (hwheres : IsWheres wheres) {size atOnce : Nat} (hsize : 1 ≤ size)
    (hatOnce : 1 ≤ atOnce) :
    db.selectInChunks table columns wheres join (.int size) (.int atOnce) = (do
      let counted ← db.aggregate (.str AggregateFunction.count.name) table .null
        (countedWheres wheres) join
      let counted ← lift (valueOf counted)
      db.selectCounted table columns wheres join (if counted.truthy then counted else .int 0)
        (.int size)) := by
  unfold selectInChunks
  rw [Value.less_int, Value.less_int, whereEntries_eq hwheres, decide_eq_false (by omega),
    decide_eq_false (by omega)]
  rfl

/-- The outcome of a selection that is not limited. -/
def unlimitedOutcome (db : Database σ τ) (table columns wheres join : Value) (rows : List Row) :
    Except Fault Reply :=
  verdict (Statement.select db.target table columns (withoutLimit (.dict (entriesOf wheres))) join) 0
    >>= db.shaped rows

/-- The pieces of all rows, selected on this thread or on a worker and put together. -/
theorem gives_selectPieces (hexecutor : db.executor = some executor) (hcolumns : KeepsApart columns)
    (hkeeps : KeepsApart wheres) (hholds : db.HoldsRows executor J table columns wheres join rows)
    {size count : Nat} (hcount : 0 < count) (hall : rows.length ≤ count * size)
    (hwritten : ∀ i < count, (Value.list [.int (i * size : Nat), .int size]).hasText = true) :
    Gives (Ready J) (db.selectPieces table columns wheres join
      ((List.range count).map fun i : Nat => .list [.int (i * size : Nat), .int size]))
      (db.unlimitedOutcome table columns wheres join rows) := by
  let pieces := (List.range count).map fun i => (rows.drop (i * size)).take size
  have hpieces : pieces.flatten = rows := by
    rw [flatten_pieces, List.take_of_length_le hall]
  have hne : pieces ≠ [] := by
    simpa [pieces] using hcount.ne'
  have hselections : List.Forall₂ (Gives (Ready J))
      (((List.range count).map fun i : Nat => Value.list [.int (i * size : Nat), .int size]).map
        fun limit => db.select table columns (withLimit limit wheres) join)
      (pieces.map fun piece => verdict (Statement.select db.target table columns
        (withoutLimit (.dict (entriesOf wheres))) join) 0 >>= db.shaped piece) := by
    rw [List.map_map, List.map_map, List.forall₂_map_left_iff, List.forall₂_map_right_iff,
      List.forall₂_same]
    intro i hi
    -- the pieces differ in their limits only, so that one verdict stands for all of them
    refine gives_select hexecutor (fun n => ?_) (hholds.piece (i * size) size)
    have hlimit := limitOf_withLimit (.list [.int (i * size : Nat), .int size]) wheres
    have haccepted := Tail.accepted_chunk (hwritten i (List.mem_range.mp hi))
    rw [← hlimit] at haccepted
    rw [verdict_of_accepted hcolumns (keepsApart_withLimit rfl hkeeps) (.inr ⟨_, rfl⟩) haccepted n]
    exact congrArg (fun rest => verdict (Statement.select db.target table columns rest join) 0)
      (withoutLimit_withLimit _ wheres)
  have hjoined := @joined_pieces σ τ db (verdict (Statement.select db.target table columns
    (withoutLimit (.dict (entriesOf wheres))) join) 0) pieces hne
  rw [hpieces] at hjoined
  rw [unlimitedOutcome, ← hjoined]
  exact gives_inOrder_or_onWorker hselections fun replies =>
    (Gives.lift (replies.mapM valueOf)).bind fun parts _ => (Gives.lift (joinParts parts)).map

/-- The outcome of a selection whose rows are counted. The limit of the caller's counts only if one
chunk holds all rows. -/
def countedOutcome (db : Database σ τ) (table columns wheres join : Value) (rows : List Row)
    (size : Nat) : Except Fault Reply :=
  if rows.length ≤ size then
    verdict (Statement.select db.target table columns wheres join) 0 >>=
      db.shaped (limited (limitOf wheres) rows)
  else db.unlimitedOutcome table columns wheres join rows

/-- The outcome of a selection in chunks: the count may be refused, too. -/
def chunksOutcome (db : Database σ τ) (table columns wheres join : Value) (rows : List Row)
    (size : Nat) : Except Fault Reply :=
  verdict (db.countStatement table wheres join) 0 >>= fun _ =>
    db.countedOutcome table columns wheres join rows size

theorem gives_selectCounted (hexecutor : db.executor = some executor)
    (hcolumns : KeepsApart columns) (hkeeps : KeepsApart wheres)
    (hholds : db.HoldsRows executor J table columns wheres join rows)
    (hrows : rows.length < 2 ^ 53) {size : Nat} (hsize : 1 ≤ size) :
    Gives (Ready J) (db.selectCounted table columns wheres join (.int rows.length) (.int size))
      (db.countedOutcome table columns wheres join rows size) := by
  unfold selectCounted countedOutcome
  rw [Value.atMost_int]
  refine (Gives.lift _).bind_ok ?_
  simp only [Nat.cast_le, decide_eq_true_eq]
  split_ifs with hle
  · exact gives_select hexecutor (verdict_select hcolumns hkeeps) hholds.selected
  · rw [chunkLimits_int (by omega) (by omega) hrows]
    -- the number of chunks is rounded up, so that the last one reaches the end of the rows
    have hpositive : 0 < (rows.length + size - 1) / size := Nat.div_pos (by omega) (by omega)
    have hpieces : size * ((rows.length + size - 1) / size) + (rows.length + size - 1) % size =
        rows.length + size - 1 := Nat.div_add_mod _ _
    have hrest : (rows.length + size - 1) % size < size := Nat.mod_lt _ (by omega)
    have hall : rows.length ≤ (rows.length + size - 1) / size * size := by
      rw [Nat.mul_comm]
      omega
    -- sizes and places are below the number of rows, so that they are written with few digits
    have hshort : ∀ n < rows.length, Value.isWritten (n : Int) = true := fun n hn =>
      have hsize : n < Nat.pow 10 16 := Nat.lt_trans (Nat.lt_trans hn hrows) (by decide)
      Value.isWritten_of_lt (by decide) (by decide) hsize
    have hwritten : ∀ i < (rows.length + size - 1) / size,
        (Value.list [.int (i * size : Nat), .int size]).hasText = true := by
      intro i hi
      have hplace : i * size < rows.length := by
        have hle := Nat.mul_le_of_le_div _ _ _ hi
        rw [Nat.succ_mul] at hle
        omega
      refine Value.hasText_list.mpr ?_
      simp only [List.forall_mem_cons, List.not_mem_nil, false_implies, implies_true, and_true]
      exact ⟨hshort _ hplace, hshort _ (by omega)⟩
    exact (Gives.lift _).bind_ok
      (gives_selectPieces hexecutor hcolumns hkeeps hholds hpositive hall hwritten)

/-- A selection in chunks has one outcome, whatever has been done before. -/
theorem gives_selectInChunks (hexecutor : db.executor = some executor) (hwheres : IsWheres wheres)
    (hcolumns : KeepsApart columns) (hkeeps : KeepsApart wheres)
    (hholds : db.HoldsRows executor J table columns wheres join rows)
    (hrows : rows.length < 2 ^ 53) {size atOnce : Nat} (hsize : 1 ≤ size) (hatOnce : 1 ≤ atOnce) :
    Gives (Ready J) (db.selectInChunks table columns wheres join (.int size) (.int atOnce))
      (db.chunksOutcome table columns wheres join rows size) := by
  have htotal : (if (Value.int rows.length).truthy then Value.int rows.length else .int 0) =
      .int rows.length := by
    split_ifs with htruthy
    · rfl
    · have hzero : (rows.length : Int) = 0 := by simpa [Value.truthy] using htruthy
      rw [hzero]
  have hcounted := gives_selectCounted hexecutor hcolumns hkeeps hholds hrows hsize
  rw [← htotal] at hcounted
  rw [selectInChunks_eq hwheres hsize hatOnce]
  exact gives_count hexecutor hkeeps hholds ((Gives.lift _).bind_ok hcounted)

theorem countedOutcome_of_leavesAll (hwheres : IsWheres wheres) (hcolumns : KeepsApart columns)
    (hkeeps : KeepsApart wheres) (hall : LeavesAll (limitOf wheres) rows) (size : Nat) :
    db.countedOutcome table columns wheres join rows size =
      db.unlimitedOutcome table columns wheres join rows := by
  rw [countedOutcome, verdict_of_accepted hcolumns hkeeps hwheres hall.1, hall.2]
  exact ite_self _

/-- For an executor that holds a fixed list of rows for the conditions and the join: a selection in
chunks has the same outcome for all sizes of chunks, for all numbers of workers, inside and outside a
transaction and after any history, as long as the caller's limit leaves all rows, or one chunk holds
all rows for both sizes or for neither. The outcome is the fault that refuses the count or the
selection, or the rows in the shape of their columns. -/
theorem selectInChunks_independent_of_size (hexecutor : db.executor = some executor)
    (hwheres : IsWheres wheres) (hcolumns : KeepsApart columns) (hkeeps : KeepsApart wheres)
    (hholds : db.HoldsRows executor J table columns wheres join rows)
    (hrows : rows.length < 2 ^ 53) {size₁ size₂ atOnce₁ atOnce₂ : Int}
    (hsize₁ : 1 ≤ size₁) (hsize₂ : 1 ≤ size₂) (hatOnce₁ : 1 ≤ atOnce₁) (hatOnce₂ : 1 ≤ atOnce₂)
    (hlimit : LeavesAll (limitOf wheres) rows ∨ (rows.length ≤ size₁ ↔ rows.length ≤ size₂))
    {s₁ s₂ : DatabaseState σ τ} (hs₁ : Ready J s₁) (hs₂ : Ready J s₂) :
    ((ExceptT.run (db.selectInChunks table columns wheres join (.int size₁) (.int atOnce₁))).run
        s₁).1 =
      ((ExceptT.run (db.selectInChunks table columns wheres join (.int size₂) (.int atOnce₂))).run
        s₂).1 ∧
    ((ExceptT.run (db.selectInChunks table columns wheres join (.int size₁) (.int atOnce₁))).run
        s₁).1 = db.chunksOutcome table columns wheres join rows size₁.toNat := by
  lift size₁ to Nat using by omega
  lift size₂ to Nat using by omega
  lift atOnce₁ to Nat using by omega
  lift atOnce₂ to Nat using by omega
  simp only [Nat.cast_le, Nat.one_le_cast] at hsize₁ hsize₂ hatOnce₁ hatOnce₂ hlimit
  have hsame : db.countedOutcome table columns wheres join rows size₁ =
      db.countedOutcome table columns wheres join rows size₂ := by
    obtain hall | hboth := hlimit
    · rw [countedOutcome_of_leavesAll hwheres hcolumns hkeeps hall,
        countedOutcome_of_leavesAll hwheres hcolumns hkeeps hall]
    · simp only [countedOutcome, hboth]
  obtain ⟨_, _, hrun₁, rfl, _⟩ := gives_selectInChunks hexecutor hwheres hcolumns hkeeps hholds hrows
    hsize₁ hatOnce₁ s₁ hs₁
  obtain ⟨_, _, hrun₂, rfl, _⟩ := gives_selectInChunks hexecutor hwheres hcolumns hkeeps hholds hrows
    hsize₂ hatOnce₂ s₂ hs₂
  rw [hrun₁, hrun₂]
  exact ⟨by rw [chunksOutcome, hsame, chunksOutcome], rfl⟩

end Chunks

/-! An executor that holds rows. -/

def listing : Sql := [.text "SELECT ", .name "id", .text " FROM ", .name "t"]

/-- The rows that are left by what follows the head of a listing: nothing, or a limit, perhaps with how
many rows are passed over. -/
def listed (rows : List Row) (tail : List Char) : List Row :=
  let numbers := tail.drop " LIMIT ".length
  let taken := numbers.takeWhile Char.isDigit
  let passed := (numbers.dropWhile Char.isDigit).drop " OFFSET ".length
  if tail.isEmpty then rows
  else (rows.drop (Nat.ofDigitChars 10 passed 0)).take (Nat.ofDigitChars 10 taken 0)

/-- An executor with one column of one table. It tells how many rows there are, and lists them. -/
def holding (rows : List Row) : Executor Unit Unit where
  execute sql _ :=
    let found :=
      if sql.toList.take listing.text.length == listing.text.toList then
        listed rows (sql.toList.drop listing.text.length)
      else [[(.str "COUNT(*)", .int rows.length)]]
    return ⟨found, .int found.length, .null⟩
  begin := return ()
  commit := return ()
  rollback := return ()
  close := return ()
  newThread := ()

def holdingDatabase (rows : List Row) : Database Unit Unit :=
  ⟨⟨"sqlite", "", false, 1000⟩, .sqlite, some (holding rows), Json.usualNesting⟩

section Holding

variable {rows : List Row} {wheres : Value}

theorem takeWhile_number (n : Nat) {rest : List Char} (h : ∀ c ∈ rest.head?, c.isDigit = false) :
    ((toString n).toList ++ rest).takeWhile Char.isDigit = (toString n).toList ∧
      ((toString n).toList ++ rest).dropWhile Char.isDigit = rest := by
  have hdigits : ∀ c ∈ (toString n).toList, c.isDigit = true := by
    rw [Nat.toString_eq_ofList_toDigits, String.toList_ofList]
    exact fun c hc => Nat.isDigit_of_mem_toDigits (by omega) (by omega) hc
  rw [List.takeWhile_append_of_pos hdigits, List.dropWhile_append_of_pos hdigits]
  cases rest with
  | nil => simp
  | cons c rest =>
      have hc : c.isDigit = false := h c rfl
      simp [hc]

theorem ofDigitChars_number (n : Nat) : Nat.ofDigitChars 10 (toString n).toList 0 = n := by
  rw [Nat.toString_eq_ofList_toDigits, String.toList_ofList]
  exact Nat.ofDigitChars_toDigits (by omega) (by omega)

theorem listed_limit (taken : Nat) {rest : List Char} (h : ∀ c ∈ rest.head?, c.isDigit = false) :
    listed rows (" LIMIT ".toList ++ ((toString taken).toList ++ rest)) =
      (rows.drop (Nat.ofDigitChars 10 (rest.drop " OFFSET ".length) 0)).take taken := by
  have hnumbers : (" LIMIT ".toList ++ ((toString taken).toList ++ rest)).drop " LIMIT ".length =
      (toString taken).toList ++ rest := List.drop_left
  rw [listed, if_neg (by simp), hnumbers, (takeWhile_number taken h).1, (takeWhile_number taken h).2,
    ofDigitChars_number]

theorem listed_piece (passed taken : Nat) :
    listed rows (" LIMIT ".toList ++
      ((toString taken).toList ++ (" OFFSET ".toList ++ (toString passed).toList))) =
      (rows.drop passed).take taken := by
  have hnumber : (" OFFSET ".toList ++ (toString passed).toList).drop " OFFSET ".length =
      (toString passed).toList := List.drop_left
  rw [listed_limit taken (by simp), hnumber, ofDigitChars_number]

/-- The rows that the executor gives for a listing with a tail. -/
theorem answersStep_listing {tail : Sql} {limit : List Char} {found : List Row} {v : Value}
    (hcompile : Tail.compile ⟨.sqlite, ""⟩ wheres = do
      Compile.requireText v
      return tail)
    (htail : (Statement.append listing tail).text.toList = listing.text.toList ++ limit)
    (hfound : listed rows limit = found) :
    (holding rows).AnswersStep (fun _ => True)
      (Statement.select ⟨.sqlite, ""⟩ (.str "t") (.str "id") wheres .null)
      fun r => r.rows = found := by
  intro n c hc s t _
  have htext : v.hasText = true := by
    by_contra hnone
    have hrefused : Compile.requireText v = throw .badValue := by
      rw [Compile.requireText, Value.checkText, if_neg hnone]
      rfl
    rw [hrefused] at hcompile
    have hselect : (Statement.run (Statement.select ⟨.sqlite, ""⟩ (.str "t") (.str "id") wheres
        .null) n).1 = .error .badValue := by
      simp only [Statement.select, Statement.selectFrom_eq, hcompile]
      with_unfolding_all rfl
    rw [hc] at hselect
    cases hselect
  rw [Compile.requireText_of_hasText htext, pure_bind] at hcompile
  have hselect : (Statement.run (Statement.select ⟨.sqlite, ""⟩ (.str "t") (.str "id") wheres
      .null) n).1.map Compiled.text = .ok (Statement.append listing tail).text := by
    simp only [Statement.select, Statement.selectFrom_eq, hcompile]
    with_unfolding_all rfl
  rw [hc] at hselect
  have htext : c.text = (Statement.append listing tail).text := Except.ok.inj hselect
  refine ⟨_, _, rfl, ?_, trivial⟩
  dsimp only
  rw [htext, htail, ← String.length_toList, List.take_left, List.drop_left, if_pos (by simp), hfound]

theorem compile_limit {v : Value} {sql : Sql} (hnull : v ≠ .null)
    (h : Tail.limit v = do
      Compile.requireText v
      return sql) :
    Tail.compile ⟨.sqlite, ""⟩ (.dict [(.str Tail.limitKey, v)]) = do
      Compile.requireText v
      return sql := by
  have hgroup : Dict.getD [(.str Tail.limitKey, v)] Tail.groupKey = .null := rfl
  have hhaving : Dict.getD [(.str Tail.limitKey, v)] Tail.havingKey = .null := rfl
  have horder : Dict.getD [(.str Tail.limitKey, v)] Tail.orderKey = .null := rfl
  have hlimit : Dict.getD [(.str Tail.limitKey, v)] Tail.limitKey = v := rfl
  have hconditions : Tail.conditionEntries [(.str Tail.limitKey, v)] = [] := rfl
  simp only [Tail.compile, hgroup, hhaving, horder, hlimit, hconditions, Tail.whenTruthy,
    Value.truthy]
  cases v with
  | null => exact absurd rfl hnull
  | _ => simp [h, Sql.join]

/-- A limit stands after a blank. -/
theorem text_append_limit (rest : String) :
    (Statement.append listing [.text ("LIMIT " ++ rest)]).text.toList =
      listing.text.toList ++ (" LIMIT ".toList ++ rest.toList) := by
  have hpresent : ¬ (Sql.text [.text ("LIMIT " ++ rest)]).isEmpty = true := by
    simp [Sql.text, Piece.toText]
  rw [Statement.append, if_neg hpresent, Sql.text_append, Sql.text_cons]
  simp [Sql.text, Piece.toText]

/-- The executor holds its rows for the whole table, with a limit of the caller's or without one. -/
theorem holdsRows_holding
    (h : wheres = .null ∨ ∃ taken : Nat, wheres = .dict [(.str Tail.limitKey, .int taken)]) :
    (holdingDatabase rows).HoldsRows (holding rows) (fun _ => True) (.str "t") (.str "id") wheres
      .null rows := by
  have hcounted : countedWheres wheres = .dict [] := by
    obtain rfl | ⟨taken, rfl⟩ := h <;> rfl
  have hpiece : ∀ limit, withLimit limit wheres = .dict [(.str Tail.limitKey, limit)] := by
    intro limit
    obtain rfl | ⟨taken, rfl⟩ := h <;> rfl
  refine ⟨fun n c hc s t _ => ?_, ?_, fun passed taken => ?_⟩
  · rw [countStatement, hcounted] at hc
    have hcount : (Statement.run (Statement.aggregate ⟨.sqlite, ""⟩ (.str "COUNT") (.str "t") .null
        (.dict []) .null) n).1.map Compiled.text = .ok "SELECT COUNT(*) FROM \"t\"" := by
      with_unfolding_all rfl
    have htext : c.text = "SELECT COUNT(*) FROM \"t\"" :=
      Except.ok.inj ((congrArg (Except.map Compiled.text) hc).symm.trans hcount)
    refine ⟨_, _, rfl, ?_, trivial⟩
    dsimp only
    rw [htext, if_neg (by decide +kernel)]
    rfl
  · obtain rfl | ⟨taken, rfl⟩ := h
    · have htail : (Statement.append listing []).text.toList = listing.text.toList ++ [] := rfl
      exact answersStep_listing (v := .null) rfl htail rfl
    · have hlimit : Tail.limit (.int taken) = do
          Compile.requireText (.int taken)
          return [.text ("LIMIT " ++ toString taken)] := by
        simp [Tail.limit, Tail.count?]
      have htail := text_append_limit (toString taken)
      have hlisted : listed rows (" LIMIT ".toList ++ ((toString taken).toList ++ [])) =
          rows.take taken := listed_limit taken (by simp)
      rw [List.append_nil] at hlisted
      exact answersStep_listing (compile_limit (by simp) hlimit) htail hlisted
  · rw [hpiece]
    have hlimit : Tail.limit (.list [.int passed, .int taken]) = do
        Compile.requireText (.list [.int passed, .int taken])
        return [.text ("LIMIT " ++ (toString taken ++ (" OFFSET " ++ toString passed)))] := by
      rw [Tail.limit_chunk, String.append_assoc, String.append_assoc]
    have htail := text_append_limit (toString taken ++ (" OFFSET " ++ toString passed))
    rw [String.toList_append, String.toList_append] at htail
    exact answersStep_listing (compile_limit (by simp) hlimit) htail (listed_piece passed taken)

def threeRows : List Row :=
  [[(.str "id", .int 1)], [(.str "id", .int 2)], [(.str "id", .int 3)]]

/-- The outcome of a selection in chunks from three rows. -/
def selectedInChunks (wheres : Value) (size atOnce : Int) (s : DatabaseState Unit Unit) :
    Except Fault Reply :=
  ((ExceptT.run ((holdingDatabase threeRows).selectInChunks (.str "t") (.str "id") wheres .null
    (.int size) (.int atOnce))).run s).1

/-- Three rows in chunks of two, and at once inside a transaction after other statements. -/
theorem selectInChunks_independent_of_size_of_rows :
    let later : DatabaseState Unit Unit :=
      { Database.start () () with next := 7, thread := ⟨false, true, ()⟩ }
    selectedInChunks .null 2 1 (Database.start () ()) = selectedInChunks .null 10 4 later ∧
      selectedInChunks .null 2 1 (Database.start () ()) =
        .ok (.value (.list [.int 1, .int 2, .int 3])) := by
  intro later
  have hsame : selectedInChunks .null 2 1 (Database.start () ()) = selectedInChunks .null 10 4 later ∧
      selectedInChunks .null 2 1 (Database.start () ()) = (holdingDatabase threeRows).chunksOutcome
        (.str "t") (.str "id") .null .null threeRows 2 :=
    selectInChunks_independent_of_size rfl (.inl rfl) (.of_rawFree rfl) Value.bringsOnly_null
      (holdsRows_holding (.inl rfl)) (by decide) (by decide) (by decide) (by decide) (by decide)
      (.inl (leavesAll_null _)) ⟨rfl, trivial⟩ ⟨rfl, trivial⟩
  refine ⟨hsame.1, hsame.2.trans ?_⟩
  with_unfolding_all rfl

/-- A selection of at most two rows of three gives two if one chunk holds all rows. In chunks of two
it gives three. -/
theorem own_limit_lost_in_chunks :
    let wheres : Value := .dict [(.str Tail.limitKey, .int 2)]
    (holdingDatabase threeRows).HoldsRows (holding threeRows) (fun _ => True) (.str "t") (.str "id")
      wheres .null threeRows ∧
    selectedInChunks wheres 10 1 (Database.start () ()) = .ok (.value (.list [.int 1, .int 2])) ∧
    selectedInChunks wheres 2 1 (Database.start () ()) =
      .ok (.value (.list [.int 1, .int 2, .int 3])) := by
  intro wheres
  have hholds : (holdingDatabase threeRows).HoldsRows (holding threeRows) (fun _ => True) (.str "t")
      (.str "id") wheres .null threeRows := holdsRows_holding (.inr ⟨2, rfl⟩)
  have hgives : ∀ size : Nat, 1 ≤ size → selectedInChunks wheres size 1 (Database.start () ()) =
      (holdingDatabase threeRows).chunksOutcome (.str "t") (.str "id") wheres .null threeRows
        size := by
    intro size hsize
    obtain ⟨_, _, hrun, rfl, _⟩ := gives_selectInChunks rfl (.inr ⟨_, rfl⟩) (.of_rawFree rfl)
      (.of_rawFree rfl) hholds (by decide) hsize (Nat.le_refl 1) (Database.start () ())
      ⟨rfl, trivial⟩
    exact congrArg Prod.fst hrun
  refine ⟨hholds, (hgives 10 (by omega)).trans ?_, (hgives 2 (by omega)).trans ?_⟩
  · with_unfolding_all rfl
  · with_unfolding_all rfl

end Holding

end Database

end QueryLoom
