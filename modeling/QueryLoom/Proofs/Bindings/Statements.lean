import QueryLoom.Proofs.Bindings.Clauses
import QueryLoom.Proofs.Independence.Statements
import QueryLoom.Proofs.Statement.Writes

/-!
What statements bind. Queries bind what their columns and their end ask for. An insertion binds the
values of its rows under all of its keys, an update those of its assignments, a replacement the
texts it replaces, each before the end of the statement.
-/

namespace QueryLoom

open Compile

variable {t : Target}

namespace Statement

open Conditions (makes_column makes_splice)

/-! The bindings that a call asks for. -/

/-- A stored value is bound as what it is stored as. -/
def storedSupplies (json : Bool) (v : Value) : List Supply :=
  match storedValue json v with
  | .ok stored => [.value stored]
  | .error _ => []

/-- The rows of an insertion. -/
def insertedRows : Value → List Value
  | .dict entries => [.dict entries]
  | .str s => s.toList.map fun c => .str (String.singleton c)
  | v => v.sequence?.getD []

/-- Keys, and those of a row that are new. -/
def withKeysOf (keys : List Value) : Dict → List Value
  | [] => keys
  | (key, _) :: rest =>
      withKeysOf (if keys.any fun k => k == key then keys else keys ++ [key]) rest

/-- The keys of rows in the order in which they first appear. -/
def rowKeys (keys : List Value) : List Value → List Value
  | .dict row :: rest => rowKeys (withKeysOf keys row) rest
  | _ => keys

/-- Whether values under a data key are stored as JSON. -/
def isJsonKey (key : Value) : Bool :=
  match Key.dataKey key with
  | .ok parsed => parsed.isJson
  | .error _ => false

/-- What a row supplies under a key: null if it has no value there. -/
def cellSupplies (row : Dict) (key : Value) : List Supply :=
  match Assoc.get? key row with
  | none => [.value .null]
  | some (.raw _ parameters) => Supply.ofMap parameters
  | some v => storedSupplies (isJsonKey key) v

def rowSupplies (keys : List Value) : Value → List Supply
  | .dict row => keys.flatMap (cellSupplies row)
  | _ => []

def insertSupplies (rows : Value) : List Supply :=
  (insertedRows rows).flatMap (rowSupplies (rowKeys [] (insertedRows rows)))

def assignmentSupplies : Value × Value → List Supply
  | (_, .raw _ parameters) => Supply.ofMap parameters
  | (key, v) =>
      match Key.dataKey key with
      | .ok parsed =>
          if parsed.operator?.isSome then [.value v] else storedSupplies parsed.isJson v
      | .error _ => []

/-- A replacement supplies the old text, then the new one. -/
def replacementSupplies : Value × Value → List Supply
  | (_, .dict pairs) => pairs.flatMap fun (old, new) => [.value old, .value new]
  | _ => []

/-- What is supplied for each entry of a dictionary. -/
def entrywise (f : Value × Value → List Supply) : Value → List Supply
  | .dict entries => entries.flatMap f
  | _ => []

/-- What the end of a selection in random order supplies. -/
def randomSupplies (t : Target) (wheres : Value) : List Supply :=
  match randomOrder t wheres with
  | .ok ordered => Tail.supplies ordered
  | .error _ => []

/-! Statements that read. -/

theorem makes_finish (sql : Sql) (columns : Option ColumnTree) : Makes (finish t sql columns) [] := by
  intro s
  exact .made ((yields_pure ()).mpr ⟨rfl, rfl⟩)

theorem makes_joinsAfter (ref : TableRef) (sql : Sql) (join : Value) :
    Makes (joinsAfter t ref sql join) [] := by
  unfold joinsAfter
  split_ifs
  · exact (Joins.makes_compile _ _).map _
  · exact .pure _

theorem makes_selectFrom (head : Sql) (table wheres join : Value) :
    Makes (selectFrom t head table wheres join) (Tail.supplies wheres) := by
  rw [selectFrom_eq]
  refine (Makes.lift (Key.blameless_tableRefOfValue table)).after fun ref => ?_
  refine (Makes.tableRef ref).after fun tableSql => ?_
  exact (makes_joinsAfter _ _ _).after fun sql => (Tail.makes_compile wheres).map _

theorem makes_select (table columns wheres join : Value) :
    Makes (select t table columns wheres join)
      (Projection.supplies columns ++ Tail.supplies wheres) := by
  refine (Makes.lift (ColumnSpec.blameless_parse columns)).after_of fun tree htree => ?_
  obtain ⟨_, _, hyields⟩ := htree
  have hsupplies : Projection.supplies columns = Projection.treeSupplies tree := by
    simp only [Projection.supplies, ((yields_lift _).mp hyields).1]
  rw [hsupplies]
  refine (Projection.makes_compile _ _).bind fun projection => ?_
  exact (makes_selectFrom _ _ _ _).before fun sql => makes_finish _ _

theorem makes_get (table columns wheres join : Value) :
    Makes (get t table columns wheres join)
      (Projection.supplies columns ++ Tail.supplies (withoutLimit wheres)) :=
  (makes_select _ _ _ _).map _

theorem makes_has (table wheres join : Value) :
    Makes (has t table wheres join) (Tail.supplies wheres) :=
  (makes_selectFrom _ _ _ _).before fun _ => makes_finish _ _

theorem makes_aggregateArgument (function : AggregateFunction) (column : Value) :
    Makes (aggregateArgument t function column) (Supply.ofRaw column) := by
  have heverything : Makes (if function == .count then pure [.text "*"]
      else throw (.refused (.aggregateNeedsColumn function.name)) : Compile Sql) [] := by
    split_ifs
    · exact .pure _
    · exact .refuse rfl _
  cases column with
  | raw raw parameters => exact makes_splice _ _ _
  | null => exact heverything
  | str name =>
      unfold aggregateArgument
      dsimp only
      by_cases hname : (name == "*") = true
      · rw [if_pos hname]
        exact heverything
      · rw [if_neg hname]
        exact makes_column _ _
  | _ => exact makes_column _ _

theorem makes_aggregate (function table column wheres join : Value) :
    Makes (aggregate t function table column wheres join)
      (Supply.ofRaw column ++ Tail.supplies wheres) := by
  unfold aggregate
  split
  · exact .refuse_showing rfl _
  · refine (makes_aggregateArgument _ _).bind fun argument => ?_
    exact (makes_selectFrom _ _ _ _).before fun sql => makes_finish _ _

theorem makes_rand (table columns wheres join : Value) :
    Makes (rand t table columns wheres join)
      (Projection.supplies columns ++ randomSupplies t wheres) := by
  refine (Makes.lift (blameless_randomOrder t wheres)).after_of fun ordered hordered => ?_
  obtain ⟨_, _, hyields⟩ := hordered
  have hsupplies : randomSupplies t wheres = Tail.supplies ordered := by
    simp only [randomSupplies, ((yields_lift _).mp hyields).1]
  rw [hsupplies]
  exact makes_select _ _ _ _

theorem makes_raw (statement : Value) : Makes (raw t statement) (Supply.ofRaw statement) := by
  cases statement with
  | raw raw parameters => exact (makes_splice _ _ _).before fun sql => makes_finish _ _
  | _ => exact .refuse rfl _

/-! Insertions. -/

variable {s u : Parameters}

theorem yields_insertRows {v : Value} {rows : List Value} (h : (insertRows v).Yields s rows u) :
    rows = insertedRows v := by
  unfold insertRows at h
  split at h
  · exact ((yields_pure _).mp h).1
  · rename_i hdict
    split_ifs at h
    · simp at h
    · split at h
      · exact ((yields_pure _).mp h).1
      · rename_i hstr
        split at h
        · rename_i found hfound
          rw [((yields_pure _).mp h).1]
          cases v with
          | dict entries => exact absurd rfl (hdict entries)
          | str s => exact absurd rfl (hstr s)
          | _ => simp only [insertedRows, hfound, Option.getD_some]
        · simp at h

theorem makes_insertRows (v : Value) : Makes (insertRows v) [] := by
  unfold insertRows
  split
  · exact .pure _
  · split_ifs
    · exact .refuse rfl _
    · split
      · exact .pure _
      · split
        · exact .pure _
        · exact .refuse rfl _

theorem makes_addKeys (keys : InsertKeys) (entries : Dict) : Makes (addKeys keys entries) [] := by
  induction entries generalizing keys with
  | nil => exact .pure _
  | cons entry rest ih =>
      obtain ⟨key, v⟩ := entry
      rw [addKeys]
      split_ifs
      · exact ih keys
      · refine (Makes.lift (Key.blameless_dataKey key)).after fun parsed => ?_
        split_ifs
        · exact (Makes.refuse_showing rfl []).after fun _ => ih _
        · exact ih _

theorem makes_collectKeys (keys : InsertKeys) (rows : List Value) :
    Makes (collectKeys keys rows) [] := by
  induction rows generalizing keys with
  | nil => exact .pure _
  | cons row rest ih =>
      cases row with
      | dict entries => exact (makes_addKeys keys entries).after ih
      | _ => exact .refuse_showing rfl _

/-- Every key stands with what it is read as. -/
def Parsed (keys : InsertKeys) : Prop := ∀ entry ∈ keys, Key.dataKey entry.1 = .ok entry.2

theorem yields_addKeys_keys {keys found : InsertKeys} {entries : Dict} (hkeys : Parsed keys)
    (h : (addKeys keys entries).Yields s found u) :
    Parsed found ∧ found.map Prod.fst = withKeysOf (keys.map Prod.fst) entries := by
  induction entries generalizing keys s with
  | nil =>
      rw [addKeys, yields_pure] at h
      rw [h.1]
      exact ⟨hkeys, rfl⟩
  | cons entry rest ih =>
      obtain ⟨key, v⟩ := entry
      have hany : (keys.map Prod.fst).any (fun k => k == key) = Assoc.has key keys := by
        rw [List.any_map]
        rfl
      rw [addKeys] at h
      rw [withKeysOf, hany]
      by_cases hhas : Assoc.has key keys = true
      · rw [if_pos hhas] at h ⊢
        exact ih hkeys h
      · rw [if_neg hhas] at h ⊢
        simp only [yields_bind, yields_lift] at h
        obtain ⟨parsed, _, ⟨hparsed, rfl⟩, h⟩ := h
        split_ifs at h
        · simp at h
        · have hmore : Parsed (keys ++ [(key, parsed)]) := by
            intro entry hentry
            rcases List.mem_append.mp hentry with hold | hnew
            · exact hkeys entry hold
            · rw [List.mem_singleton.mp hnew]
              exact hparsed
          have hrest := ih hmore h
          rwa [List.map_append, List.map_singleton] at hrest

theorem yields_collectKeys_keys {keys found : InsertKeys} {rows : List Value} (hkeys : Parsed keys)
    (h : (collectKeys keys rows).Yields s found u) :
    Parsed found ∧ found.map Prod.fst = rowKeys (keys.map Prod.fst) rows := by
  induction rows generalizing keys s with
  | nil =>
      rw [collectKeys, yields_pure] at h
      rw [h.1]
      exact ⟨hkeys, rfl⟩
  | cons row rest ih =>
      cases row with
      | dict entries =>
          simp only [collectKeys, yields_bind] at h
          obtain ⟨more, _, hadd, hrest⟩ := h
          obtain ⟨hmore, hnames⟩ := yields_addKeys_keys hkeys hadd
          have hfound := ih hmore hrest
          rwa [hnames] at hfound
      | _ => simp [collectKeys] at h

theorem makes_keyColumns (keys : InsertKeys) : Makes (keyColumns t keys) [] := by
  induction keys with
  | nil => exact .pure _
  | cons key rest ih => exact (makes_column _ _).after fun first => ih.map _

theorem makes_stored (json : Bool) (v : Value) :
    Makes (do bindValue (← Compile.lift (storedValue json v))) (storedSupplies json v) := by
  refine (Makes.lift (blameless_storedValue json v)).after_of fun stored hstored => ?_
  obtain ⟨_, _, hyields⟩ := hstored
  have hsupplies : storedSupplies json v = [.value stored] := by
    simp only [storedSupplies, ((yields_lift _).mp hyields).1]
  rw [hsupplies]
  exact .bindValue stored

theorem makes_rowValue {key : Value} {parsed : DataKey} (hparsed : Key.dataKey key = .ok parsed)
    (row : Dict) : Makes (rowValue t row key parsed) (cellSupplies row key) := by
  have hjson : isJsonKey key = parsed.isJson := by
    simp only [isJsonKey, hparsed]
  unfold rowValue cellSupplies
  cases Assoc.get? key row with
  | none => exact .bindValue _
  | some v =>
      cases v with
      | raw raw parameters => exact makes_splice _ _ _
      | _ =>
          rw [hjson]
          exact makes_stored _ _

theorem makes_rowValues {keys : InsertKeys} (hkeys : Parsed keys) (row : Dict) :
    Makes (rowValues t row keys) (rowSupplies (keys.map Prod.fst) (.dict row)) := by
  induction keys with
  | nil => exact .pure _
  | cons entry rest ih =>
      obtain ⟨key, parsed⟩ := entry
      obtain ⟨hparsed, hrest⟩ := List.forall_mem_cons.mp hkeys
      rw [rowValues_cons]
      exact (makes_rowValue hparsed row).bind fun first => (ih hrest).map _

theorem makes_rowTuples {keys : InsertKeys} (hkeys : Parsed keys) (rows : List Value) :
    Makes (rowTuples t keys rows) (rows.flatMap (rowSupplies (keys.map Prod.fst))) := by
  induction rows with
  | nil => exact .pure _
  | cons row rest ih =>
      rw [List.flatMap_cons]
      cases row with
      | dict row => exact (makes_rowValues hkeys row).bind fun values => ih.map _
      | _ => exact ih

theorem makes_insert (table rows : Value) : Makes (insert t table rows) (insertSupplies rows) := by
  refine (makes_insertRows rows).after_of fun found hfound => ?_
  obtain ⟨_, _, hrows⟩ := hfound
  refine (makes_collectKeys [] found).after_of fun keys hcollected => ?_
  obtain ⟨_, _, hkeys⟩ := hcollected
  obtain ⟨hparsed, hnames⟩ := yields_collectKeys_keys (by simp [Parsed]) hkeys
  have hsupplies : insertSupplies rows = found.flatMap (rowSupplies (keys.map Prod.fst)) := by
    rw [insertSupplies, ← yields_insertRows hrows, hnames]
    rfl
  rw [hsupplies]
  have hwritten := (makes_keyColumns (t := t) keys).after fun columns =>
    (makes_rowTuples (t := t) hparsed found).before fun tuples =>
      (Makes.table (t := t) table).after fun tableSql =>
        makes_finish (t := t)
          (.text "INSERT INTO " :: tableSql ++ .text " (" :: Sql.join ", " columns ++
            .text ") VALUES " :: Sql.join ", " tuples) none
  split_ifs
  · exact (Makes.refuse rfl []).after fun _ => hwritten
  · exact hwritten

/-! Updates, deletions and replacements. -/

theorem makes_assigned (key : Value) (column : Sql) (parsed : DataKey) (v : Value) :
    Makes (assigned key column parsed v)
      (if parsed.operator?.isSome then [.value v] else storedSupplies parsed.isJson v) := by
  unfold assigned
  cases hoperator : parsed.operator? with
  | some operator =>
      rw [Option.isSome_some, if_pos rfl]
      dsimp only
      split_ifs
      · exact Makes.bind (α := PUnit) (.refuse_showing rfl []) fun _ => (Makes.bindValue v).map _
      · exact (Makes.bindValue v).map _
  | none =>
      have hstored := (makes_stored parsed.isJson v).map fun right => column ++ .text " = " :: right
      rw [bind_assoc] at hstored
      exact hstored

theorem makes_assignment (key v : Value) :
    Makes (assignment t key v) (assignmentSupplies (key, v)) := by
  cases hraw : v.isRaw with
  | false =>
      rw [assignment_eq hraw]
      refine (Makes.lift (Key.blameless_dataKey key)).after_of fun parsed hparsed => ?_
      obtain ⟨_, _, hyields⟩ := hparsed
      have hsupplies : assignmentSupplies (key, v) =
          if parsed.operator?.isSome then [.value v] else storedSupplies parsed.isJson v := by
        cases v with
        | raw raw parameters => cases hraw
        | _ => simp only [assignmentSupplies, ((yields_lift _).mp hyields).1]
      rw [hsupplies]
      exact (makes_column _ _).after fun column => makes_assigned _ _ _ _
  | true =>
      cases v with
      | raw raw parameters =>
          refine (Makes.lift (Key.blameless_dataKey key)).after fun parsed => ?_
          exact (makes_column _ _).after fun column => (makes_splice _ _ _).map _
      | _ => cases hraw

theorem makes_assignments (entries : Dict) :
    Makes (assignments t entries) (entries.flatMap assignmentSupplies) := by
  induction entries with
  | nil => exact .pure _
  | cons entry rest ih =>
      rw [List.flatMap_cons]
      exact (makes_assignment entry.1 entry.2).bind fun first => ih.map _

theorem makes_updateOf (table : Value) (sets : List Sql) (wheres : Value) :
    Makes (updateOf t table sets wheres) (Tail.supplies wheres) :=
  (Makes.table table).after fun _ => (Tail.makes_compile wheres).before fun _ =>
    makes_finish _ _

theorem makes_update (table data wheres : Value) :
    Makes (update t table data wheres)
      (entrywise assignmentSupplies data ++ Tail.supplies wheres) := by
  unfold update
  split
  · exact (makes_assignments _).bind fun sets => makes_updateOf _ _ _
  · exact .refuse rfl _

theorem makes_delete (table wheres : Value) :
    Makes (delete t table wheres) (Tail.supplies wheres) :=
  (Makes.table table).after fun _ => (Tail.makes_compile wheres).before fun _ =>
    makes_finish _ _

theorem makes_nestedReplace (expression : Sql) (pairs : Dict) :
    Makes (nestedReplace expression pairs)
      (pairs.flatMap fun (old, new) => [.value old, .value new]) := by
  induction pairs generalizing expression with
  | nil => exact .pure _
  | cons pair rest ih =>
      obtain ⟨old, new⟩ := pair
      rw [List.flatMap_cons]
      exact (Makes.bindValue old).bind fun oldSql => (Makes.bindValue new).bind fun newSql => ih _

theorem makes_replacements (entries : Dict) :
    Makes (replacements t entries) (entries.flatMap replacementSupplies) := by
  induction entries with
  | nil => exact .pure _
  | cons entry rest ih =>
      obtain ⟨column, v⟩ := entry
      rw [List.flatMap_cons]
      cases v with
      | dict pairs =>
          refine (makes_column t column).after fun columnSql => ?_
          exact (makes_nestedReplace columnSql pairs).bind fun expression => ih.map _
      | _ => exact .refuse_showing rfl _

theorem makes_replace (table columns wheres : Value) :
    Makes (replace t table columns wheres)
      (entrywise replacementSupplies columns ++ Tail.supplies wheres) := by
  cases columns with
  | dict entries =>
      refine (makes_replacements entries).bind fun sets => ?_
      split_ifs
      · exact (Makes.refuse rfl []).after fun _ => makes_updateOf table sets wheres
      · exact makes_updateOf table sets wheres
  | _ => exact .refuse rfl _

end Statement

/-! Calls of verbs. -/

namespace Verb

open Statement

/-- What a verb binds for its arguments, in order. -/
def suppliesWith (t : Target) : Verb → List Value → List Supply
  | .select, [_, columns, wheres, _] => Projection.supplies columns ++ Tail.supplies wheres
  | .get, [_, columns, wheres, _] =>
      Projection.supplies columns ++ Tail.supplies (withoutLimit wheres)
  | .rand, [_, columns, wheres, _] => Projection.supplies columns ++ randomSupplies t wheres
  | .has, [_, wheres, _] => Tail.supplies wheres
  | .aggregate, [_, _, column, wheres, _] => Supply.ofRaw column ++ Tail.supplies wheres
  | .insert, [_, rows] => insertSupplies rows
  | .update, [_, data, wheres] => entrywise assignmentSupplies data ++ Tail.supplies wheres
  | .delete, [_, wheres] => Tail.supplies wheres
  | .replace, [_, columns, wheres] => entrywise replacementSupplies columns ++ Tail.supplies wheres
  | .raw, [statement] => Supply.ofRaw statement
  | _, _ => []

/-- What a call binds: every value that takes a generated name and every entry of the map of every
raw value, in the order in which they are bound. -/
def supplies (t : Target) (verb : Verb) (args : List Value) : List Supply :=
  match Signature.bind ⟨verb.parameters, []⟩ args [] with
  | .ok values => verb.suppliesWith t values
  | .error _ => []

/-- A call binds what its arguments ask for. -/
theorem makes_compile (verb : Verb) (args : List Value) :
    Makes (verb.compile t args) (verb.supplies t args) := by
  refine (Makes.lift (Signature.blameless_bind _ _ _)).after_of fun values hvalues => ?_
  obtain ⟨_, _, hyields⟩ := hvalues
  have hsupplies : verb.supplies t args = verb.suppliesWith t values := by
    simp only [supplies, ((yields_lift _).mp hyields).1]
  rw [hsupplies]
  unfold compileWith
  split
  · exact makes_select _ _ _ _
  · exact makes_get _ _ _ _
  · exact makes_rand _ _ _ _
  · exact makes_has _ _ _
  · exact makes_aggregate _ _ _ _ _
  · exact makes_insert _ _
  · exact makes_update _ _ _
  · exact makes_delete _ _
  · exact makes_replace _ _ _
  · exact makes_raw _
  · exact .refuse rfl _

end Verb

end QueryLoom
