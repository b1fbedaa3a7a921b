import Mathlib.Data.List.Forall2
import QueryLoom.Proofs.Independence.Tails
import QueryLoom.Proofs.Statement.Writes

/-!
Statements that read and statements that write. What is written to tables may be any value: all that
the text holds of it is a placeholder.
-/

namespace QueryLoom

open Compile

variable {t : Target}

namespace Statement

open Tail (AlikeTails)

/-- Two statements with the same text, whose parameters have the same names. -/
structure AlikeCompiled (c d : Compiled) : Prop where
  body : c.body = d.body
  limitedToOne : c.limitedToOne = d.limitedToOne
  names : c.params.map Prod.fst = d.params.map Prod.fst

theorem AlikeCompiled.text {c d : Compiled} (h : AlikeCompiled c d) : c.text = d.text := by
  rw [Compiled.text, Compiled.text, Compiled.sql, Compiled.sql, h.body, h.limitedToOne]

theorem agree_finish (sql : Sql) (columns : Option ColumnTree) :
    Agree AlikeCompiled (finish t sql columns) (finish t sql columns) := by
  intro s r hs c u d v hm hn
  simp only [finish, yields_bind, yields_get, yields_pure] at hm hn
  obtain ⟨_, _, ⟨rfl, rfl⟩, rfl, rfl⟩ := hm
  obtain ⟨_, _, ⟨rfl, rfl⟩, rfl, rfl⟩ := hn
  exact ⟨⟨rfl, rfl, hs.names⟩, hs⟩

/-! Statements that read. -/

theorem steady_joinsAfter (ref : TableRef) (sql : Sql) (join : Value) :
    Steady (joinsAfter t ref sql join) := by
  unfold joinsAfter
  split_ifs
  · exact agree_map (Joins.steady_compile _ _) _
  · exact steady_pure _

theorem agree_selectFrom (head : Sql) (table : Value) {wheres others : Value} (join : Value)
    (h : AlikeTails wheres others) :
    Agree Eq (selectFrom t head table wheres join) (selectFrom t head table others join) := by
  rw [selectFrom_eq, selectFrom_eq]
  refine (steady_lift _).bind_eq fun ref => ?_
  refine (steady_lift _).bind_eq fun tableSql => ?_
  refine (steady_joinsAfter _ _ _).bind_eq fun sql => ?_
  exact agree_map (Tail.agree_compile h) _

theorem agree_select (table columns : Value) {wheres others : Value} (join : Value)
    (h : AlikeTails wheres others) :
    Agree AlikeCompiled (select t table columns wheres join) (select t table columns others join) := by
  refine (steady_lift _).bind_eq fun tree => ?_
  refine (Projection.steady_compile _ _).bind_eq fun projection => ?_
  exact (agree_selectFrom _ _ _ h).bind_eq fun sql => agree_finish sql _

theorem alikeTails_withoutLimit {wheres others : Value} (h : AlikeTails wheres others) :
    AlikeTails (withoutLimit wheres) (withoutLimit others) := by
  cases h with
  | dict h => exact .dict (h.erase _)
  | same hdict =>
      cases wheres with
      | dict entries => cases hdict
      | _ => exact .same rfl

theorem agree_get (table columns : Value) {wheres others : Value} (join : Value)
    (h : AlikeTails wheres others) :
    Agree AlikeCompiled (get t table columns wheres join) (get t table columns others join) := by
  refine (agree_select _ _ _ (alikeTails_withoutLimit h)).bind fun c d hcd => ?_
  exact .pure ⟨hcd.body, rfl, hcd.names⟩

theorem agree_has (table : Value) {wheres others : Value} (join : Value)
    (h : AlikeTails wheres others) :
    Agree AlikeCompiled (has t table wheres join) (has t table others join) :=
  (agree_selectFrom _ _ _ h).bind_eq fun _ => agree_finish _ _

theorem steady_aggregateArgument (function : AggregateFunction) (column : Value) :
    Steady (aggregateArgument t function column) := by
  have heverything : Steady (if function == .count then pure [.text "*"]
      else throw (.refused (.aggregateNeedsColumn function.name)) : Compile Sql) := by
    split_ifs
    · exact steady_pure _
    · exact steady_throw _
  unfold aggregateArgument
  dsimp only
  split
  · exact steady_splice _ _ _
  · exact heverything
  · split_ifs
    · exact steady_pure _
    · exact steady_throw _
    · exact steady_lift _
  · exact steady_lift _

theorem agree_aggregate (function table column : Value) {wheres others : Value} (join : Value)
    (h : AlikeTails wheres others) :
    Agree AlikeCompiled (aggregate t function table column wheres join)
      (aggregate t function table column others join) := by
  unfold aggregate
  split
  · exact .throw_left
  · refine (steady_aggregateArgument _ _).bind_eq fun argument => ?_
    exact (agree_selectFrom _ _ _ h).bind_eq fun sql => agree_finish sql _

theorem alikeTails_randomOrder {wheres others ordered found : Value} (h : AlikeTails wheres others)
    (hordered : randomOrder t wheres = .ok ordered) (hfound : randomOrder t others = .ok found) :
    AlikeTails ordered found := by
  cases h with
  | dict h =>
      cases hordered
      cases hfound
      exact .dict (h.insert_order _)
  | same hdict =>
      rw [hordered] at hfound
      cases hfound
      unfold randomOrder at hordered
      split at hordered
      · cases hordered
      · dsimp only at hordered
        split at hordered
        · cases hdict
        · split_ifs at hordered
          cases hordered
          exact .dict (Tail.AlikeTailEntries.nil.insert_order _)

theorem agree_rand (table columns : Value) {wheres others : Value} (join : Value)
    (h : AlikeTails wheres others) :
    Agree AlikeCompiled (rand t table columns wheres join) (rand t table columns others join) := by
  refine (Agree.lift fun _ _ => alikeTails_randomOrder h).bind fun ordered found hfound => ?_
  exact agree_select _ _ _ hfound

/-! Statements that write. -/

/-- Written data under the same keys. Raw values are the same; all others may differ, whatever they
are. -/
inductive AlikeData : Dict → Dict → Prop
  | nil : AlikeData [] []
  | same (key v : Value) {rest others : Dict} (h : AlikeData rest others) :
      AlikeData ((key, v) :: rest) ((key, v) :: others)
  | bound (key : Value) {v w : Value} {rest others : Dict} (hv : v.isRaw = false)
      (hw : w.isRaw = false) (h : AlikeData rest others) :
      AlikeData ((key, v) :: rest) ((key, w) :: others)

/-- Dictionaries of written data. What is no dictionary is the same; it is refused as a row. -/
inductive AlikeRow : Value → Value → Prop
  | dict {row other : Dict} (h : AlikeData row other) : AlikeRow (.dict row) (.dict other)
  | same {v : Value} (hdict : v.isDict = false) : AlikeRow v v

/-- One row, or as many rows on either side. -/
inductive AlikeRows : Value → Value → Prop
  | dict {row other : Dict} (h : AlikeData row other) : AlikeRows (.dict row) (.dict other)
  | list {rows others : List Value} (h : List.Forall₂ AlikeRow rows others) :
      AlikeRows (.list rows) (.list others)
  | same {v : Value} (hdict : v.isDict = false) (hlist : ∀ rows, v ≠ .list rows) : AlikeRows v v

theorem forall₂_same {rows : List Value} (h : ∀ row ∈ rows, row.isDict = false) :
    List.Forall₂ AlikeRow rows rows :=
  List.forall₂_same.mpr fun row hrow => .same (h row hrow)

theorem agree_insertRows {v w : Value} (h : AlikeRows v w) :
    Agree (List.Forall₂ AlikeRow) (insertRows v) (insertRows w) := by
  cases h with
  | dict h => exact .pure (.cons (.dict h) .nil)
  | list h =>
      cases h with
      | nil => exact .throw_left
      | cons hrow h => exact .pure (.cons hrow h)
  | same hdict hlist =>
      unfold insertRows
      split
      · cases hdict
      · split_ifs
        · exact .throw_left
        · split
          · exact .pure (forall₂_same (by simp [Value.isDict]))
          · cases v with
            | list rows => exact absurd rfl (hlist rows)
            | bytes octets => exact .pure (forall₂_same (by simp [Value.isDict]))
            | _ => exact .throw_left

theorem agree_addKeys_cons (key v w : Value) {rest others : Dict} (keys : InsertKeys)
    (h : ∀ keys, Agree Eq (addKeys keys rest) (addKeys keys others)) :
    Agree Eq (addKeys keys ((key, v) :: rest)) (addKeys keys ((key, w) :: others)) := by
  rw [addKeys, addKeys]
  split_ifs
  · exact h keys
  · refine (steady_lift _).bind_eq fun parsed => ?_
    split_ifs
    · exact .throw_bind
    · exact h _

theorem agree_addKeys {row other : Dict} (h : AlikeData row other) (keys : InsertKeys) :
    Agree Eq (addKeys keys row) (addKeys keys other) := by
  induction h generalizing keys with
  | nil => exact steady_pure keys
  | same key v _ ih => exact agree_addKeys_cons key v v keys ih
  | bound key _ _ _ ih => exact agree_addKeys_cons key _ _ keys ih

theorem agree_collectKeys {rows others : List Value} (h : List.Forall₂ AlikeRow rows others)
    (keys : InsertKeys) : Agree Eq (collectKeys keys rows) (collectKeys keys others) := by
  induction h generalizing keys with
  | nil => exact steady_pure keys
  | @cons row _ _ _ hrow _ ih =>
      cases hrow with
      | dict hdata => exact (agree_addKeys hdata keys).bind_eq ih
      | same hdict =>
          cases row with
          | dict entries => cases hdict
          | _ => exact .throw_left

theorem steady_keyColumns (keys : InsertKeys) : Steady (keyColumns t keys) := by
  induction keys with
  | nil => exact steady_pure []
  | cons key rest ih => exact agree_cons (steady_lift _) ih id

/-- A value that is stored is bound, and no more of it is left in the text than its placeholder. -/
theorem agree_stored {x y : Except Fault Value} :
    Agree Eq (do bindValue (← Compile.lift x)) (do bindValue (← Compile.lift y)) :=
  (Agree.lift fun _ _ _ _ => trivial).bind fun v w _ => agree_bindValue v w

theorem AlikeData.get? {row other : Dict} (h : AlikeData row other) (key : Value) :
    Assoc.get? key row = Assoc.get? key other ∨
      ∃ v w, Assoc.get? key row = some v ∧ Assoc.get? key other = some w ∧
        v.isRaw = false ∧ w.isRaw = false := by
  induction h with
  | nil => exact .inl rfl
  | same k v _ ih =>
      rw [Assoc.get?, Assoc.get?]
      split_ifs
      · exact .inl rfl
      · exact ih
  | bound k hv hw _ ih =>
      rw [Assoc.get?, Assoc.get?]
      split_ifs
      · exact .inr ⟨_, _, rfl, rfl, hv, hw⟩
      · exact ih

theorem rowValue_stored {row : Dict} {key v : Value} {parsed : DataKey}
    (hget : Assoc.get? key row = some v) (hv : v.isRaw = false) :
    rowValue t row key parsed = (do
      bindValue (← Compile.lift (storedValue parsed.isJson v))) := by
  unfold rowValue
  rw [hget]
  cases v with
  | raw sql parameters => cases hv
  | _ => rfl

theorem steady_rowValue (row : Dict) (key : Value) (parsed : DataKey) :
    Steady (rowValue t row key parsed) := by
  unfold rowValue
  split
  · exact agree_bindValue _ _
  · exact steady_splice _ _ _
  · exact agree_stored

theorem agree_rowValue {row other : Dict} (h : AlikeData row other) (key : Value)
    (parsed : DataKey) : Agree Eq (rowValue t row key parsed) (rowValue t other key parsed) := by
  rcases h.get? key with hsame | ⟨v, w, hrow, hother, hv, hw⟩
  · have hvalue : rowValue t row key parsed = rowValue t other key parsed := by
      unfold rowValue
      rw [hsame]
    rw [hvalue]
    exact steady_rowValue other key parsed
  · rw [rowValue_stored hrow hv, rowValue_stored hother hw]
    exact agree_stored

theorem agree_rowValues {row other : Dict} (h : AlikeData row other) (keys : InsertKeys) :
    Agree Eq (rowValues t row keys) (rowValues t other keys) := by
  induction keys with
  | nil => exact steady_pure []
  | cons key rest ih =>
      obtain ⟨key, parsed⟩ := key
      rw [rowValues_cons, rowValues_cons]
      exact agree_cons (agree_rowValue h key parsed) ih id

theorem agree_rowTuples {rows others : List Value} (h : List.Forall₂ AlikeRow rows others)
    (keys : InsertKeys) : Agree Eq (rowTuples t keys rows) (rowTuples t keys others) := by
  induction h with
  | nil => exact steady_pure []
  | @cons row _ _ _ hrow _ ih =>
      cases hrow with
      | dict hdata => exact agree_cons (agree_rowValues hdata keys) ih _
      | same hdict =>
          cases row with
          | dict entries => cases hdict
          | _ => exact ih

theorem agree_insert (table : Value) {rows others : Value} (h : AlikeRows rows others) :
    Agree AlikeCompiled (insert t table rows) (insert t table others) := by
  refine (agree_insertRows h).bind fun found more hfound => ?_
  refine (agree_collectKeys hfound []).bind_eq fun keys => ?_
  split_ifs
  · exact .throw_bind
  · refine (steady_keyColumns keys).bind_eq fun columns => ?_
    refine (agree_rowTuples hfound keys).bind_eq fun tuples => ?_
    exact (steady_lift _).bind_eq fun tableSql => agree_finish _ _

theorem agree_updateOf (table : Value) (sets : List Sql) {wheres others : Value}
    (h : AlikeTails wheres others) :
    Agree AlikeCompiled (updateOf t table sets wheres) (updateOf t table sets others) := by
  refine (steady_lift _).bind_eq fun tableSql => ?_
  exact (Tail.agree_compile h).bind_eq fun tail => agree_finish _ _

/-- What assigns a value that is not raw to a column. -/
def assigned (key : Value) (column : Sql) (parsed : DataKey) (v : Value) : Compile Sql :=
  match parsed.operator? with
  | some operator => do
      if !isNumber v then malformed key .arithmeticNeedsNumber .set
      let operand ← Compile.bindValue v
      return column ++ .text " = " :: column ++ .text (" " ++ operator.text ++ " ") :: operand
  | none => do
      let stored ← Compile.lift (storedValue parsed.isJson v)
      return column ++ .text " = " :: (← Compile.bindValue stored)

theorem assignment_eq {key v : Value} (hv : v.isRaw = false) :
    assignment t key v = (do
      let parsed ← Compile.lift (Key.dataKey key)
      let column ← t.column parsed.column
      assigned key column parsed v) := by
  unfold assignment assigned
  congr 1
  funext parsed
  congr 1
  funext column
  cases v with
  | raw sql parameters => cases hv
  | _ => cases parsed.operator? <;> rfl

theorem agree_assigned (key : Value) (column : Sql) (parsed : DataKey) (v w : Value) :
    Agree Eq (assigned key column parsed v) (assigned key column parsed w) := by
  unfold assigned
  split
  · dsimp only
    split_ifs
    · exact .throw_bind
    · exact .throw_bind
    · exact .throw_bind_right
    · exact agree_map (agree_bindValue v w) _
  · exact (Agree.lift fun _ _ _ _ => trivial).bind fun x y _ => agree_map (agree_bindValue x y) _

theorem steady_assignment (key v : Value) : Steady (assignment t key v) := by
  cases hraw : v.isRaw with
  | false =>
      rw [assignment_eq hraw]
      refine (steady_lift _).bind_eq fun parsed => ?_
      exact (steady_lift _).bind_eq fun column => agree_assigned key column parsed v v
  | true =>
      cases v with
      | raw sql parameters =>
          refine (steady_lift _).bind_eq fun parsed => ?_
          exact (steady_lift _).bind_eq fun column => agree_map (steady_splice _ _ _) _
      | _ => cases hraw

theorem agree_assignments {entries others : Dict} (h : AlikeData entries others) :
    Agree Eq (assignments t entries) (assignments t others) := by
  induction h with
  | nil => exact steady_pure []
  | same key v _ ih => exact agree_cons (steady_assignment key v) ih id
  | bound key hv hw _ ih =>
      refine agree_cons ?_ ih id
      rw [assignment_eq hv, assignment_eq hw]
      refine (steady_lift _).bind_eq fun parsed => ?_
      exact (steady_lift _).bind_eq fun column => agree_assigned key column parsed _ _

theorem agree_update (table : Value) {data other wheres others : Value} (h : AlikeRow data other)
    (hwheres : AlikeTails wheres others) :
    Agree AlikeCompiled (update t table data wheres) (update t table other others) := by
  cases h with
  | dict h =>
      have hsets := agree_assignments (t := t) h
      cases h with
      | nil => exact .throw_left
      | same key v h => exact hsets.bind_eq fun sets => agree_updateOf table sets hwheres
      | bound key hv hw h => exact hsets.bind_eq fun sets => agree_updateOf table sets hwheres
  | same hdict =>
      cases data with
      | dict entries => cases hdict
      | _ => exact .throw_left

theorem agree_delete (table : Value) {wheres others : Value} (h : AlikeTails wheres others) :
    Agree AlikeCompiled (delete t table wheres) (delete t table others) := by
  refine (steady_lift _).bind_eq fun tableSql => ?_
  exact (Tail.agree_compile h).bind_eq fun tail => agree_finish _ _

theorem agree_nestedReplace {pairs others : Dict} (h : pairs.length = others.length)
    (expression : Sql) : Agree Eq (nestedReplace expression pairs) (nestedReplace expression others) := by
  induction pairs generalizing others expression with
  | nil =>
      cases others with
      | nil => exact steady_pure expression
      | cons pair rest => cases h
  | cons pair rest ih =>
      cases others with
      | nil => cases h
      | cons other more =>
          refine (agree_bindValue _ _).bind_eq fun oldSql => ?_
          refine (agree_bindValue _ _).bind_eq fun newSql => ?_
          exact ih (Nat.succ.inj h) _

/-- Replacements in the same columns, as many in each. -/
inductive AlikeReplacementEntries : Dict → Dict → Prop
  | nil : AlikeReplacementEntries [] []
  | cons (column : Value) {pairs others : Dict} {rest more : Dict}
      (hlength : pairs.length = others.length) (h : AlikeReplacementEntries rest more) :
      AlikeReplacementEntries ((column, .dict pairs) :: rest) ((column, .dict others) :: more)

/-- Replacements of one shape; what is no dictionary is refused. -/
inductive AlikeReplacements : Value → Value → Prop
  | dict {entries others : Dict} (h : AlikeReplacementEntries entries others) :
      AlikeReplacements (.dict entries) (.dict others)
  | same {v : Value} (hdict : v.isDict = false) : AlikeReplacements v v

theorem agree_replacements {entries others : Dict} (h : AlikeReplacementEntries entries others) :
    Agree Eq (replacements t entries) (replacements t others) := by
  induction h with
  | nil => exact steady_pure []
  | @cons column pairs others _ _ hlength _ ih =>
      refine (steady_lift _).bind_eq fun columnSql => ?_
      refine (agree_nestedReplace hlength columnSql).bind_eq fun expression => ?_
      have hempty : pairs.isEmpty = others.isEmpty := by
        rw [Bool.eq_iff_iff, List.isEmpty_iff_length_eq_zero, List.isEmpty_iff_length_eq_zero, hlength]
      rw [hempty]
      exact agree_map ih _

theorem agree_replace (table : Value) {columns others wheres ends : Value}
    (h : AlikeReplacements columns others) (hwheres : AlikeTails wheres ends) :
    Agree AlikeCompiled (replace t table columns wheres) (replace t table others ends) := by
  cases h with
  | dict h =>
      refine (agree_replacements h).bind_eq fun sets => ?_
      split_ifs
      · exact .throw_bind
      · exact agree_updateOf table sets hwheres
  | same hdict =>
      cases columns with
      | dict entries => cases hdict
      | _ => exact .throw_left

theorem agree_raw (statement : Value) :
    Agree AlikeCompiled (raw t statement) (raw t statement) := by
  cases statement with
  | raw sql parameters => exact (steady_splice _ _ _).bind_eq fun sql => agree_finish sql _
  | _ => exact .throw_left

end Statement

end QueryLoom
