import QueryLoom.Proofs.Statement.RawFree
import QueryLoom.Proofs.Statement.Written

/-!
What the predicates of conditions write. A predicate has a left side, which is a column or the call of
a function, and a test of it by the operator of the key.
-/

namespace QueryLoom

/-- Whether a value is bound as a single parameter wherever a condition takes a scalar: it is not
null, no container and not raw. -/
def Value.isLeaf : Value → Bool
  | .null | .list _ | .dict _ | .raw _ _ => false
  | _ => true

namespace Conditions

open Lexer

namespace Place

/-- The left side of the predicate for a key. -/
def left (p : Place) (parsed : ConditionKey) : Compile Sql :=
  if parsed.isFunction then pure [.text parsed.column] else p.target.column parsed.column

/-- The test of a left side by an operator. -/
def test (p : Place) (key : Value) (column : Sql) (v : Value) :
    Option ConditionOperator → Compile Sql
  | none => p.equality key column false v
  | some .not => p.equality key column true v
  | some .like => p.like key column false v
  | some .notLike => p.like key column true v
  | some .between => p.between key column false v
  | some .notBetween => p.between key column true v
  | some .regexp => p.regexp key column v
  | some .greater => p.comparison key column .greater v
  | some .greaterOrEqual => p.comparison key column .greaterOrEqual v
  | some .less => p.comparison key column .less v
  | some .lessOrEqual => p.comparison key column .lessOrEqual v

theorem predicate_str (p : Place) (text : String) (v : Value) :
    p.predicate (.str text) v = (do
      let parsed ← Compile.lift (Key.conditionKey text)
      let column ← p.left parsed
      p.test (.str text) column v parsed.operator) := by
  simp only [predicate, left]
  congr 1
  funext parsed
  obtain ⟨column, operator, isFunction⟩ := parsed
  cases isFunction with
  | false =>
      cases operator with
      | none => rfl
      | some operator => cases operator <;> rfl
  | true =>
      cases operator with
      | none => rfl
      | some operator => cases operator <;> rfl

end Place

/-- Whether a value is neither a container nor raw. -/
def isScalar : Value → Bool
  | .dict _ | .list _ | .raw _ _ => false
  | _ => true

@[simp] theorem Place.yields_malformed {α : Type} {p : Place} {subject : Value} {reason : Reason}
    {s t : Parameters} {a : α} : (p.malformed subject reason : Compile α).Yields s a t ↔ False :=
  Compile.yields_throw _

@[simp] theorem Place.yields_checkScalar {p : Place} {key v : Value} {s t : Parameters} {x : Unit} :
    (p.checkScalar key v).Yields s x t ↔ isScalar v = true ∧ t = s := by
  cases v <;> simp [Place.checkScalar, isScalar]

/-! Leaves. -/

section Leaves

variable {p : Place} {key v : Value} (hv : v.isLeaf = true)

include hv

theorem Place.operand_leaf : p.operand key v = (do
    p.checkScalar key v
    Compile.bindValue v) := by
  cases v <;> first | rfl | cases hv

theorem Place.equality_leaf (column : Sql) (negated : Bool) :
    p.equality key column negated v = (do
      p.checkScalar key v
      let right ← Compile.bindValue (bindScalar v)
      return column ++ .text (if negated then " != " else " = ") :: right) := by
  cases v <;> first | rfl | cases hv

theorem Place.comparison_leaf (column : Sql) (operator : ConditionOperator) :
    p.comparison key column operator v = (do
      let right ← p.operand key v
      return column ++ .text (" " ++ operator.text ++ " ") :: right) := by
  cases v <;> first | rfl | cases hv

theorem Place.regexp_leaf (column : Sql) :
    p.regexp key column v = (do
      let right ← p.operand key v
      return column ++ .text (" " ++ p.target.dialect.regexpOperator ++ " ") :: right) := by
  cases v <;> first | rfl | cases hv

theorem Place.likeItems_leaf (column : Sql) (operator : String) (rest : List Value) :
    p.likeItems key column operator (v :: rest) = (do
      let pattern ← Compile.lift (likePattern v)
      let right ← Compile.bindValue (.str pattern)
      return (column ++ .text (" " ++ operator ++ " ") :: right) ::
        (← p.likeItems key column operator rest)) := by
  cases v <;> first | rfl | cases hv

theorem Place.likeGroup_leaf : p.likeGroup key v = pure (.or, v) := by
  cases v <;> first | rfl | cases hv

end Leaves

variable {backslash : Bool} {p : Place} {key : Value} {column : Sql} {s t : Parameters} {sql : Sql}

/-! Tests of anything but patterns. -/

/-- Placeholders of values that are bound one after the other. -/
inductive Placeholders : Parameters → List Sql → Parameters → Prop
  | nil (s : Parameters) : Placeholders s [] s
  | cons {v : Value} {right : Sql} {rows : List Sql} {s u t : Parameters}
      (hbind : (Compile.bindValue v).Yields s right u) (hrest : Placeholders u rows t) :
      Placeholders s (right :: rows) t

/-- The texts between a left side and the value that it is compared with. -/
def comparisonTexts : List String :=
  [" = ", " != ", " > ", " >= ", " < ", " <= ", " REGEXP ", " ~ "]

/-- The forms in which a left side is tested against values that are not raw. -/
inductive TestRow (column : Sql) (s : Parameters) : Sql → Parameters → Prop
  | null (negated : Bool) :
      TestRow column s (column ++ [.text (if negated then " IS NOT NULL" else " IS NULL")]) s
  | bound {operator : String} {v : Value} {right : Sql} {t : Parameters}
      (hoperator : operator ∈ comparisonTexts) (hbind : (Compile.bindValue v).Yields s right t) :
      TestRow column s (column ++ .text operator :: right) t
  | members (negated : Bool) {rows : List Sql} {t : Parameters} (hrows : Placeholders s rows t) :
      TestRow column s (column ++ .text (if negated then " NOT IN (" else " IN (") ::
        Sql.join ", " rows ++ [.text ")"]) t
  | range (negated : Bool) {low high : Value} {lowSql highSql : Sql} {u t : Parameters}
      (hlow : (Compile.bindValue low).Yields s lowSql u)
      (hhigh : (Compile.bindValue high).Yields u highSql t) :
      TestRow column s (parenthesized
        (column ++ .text (if negated then " NOT BETWEEN " else " BETWEEN ") ::
          (lowSql ++ .text " AND " :: highSql))) t

theorem yields_operand {v : Value} (hv : v.rawFree = true) (h : (p.operand key v).Yields s sql t) :
    (Compile.bindValue v).Yields s sql t := by
  cases v with
  | raw fragment parameters => cases hv
  | _ =>
      simp only [Place.operand, Compile.yields_bind, Place.yields_checkScalar] at h
      obtain ⟨_, _, ⟨_, rfl⟩, h⟩ := h
      exact h

theorem placeholders_boundItems {items : List Value} {rows : List Sql}
    (h : (p.boundItems key items).Yields s rows t) : Placeholders s rows t := by
  induction items generalizing s rows with
  | nil =>
      simp only [Place.boundItems, Compile.yields_pure] at h
      obtain ⟨rfl, rfl⟩ := h
      exact .nil _
  | cons v rest ih =>
      simp only [Place.boundItems, Compile.yields_bind, Compile.yields_pure,
        Place.yields_checkScalar] at h
      obtain ⟨_, _, ⟨_, rfl⟩, item, u, hbind, more, _, hrest, rfl, rfl⟩ := h
      exact .cons hbind (ih hrest)

theorem testRow_equality {negated : Bool} {v : Value} (hv : v.rawFree = true)
    (h : (p.equality key column negated v).Yields s sql t) : TestRow column s sql t := by
  have hoperator : (if negated then " != " else " = ") ∈ comparisonTexts := by
    cases negated <;> decide
  cases v with
  | null =>
      simp only [Place.equality, Compile.yields_pure] at h
      obtain ⟨rfl, rfl⟩ := h
      exact .null negated
  | list items =>
      cases items with
      | nil => simp [Place.equality] at h
      | cons v rest =>
          simp only [Place.equality, Compile.yields_bind, Compile.yields_pure] at h
          obtain ⟨rows, _, hrows, rfl, rfl⟩ := h
          exact .members negated (placeholders_boundItems hrows)
  | raw fragment parameters => cases hv
  | _ =>
      simp only [Place.equality, Compile.yields_bind, Compile.yields_pure,
        Place.yields_checkScalar] at h
      obtain ⟨_, _, ⟨_, rfl⟩, right, _, hbind, rfl, rfl⟩ := h
      exact .bound hoperator hbind

theorem testRow_comparison {operator : ConditionOperator} {v : Value} (hv : v.rawFree = true)
    (hoperator : " " ++ operator.text ++ " " ∈ comparisonTexts)
    (h : (p.comparison key column operator v).Yields s sql t) : TestRow column s sql t := by
  cases v with
  | null => simp [Place.comparison] at h
  | list items => simp [Place.comparison] at h
  | _ =>
      simp only [Place.comparison, Compile.yields_bind, Compile.yields_pure] at h
      obtain ⟨right, _, hright, rfl, rfl⟩ := h
      exact .bound hoperator (yields_operand hv hright)

theorem testRow_regexp {v : Value} (hv : v.rawFree = true)
    (h : (p.regexp key column v).Yields s sql t) : TestRow column s sql t := by
  have hoperator : " " ++ p.target.dialect.regexpOperator ++ " " ∈ comparisonTexts := by
    cases p.target.dialect <;> decide
  cases v with
  | null => simp [Place.regexp] at h
  | list items => simp [Place.regexp] at h
  | _ =>
      simp only [Place.regexp, Compile.yields_bind, Compile.yields_pure] at h
      obtain ⟨right, _, hright, rfl, rfl⟩ := h
      exact .bound hoperator (yields_operand hv hright)

theorem testRow_between {negated : Bool} {v : Value} (hv : v.rawFree = true)
    (h : (p.between key column negated v).Yields s sql t) : TestRow column s sql t := by
  unfold Place.between at h
  split at h
  · rename_i low high
    have hitems := Value.rawFree_list hv
    simp only [Compile.yields_bind, Compile.yields_pure] at h
    obtain ⟨lowSql, _, hlow, highSql, _, hhigh, rfl, rfl⟩ := h
    have hrange : TestRow column s _ _ := .range negated
      (yields_operand (hitems low (by simp)) hlow) (yields_operand (hitems high (by simp)) hhigh)
    simpa [parenthesized] using hrange
  · simp at h

/-- Whether an operator tests patterns. -/
def testsPatterns : Option ConditionOperator → Bool
  | some .like | some .notLike => true
  | _ => false

/-- The operator that tests a pattern, or its negation. -/
def patternOperator (negated : Bool) : ConditionOperator := if negated then .notLike else .like

theorem eq_patternOperator {operator : Option ConditionOperator}
    (h : testsPatterns operator = true) : ∃ negated, operator = some (patternOperator negated) := by
  unfold testsPatterns at h
  split at h
  · exact ⟨false, rfl⟩
  · exact ⟨true, rfl⟩
  · cases h

theorem Place.test_patternOperator (column : Sql) (v : Value) (negated : Bool) :
    p.test key column v (some (patternOperator negated)) = p.like key column negated v := by
  cases negated <;> rfl

/-- A test by any operator but those for patterns has one of the forms. -/
theorem testRow_test {operator : Option ConditionOperator} {v : Value} (hv : v.rawFree = true)
    (hoperator : testsPatterns operator = false)
    (h : (p.test key column v operator).Yields s sql t) : TestRow column s sql t := by
  cases operator with
  | none => exact testRow_equality hv h
  | some operator =>
      cases operator with
      | not => exact testRow_equality hv h
      | like | notLike => cases hoperator
      | between | notBetween => exact testRow_between hv h
      | regexp => exact testRow_regexp hv h
      | greater | greaterOrEqual | less | lessOrEqual => exact testRow_comparison hv (by decide) h

theorem Placeholders.written {rows : List Sql} (h : Placeholders s rows t) (hs : s.NamesTokens) :
    WrittenAll backslash s rows t := by
  induction h with
  | nil => exact .nil
  | @cons v right rows s u t hbind _ ih =>
      have hfirst : Written backslash s right u := written_bindValue hs hbind
      exact .cons hfirst (ih (hfirst.advances.namesTokens hs))

theorem isSpacer_of_mem_comparisonTexts : ∀ operator ∈ comparisonTexts, isSpacer operator = true := by
  decide

theorem TestRow.written (h : TestRow column s sql t) (hs : s.NamesTokens)
    (hcolumn : Written backslash s column s) : Written backslash s sql t := by
  cases h with
  | null negated => cases negated <;> exact hcolumn.back rfl
  | bound hoperator hbind =>
      have hright : Written backslash s _ t := written_bindValue hs hbind
      exact hcolumn.between hright (isSpacer_of_mem_comparisonTexts _ hoperator)
  | @members negated rows _ hrows =>
      have hitems : Written backslash s (Sql.join ", " rows) t := (hrows.written hs).join rfl
      cases negated <;> exact (hcolumn.between hitems rfl).back rfl
  | range negated hlow hhigh =>
      have hlow' : Written backslash s _ _ := written_bindValue hs hlow
      have hnames := hlow'.advances.namesTokens hs
      have hhigh' : Written backslash _ _ t := written_bindValue hnames hhigh
      cases negated <;>
        exact ((hcolumn.between (hlow'.between hhigh' rfl) rfl).front rfl).back rfl

/-! Patterns. -/

/-- The patterns that a value stands for. -/
def patternItems : Value → List Value
  | .list items => items
  | single => [single]

theorem patternItems_leaf {v : Value} (hv : v.isLeaf = true) : patternItems v = [v] := by
  cases v <;> first | rfl | cases hv

/-- The operator of pattern tests. -/
def Place.likeText (p : Place) (negated : Bool) : String :=
  if negated then "NOT " ++ p.target.dialect.likeOperator else p.target.dialect.likeOperator

/-- The patterns under a connective are those of the value itself, or those under its one key. -/
theorem yields_likeGroup {v patterns : Value} {connective : Connective}
    (h : (p.likeGroup key v).Yields s (connective, patterns) t) :
    t = s ∧ (connective = .or ∧ patterns = v ∨ ∃ name, v = .dict [(.str name, patterns)] ∧
      Connective.ofText? name = some connective) := by
  unfold Place.likeGroup at h
  split at h
  · rename_i name items
    cases hname : Connective.ofText? name with
    | none => simp [hname] at h
    | some found =>
        simp only [hname, Compile.yields_pure, Prod.mk.injEq] at h
        obtain ⟨⟨rfl, rfl⟩, rfl⟩ := h
        exact ⟨rfl, .inr ⟨name, rfl, hname⟩⟩
  · simp at h
  · simp only [Compile.yields_pure, Prod.mk.injEq] at h
    obtain ⟨⟨rfl, rfl⟩, rfl⟩ := h
    exact ⟨rfl, .inl ⟨rfl, rfl⟩⟩

theorem rawFree_patterns {v patterns : Value} {connective : Connective} (hv : v.rawFree = true)
    (h : (p.likeGroup key v).Yields s (connective, patterns) t) :
    ∀ w ∈ patternItems patterns, w.rawFree = true := by
  have hpatterns : patterns.rawFree = true := by
    rcases (yields_likeGroup h).2 with ⟨_, rfl⟩ | ⟨name, rfl, _⟩
    · exact hv
    · exact Value.rawFree_dict.mp hv (.str name, patterns) (by simp)
  cases patterns with
  | list items => exact Value.rawFree_list hpatterns
  | _ => simpa [patternItems] using hpatterns

theorem Place.like_eq (negated : Bool) (v : Value) :
    p.like key column negated v = (do
      let group ← p.likeGroup key v
      if (patternItems group.2).isEmpty then p.malformed key .likeEmpty
      else
        let tests ← p.likeItems key column (p.likeText negated) (patternItems group.2)
        return parenthesized (Sql.join (" " ++ group.1.text ++ " ") tests)) := by
  unfold Place.like
  congr 1

/-- Pattern tests stand between parentheses, joined by the connective. -/
theorem yields_like {negated : Bool} {v : Value}
    (h : (p.like key column negated v).Yields s sql t) :
    ∃ connective patterns rows,
      (p.likeGroup key v).Yields s (connective, patterns) s ∧ patternItems patterns ≠ [] ∧
      (p.likeItems key column (p.likeText negated) (patternItems patterns)).Yields s rows t ∧
      sql = parenthesized (Sql.join (" " ++ connective.text ++ " ") rows) := by
  rw [Place.like_eq, Compile.yields_bind] at h
  obtain ⟨⟨connective, patterns⟩, u, hgroup, h⟩ := h
  obtain ⟨rfl, _⟩ := yields_likeGroup hgroup
  refine ⟨connective, patterns, ?_⟩
  split_ifs at h with hempty
  · simp at h
  · simp only [Compile.yields_bind, Compile.yields_pure] at h
    obtain ⟨rows, _, hrows, rfl, rfl⟩ := h
    refine ⟨rows, hgroup, ?_, hrows, rfl⟩
    rwa [List.isEmpty_iff] at hempty

theorem likePattern_eq_ok {v : Value} {pattern : String} :
    likePattern v = .ok pattern ↔ v.hasText = true ∧ pattern = patternOf v.plain := by
  unfold likePattern Value.toText
  split_ifs with h <;> simp [Except.map, h, eq_comm]

/-- The test against the first of several patterns, and those against the others. -/
theorem yields_likeItems_cons {operator : String} {v : Value} {rest : List Value} {rows : List Sql}
    (hv : v.rawFree = true) (h : (p.likeItems key column operator (v :: rest)).Yields s rows t) :
    ∃ right u more, v.isLeaf = true ∧ v.hasText = true ∧
      (Compile.bindValue (.str (patternOf v.plain))).Yields s right u ∧
      (p.likeItems key column operator rest).Yields u more t ∧
      rows = (column ++ .text (" " ++ operator ++ " ") :: right) :: more := by
  have hleaf : v.isLeaf = true := by
    cases v with
    | raw fragment parameters => cases hv
    | null => simp [Place.likeItems] at h
    | list items => simp [Place.likeItems] at h
    | dict entries => simp [Place.likeItems] at h
    | _ => rfl
  simp only [Place.likeItems_leaf hleaf, Compile.yields_bind, Compile.yields_lift,
    likePattern_eq_ok, Compile.yields_pure] at h
  obtain ⟨pattern, _, ⟨⟨htext, rfl⟩, rfl⟩, right, u, hbind, more, _, hrest, rfl, rfl⟩ := h
  exact ⟨right, u, more, hleaf, htext, hbind, hrest, rfl⟩

theorem writtenAll_likeItems {operator : String} {items : List Value} {rows : List Sql}
    (hs : s.NamesTokens) (hcolumn : ∀ u, Written backslash u column u)
    (hoperator : isSpacer (" " ++ operator ++ " ") = true)
    (hitems : ∀ v ∈ items, v.rawFree = true)
    (h : (p.likeItems key column operator items).Yields s rows t) :
    WrittenAll backslash s rows t := by
  induction items generalizing s rows with
  | nil =>
      simp only [Place.likeItems, Compile.yields_pure] at h
      obtain ⟨rfl, rfl⟩ := h
      exact .nil
  | cons v rest ih =>
      obtain ⟨right, u, more, _, _, hbind, hrest, rfl⟩ :=
        yields_likeItems_cons (hitems v (by simp)) h
      have hright : Written backslash s right u := written_bindValue hs hbind
      have hrow := (hcolumn s).between hright hoperator
      have hmore := ih (hright.advances.namesTokens hs) (fun w hw => hitems w (by simp [hw])) hrest
      exact .cons hrow hmore

theorem isSpacer_connective (connective : Connective) :
    isSpacer (" " ++ connective.text ++ " ") = true := by
  cases connective <;> rfl

theorem isSpacer_likeText (negated : Bool) : isSpacer (" " ++ p.likeText negated ++ " ") = true := by
  unfold Place.likeText
  cases p.target.dialect <;> cases negated <;> rfl

theorem written_parenthesized (h : Written backslash s sql t) :
    Written backslash s (parenthesized sql) t :=
  (h.front rfl).back rfl

theorem written_like {negated : Bool} {v : Value} (hs : s.NamesTokens)
    (hcolumn : ∀ u, Written backslash u column u) (hv : v.rawFree = true)
    (h : (p.like key column negated v).Yields s sql t) : Written backslash s sql t := by
  obtain ⟨connective, patterns, rows, hgroup, _, hrows, rfl⟩ := yields_like h
  have hitems := rawFree_patterns hv hgroup
  have hall := writtenAll_likeItems hs hcolumn (isSpacer_likeText negated) hitems hrows
  exact written_parenthesized (hall.join (isSpacer_connective connective))

theorem isPlain_of_isConditionChar {c : Char} (h : Key.isConditionChar c = true) :
    isPlain c = true := by
  have hne : ∀ d : Char, Key.isConditionChar d = false → c ≠ d := by
    rintro d hd rfl
    rw [h] at hd
    cases hd
  simp [isPlain, hne '"' (by decide), hne '\'' (by decide), hne '`' (by decide),
    hne '-' (by decide), hne '/' (by decide), hne ':' (by decide)]

theorem column_of_checked {token : List Char} {operator : Option ConditionOperator}
    {isFunction : Bool} {parsed : ConditionKey}
    (h : (if isFunction then do
        Key.checkCall token
        Except.ok ⟨String.ofList token, operator, isFunction⟩
      else Except.ok ⟨String.ofList token, operator, isFunction⟩) = Except.ok parsed) :
    parsed.column.toList = token ∧
      (parsed.isFunction = true → Key.checkCall parsed.column.toList = .ok ()) := by
  cases isFunction with
  | false =>
      cases h
      simp
  | true =>
      obtain ⟨_, hcall, h⟩ := Except.bind_eq_ok.mp h
      cases h
      simpa using hcall

/-- The column of a key is what stands before its bracket, and a call has been checked. -/
theorem conditionKey_eq {text : String} {parsed : ConditionKey}
    (h : Key.conditionKey text = .ok parsed) :
    parsed.column.toList = text.toList.takeWhile Key.isConditionChar ∧
      (parsed.isFunction = true → Key.checkCall parsed.column.toList = .ok ()) := by
  unfold Key.conditionKey Key.orFault at h
  split at h
  · rename_i hread
    cases h
    unfold Key.readConditionKey at hread
    generalize List.takeWhile Key.isConditionChar text.toList = token at hread ⊢
    dsimp only at hread
    -- without a bracket, or with one that holds an operator, the call is checked in the same way
    split at hread
    · cases hread
    · split at hread
      · cases hread
      · split at hread
        · obtain ⟨_, hoperator, hread⟩ := Except.bind_eq_ok.mp hread
          obtain ⟨_, _, hread⟩ := Except.bind_eq_ok.mp hread
          exact column_of_checked hread
        · split at hread
          · obtain ⟨_, hoperator, hread⟩ := Except.bind_eq_ok.mp hread
            obtain ⟨_, _, hread⟩ := Except.bind_eq_ok.mp hread
            exact column_of_checked hread
          · cases hread
  · simp at h

theorem written_left {text : String} {parsed : ConditionKey}
    (hp : p.target.PlainPrefix backslash) (hkey : Key.conditionKey text = .ok parsed)
    (h : (p.left parsed).Yields s column t) : t = s ∧ ∀ u, Written backslash u column u := by
  unfold Place.left at h
  split_ifs at h with hfunction
  · rw [Compile.yields_pure] at h
    obtain ⟨rfl, rfl⟩ := h
    refine ⟨rfl, fun u => .of_aligned (.text ?_ .nil) rfl⟩
    rw [(conditionKey_eq hkey).1]
    have hchars := List.all_takeWhile (p := Key.isConditionChar) (l := text.toList)
    rw [List.all_eq_true] at hchars
    exact isCode_of_forall fun c hc => isPlain_of_isConditionChar (hchars c hc)
  · obtain ⟨hrow, rfl⟩ := Target.yields_column h
    exact ⟨rfl, fun u => .of_aligned (hrow.aligned hp) hrow.params_eq⟩

/-- A predicate without raw values is an aligned row of what it binds. -/
theorem written_predicate {v : Value} (hp : p.target.PlainPrefix backslash) (hs : s.NamesTokens)
    (hv : v.rawFree = true) (h : (p.predicate key v).Yields s sql t) :
    Written backslash s sql t := by
  cases key with
  | str text =>
      simp only [Place.predicate_str, Compile.yields_bind, Compile.yields_lift] at h
      obtain ⟨parsed, _, ⟨hkey, rfl⟩, column, _, hleft, h⟩ := h
      obtain ⟨rfl, hcolumn⟩ := written_left hp hkey hleft
      cases htests : testsPatterns parsed.operator with
      | false => exact (testRow_test hv htests h).written hs (hcolumn _)
      | true =>
          obtain ⟨negated, hoperator⟩ := eq_patternOperator htests
          rw [hoperator, Place.test_patternOperator] at h
          exact written_like hs hcolumn hv h
  | _ => simp [Place.predicate] at h

/-- The comparison of two columns binds nothing. -/
theorem yields_columns {v : Value} (h : (p.columns v).Yields s sql t) :
    ∃ left right operator, ColumnRow p.target.tablePrefix left ∧
      ColumnRow p.target.tablePrefix right ∧ operator ∈ comparisonTexts ∧
      sql = left ++ .text operator :: right ∧ t = s := by
  unfold Place.columns at h
  dsimp only at h
  split at h
  · simp at h
  · simp only [Compile.yields_bind, Compile.yields_pure] at h
    rename_i comparison _
    obtain ⟨left, _, hleft, right, _, hright, rfl, rfl⟩ := h
    obtain ⟨hleftRow, rfl⟩ := Target.yields_column hleft
    obtain ⟨hrightRow, rfl⟩ := Target.yields_column hright
    have hoperator : " " ++ comparison.operator.text ++ " " ∈ comparisonTexts := by
      cases comparison.operator <;> decide
    exact ⟨left, right, _, hleftRow, hrightRow, hoperator, rfl, rfl⟩

theorem written_columns {v : Value} (hp : p.target.PlainPrefix backslash)
    (h : (p.columns v).Yields s sql t) : Written backslash s sql t := by
  obtain ⟨left, right, operator, hleft, hright, hoperator, rfl, rfl⟩ := yields_columns h
  have hleft' : Written backslash t left t := .of_aligned (hleft.aligned hp) hleft.params_eq
  have hright' : Written backslash t right t := .of_aligned (hright.aligned hp) hright.params_eq
  exact hleft'.between hright' (isSpacer_of_mem_comparisonTexts operator hoperator)

theorem writtenAll_columnsList {items : List Value} {rows : List Sql}
    (hp : p.target.PlainPrefix backslash) (h : (p.columnsList items).Yields s rows t) :
    WrittenAll backslash s rows t := by
  induction items generalizing s rows with
  | nil =>
      simp only [Place.columnsList, Compile.yields_pure] at h
      obtain ⟨rfl, rfl⟩ := h
      exact .nil
  | cons v rest ih =>
      simp only [Place.columnsList, Compile.yields_bind, Compile.yields_pure] at h
      obtain ⟨first, _, hfirst, more, _, hmore, rfl, rfl⟩ := h
      exact .cons (written_columns hp hfirst) (ih hmore)

end Conditions

end QueryLoom
