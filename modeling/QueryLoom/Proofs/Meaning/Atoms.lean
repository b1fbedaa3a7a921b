import QueryLoom.Proofs.Conditions.Predicate
import QueryLoom.Proofs.Meaning.Parser

/-!
Predicates are atoms. The left side of a predicate is a quoted column or the call of a function that
is closed by its last character; the test behind it goes on with it, so that a parser reads the whole
predicate as one operand. Tests between parentheses are groups of such atoms.
-/

namespace QueryLoom

open Lexer Parsing Text

/-! Calls. -/

/-- Whether parentheses that are open close with the last character, and not before. -/
def closesAtEnd : Nat → List Char → Bool
  | _, [] => false
  | depth, c :: rest =>
      if c = '(' then closesAtEnd (depth + 1) rest
      else if c = ')' then if depth = 1 then rest.isEmpty else closesAtEnd (depth - 1) rest
      else closesAtEnd depth rest

/-- Whether a text is a single call: a name that is no keyword of conditions, and parentheses that are
closed by the last character. -/
def isSingleCall (cs : List Char) : Bool :=
  (Token.word (cs.takeWhile (· != '('))).role == .plain && closesAtEnd 0 (cs.dropWhile (· != '('))

namespace Token

theorem readFrom_word {cs : List Char} (h : ∀ c ∈ cs, isWord c = true) (word : List Char)
    (ls : List Lexeme) : readFrom word (cs.map .code ++ ls) = readFrom (word ++ cs) ls := by
  induction cs generalizing word with
  | nil => simp
  | cons c rest ih =>
      rw [List.forall_mem_cons] at h
      have hc : wordChar? (.code c) = some c := by
        simp [wordChar?, h.1]
      rw [List.map_cons, List.cons_append, readFrom_of_some hc, ih h.2]
      simp

/-- Between parentheses an atom goes on with every word. -/
theorem scan_ofWord (depth : Nat) (between : Bool) (word : List Char) (ts : List Token) :
    scan (depth + 1) between (ofWord word ++ ts) = scan (depth + 1) between ts := by
  unfold ofWord
  split_ifs
  · rfl
  · rw [List.singleton_append, scan]
    have hinside : inside (depth + 1) between (Token.word word).role = some (depth + 1, between) := by
      unfold role
      dsimp only
      split_ifs <;> rfl
    rw [hinside]
    rfl

/-- Within a call the parser stays inside the atom up to the parenthesis that ends the call. -/
theorem scan_call {depth : Nat} {cs : List Char} (h : closesAtEnd (depth + 1) cs = true)
    (word : List Char) :
    scan (depth + 1) false (readFrom word (cs.map .code)) = some (0, false) := by
  induction cs generalizing depth word with
  | nil => cases h
  | cons c rest ih =>
      rw [List.map_cons]
      cases hc : wordChar? (.code c) with
      | some d =>
          have hword : isWord c = true := by
            by_contra hnot
            simp [wordChar?, hnot] at hc
          have hopen : c ≠ '(' := by
            rintro rfl
            exact absurd hword (by decide)
          have hclose : c ≠ ')' := by
            rintro rfl
            exact absurd hword (by decide)
          rw [closesAtEnd, if_neg hopen, if_neg hclose] at h
          rw [readFrom_of_some hc]
          exact ih h _
      | none =>
          rw [readFrom_of_none hc, List.append_assoc, scan_ofWord]
          rw [closesAtEnd] at h
          split_ifs at h with hopen hclose hdepth
          · subst hopen
            exact ih h []
          · subst hclose
            rw [List.isEmpty_iff] at h
            subst h
            obtain rfl : depth = 0 := Nat.succ.inj hdepth
            rfl
          · subst hclose
            obtain ⟨lower, rfl⟩ : ∃ lower, depth = lower + 1 :=
              Nat.exists_eq_succ_of_ne_zero fun hzero => hdepth (by rw [hzero])
            exact ih h []
          · rw [ofLexeme]
            split_ifs
            · exact ih h []
            · rw [List.singleton_append, scan, role, if_neg hopen, if_neg hclose]
              exact ih h []

end Token

theorem isWord_of_isNameChar {c : Char} (h : Key.isNameChar c = true) : isWord c = true := by
  rw [isWord, ← Key.isNameChar, h]
  rfl

/-- A single call is an atom. -/
theorem isAtom_call {column : String} (hcheck : Key.checkCall column.toList = .ok ())
    (hsingle : isSingleCall column.toList = true) : IsAtom (Token.ofText column) := by
  rw [isSingleCall, Bool.and_eq_true, beq_iff_eq] at hsingle
  obtain ⟨hplain, hcloses⟩ := hsingle
  have hcolumn := (List.takeWhile_append_dropWhile (p := (· != '(')) (l := column.toList)).symm
  unfold Key.checkCall at hcheck
  dsimp only at hcheck
  generalize column.toList.takeWhile (· != '(') = name at hcheck hplain hcolumn
  cases hcall : column.toList.dropWhile (· != '(') with
  | nil =>
      rw [hcall] at hcloses
      cases hcloses
  | cons c rest =>
      obtain rfl : c = '(' := by
        have hhead := List.head?_dropWhile_not (· != '(') column.toList
        simpa [hcall] using hhead
      rw [hcall] at hcloses hcolumn
      split_ifs at hcheck with hbad
      simp only [Bool.or_eq_true, not_or, Bool.not_eq_true', Bool.not_eq_false, List.all_eq_true]
        at hbad
      have hname : ∀ c ∈ name, isWord c = true := fun c hc => isWord_of_isNameChar (hbad.1.2 c hc)
      have hword : Token.ofWord name = [.word name] := by
        rw [Token.ofWord, if_neg hbad.1.1]
      refine ⟨.word name, .symbol '(' :: Token.readFrom [] (rest.map .code), ?_, hplain, ?_⟩
      · rw [Token.ofText, Token.ofLexemes, hcolumn, List.map_append, Token.readFrom_word hname,
          List.nil_append, List.map_cons, Token.readFrom_of_none rfl, hword]
        rfl
      · exact Token.scan_call hcloses []

/-! Tests. -/

theorem Sql.tokens_text (backslash : Bool) (s : String) :
    Sql.tokens backslash [.text s] = Token.ofText s := by
  simp [Sql.tokens, Token.ofText, Sql.lexemes, Piece.lexemes]

theorem Sql.tokens_param (backslash : Bool) (name : String) :
    Sql.tokens backslash [.param name] = [.param name.toList] := rfl

theorem Sql.tokens_parenthesized (backslash : Bool) (sql : Sql) :
    (Conditions.parenthesized sql).tokens backslash =
      .symbol '(' :: sql.tokens backslash ++ [.symbol ')'] := by
  rw [Conditions.parenthesized, Sql.tokens_back rfl, Sql.tokens_front rfl]
  rfl

namespace Conditions

variable {backslash : Bool} {p : Place} {key : Value} {column sql : Sql} {s t : Parameters}

/-- Whether an atom goes on behind a text as it stood before it. -/
def isOperatorText (s : String) : Bool :=
  Token.opensGap s && Token.closesGap s && scan 0 false (Token.ofText s) == some (0, false)

theorem tokens_operator (backslash : Bool) (column right : Sql) {operator : String}
    (h : isOperatorText operator = true) :
    (column ++ .text operator :: right).tokens backslash =
      column.tokens backslash ++ (Token.ofText operator ++ right.tokens backslash) ∧
      scan 0 false (Token.ofText operator) = some (0, false) := by
  rw [isOperatorText, Bool.and_eq_true, Bool.and_eq_true, beq_iff_eq] at h
  exact ⟨Sql.tokens_between h.1.1 h.1.2, h.2⟩

/-- A left side, an operator and a placeholder. -/
theorem isAtom_bound {operator : String} {v : Value} {right : Sql}
    (hcolumn : IsAtom (column.tokens backslash)) (hoperator : isOperatorText operator = true)
    (h : (Compile.bindValue v).Yields s right t) :
    IsAtom ((column ++ .text operator :: right).tokens backslash) := by
  obtain ⟨rfl, -⟩ := Compile.yields_bindValue h
  obtain ⟨htokens, hscan⟩ := tokens_operator backslash column [.param (s.numbered s.next)] hoperator
  rw [htokens, Sql.tokens_param]
  refine hcolumn.append ?_
  rw [scan_append hscan]
  rfl

theorem isOperatorText_of_mem_comparisonTexts :
    ∀ operator ∈ comparisonTexts, isOperatorText operator = true := by
  decide

/-- The placeholders of a list stay between its parentheses. -/
theorem Placeholders.scan {rows : List Sql} (h : Placeholders s rows t) :
    scan 1 false ((Sql.join ", " rows).tokens backslash) = some (1, false) := by
  induction h with
  | nil => rfl
  | @cons v right rows s u t hbind hrest ih =>
      obtain ⟨rfl, -⟩ := Compile.yields_bindValue hbind
      cases rows with
      | nil => rfl
      | cons next others =>
          rw [Sql.join, Sql.tokens_between rfl rfl, Sql.tokens_param]
          · have hscan : Parsing.scan 1 false ([.param (s.numbered s.next).toList] ++ Token.ofText ", ") =
                some (1, false) := rfl
            rw [← List.append_assoc, scan_append hscan, ih]
          · simp

/-- The AND of a range belongs to the atom. -/
theorem isAtom_range {negated : Bool} {low high : Value} {lowSql highSql : Sql} {u : Parameters}
    (hcolumn : IsAtom (column.tokens backslash)) (hlow : (Compile.bindValue low).Yields s lowSql u)
    (hhigh : (Compile.bindValue high).Yields u highSql t) :
    IsAtom (Sql.tokens backslash
      (column ++ .text (if negated then " NOT BETWEEN " else " BETWEEN ") ::
        (lowSql ++ .text " AND " :: highSql))) := by
  obtain ⟨rfl, -⟩ := Compile.yields_bindValue hlow
  obtain ⟨rfl, -⟩ := Compile.yields_bindValue hhigh
  have hopens : Token.opensGap (if negated then " NOT BETWEEN " else " BETWEEN ") = true := by
    cases negated <;> rfl
  have hcloses : Token.closesGap (if negated then " NOT BETWEEN " else " BETWEEN ") = true := by
    cases negated <;> rfl
  have hbetween : scan 0 false (Token.ofText (if negated then " NOT BETWEEN " else " BETWEEN ")) =
      some (0, true) := by
    cases negated <;> rfl
  rw [Sql.tokens_between hopens hcloses, Sql.tokens_between rfl rfl]
  refine hcolumn.append ?_
  rw [scan_append hbetween]
  rfl

theorem isAtom_members {negated : Bool} {rows : List Sql}
    (hcolumn : IsAtom (column.tokens backslash)) (hrows : Placeholders s rows t) :
    IsAtom (Sql.tokens backslash
      (column ++ .text (if negated then " NOT IN (" else " IN (") ::
        Sql.join ", " rows ++ [.text ")"])) := by
  have hopens : Token.opensGap (if negated then " NOT IN (" else " IN (") = true := by
    cases negated <;> rfl
  have hcloses : Token.closesGap (if negated then " NOT IN (" else " IN (") = true := by
    cases negated <;> rfl
  have hin : scan 0 false (Token.ofText (if negated then " NOT IN (" else " IN (")) =
      some (1, false) := by
    cases negated <;> rfl
  rw [Sql.tokens_back rfl, Sql.tokens_between hopens hcloses, List.append_assoc,
    List.append_assoc]
  refine hcolumn.append ?_
  rw [scan_append hin, scan_append hrows.scan]
  rfl

/-- An atom between parentheses is an operand of its own. -/
theorem operand_atom {inner : Sql} (h : IsAtom (inner.tokens backslash)) :
    Operand ((parenthesized inner).tokens backslash) (.atom (inner.tokens backslash)) := by
  rw [Sql.tokens_parenthesized]
  exact operand_parenthesized (.cons h.operand .nil) (by simp) .and

/-- A test of anything but patterns is a single atom, between parentheses or not. -/
theorem TestRow.operand (h : TestRow column s sql t) (hcolumn : IsAtom (column.tokens backslash)) :
    ∃ a, Operand (sql.tokens backslash) (.atom a) := by
  cases h with
  | null negated =>
      have hopens : Token.opensGap (if negated then " IS NOT NULL" else " IS NULL") = true := by
        cases negated <;> rfl
      have hnull : scan 0 false (Token.ofText (if negated then " IS NOT NULL" else " IS NULL")) =
          some (0, false) := by
        cases negated <;> rfl
      refine ⟨_, IsAtom.operand ?_⟩
      rw [Sql.tokens_back hopens]
      exact hcolumn.append hnull
  | bound hoperator hbind =>
      have htext := isOperatorText_of_mem_comparisonTexts _ hoperator
      exact ⟨_, (isAtom_bound hcolumn htext hbind).operand⟩
  | members negated hrows => exact ⟨_, (isAtom_members hcolumn hrows).operand⟩
  | range negated hlow hhigh => exact ⟨_, operand_atom (isAtom_range hcolumn hlow hhigh)⟩

theorem isAtom_column {tablePrefix : String} (h : ColumnRow tablePrefix sql) :
    IsAtom (sql.tokens backslash) := by
  cases h with
  | @bare name _ => exact ⟨.quoted (quotedIdentifier name).toList, [], rfl, rfl, rfl⟩
  | @qualified table name _ _ =>
      exact ⟨.quoted (quotedIdentifier (tablePrefix ++ table)).toList,
        [.symbol '.', .quoted (quotedIdentifier name).toList], rfl, rfl, rfl⟩

/-- The left side of a predicate, whose call has to be a single one. -/
theorem isAtom_left {text : String} {parsed : ConditionKey}
    (hkey : Key.conditionKey text = .ok parsed)
    (hcall : parsed.isFunction = true → isSingleCall parsed.column.toList = true)
    (h : (p.left parsed).Yields s column t) : IsAtom (column.tokens backslash) := by
  unfold Place.left at h
  split_ifs at h with hfunction
  · rw [Compile.yields_pure] at h
    obtain ⟨rfl, _⟩ := h
    rw [Sql.tokens_text]
    exact isAtom_call ((conditionKey_eq hkey).2 hfunction) (hcall hfunction)
  · exact isAtom_column (Target.yields_column h).1

theorem isAtom_columns {v : Value} (h : (p.columns v).Yields s sql t) :
    IsAtom (sql.tokens backslash) := by
  obtain ⟨left, right, operator, hleft, hright, hoperator, rfl, rfl⟩ := yields_columns h
  have htext := isOperatorText_of_mem_comparisonTexts operator hoperator
  obtain ⟨htokens, hscan⟩ := tokens_operator backslash left right htext
  have hright' : IsAtom (right.tokens backslash) := isAtom_column hright
  rw [htokens]
  refine (isAtom_column hleft).append ?_
  rw [scan_append hscan, hright'.scan]

end Conditions

end QueryLoom
