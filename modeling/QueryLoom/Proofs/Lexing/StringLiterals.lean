import QueryLoom.Proofs.Lexing.LiteralTokens
import QueryLoom.Proofs.Statement.Tails

/-!
String literals and what is read of them. A literal is read up to its last quote and stands for the
string it was written for, whatever text follows it, unless that text begins with a quote. So no string
reaches beyond its literal, and a column that is ranked by literals is read as ranked by their strings.
-/

namespace QueryLoom

open Lexer

namespace SqlToken

variable {backslash : Bool} {rest : List Char}

/-! One literal. -/

/-- Reads a string literal from behind its opening quote: what it stands for, and the text behind its
closing quote. Two quotes stand for one; where a backslash escapes, it does so with the character
after it. -/
def readContent? (backslash : Bool) : List Char → Option (List Char × List Char)
  | [] => none
  | [c] => if c = '\'' then some ([], []) else none
  | c :: d :: rest =>
      if c = '\'' then
        if d = '\'' then (readContent? backslash rest).map (Prod.map ('\'' :: ·) id)
        else some ([], d :: rest)
      else if backslash = true ∧ c = '\\' then
        (readContent? backslash rest).map (Prod.map (unescaped d ++ ·) id)
      else (readContent? backslash (d :: rest)).map (Prod.map (c :: ·) id)

/-- Reads a string literal. -/
def readString? (backslash : Bool) : List Char → Option (List Char × List Char)
  | '\'' :: rest => readContent? backslash rest
  | _ => none

theorem readContent?_closed (hrest : rest.head? ≠ some '\'') :
    readContent? backslash ('\'' :: rest) = some ([], rest) := by
  cases rest with
  | nil => rfl
  | cons d more =>
      have hd : d ≠ '\'' := by
        rintro rfl
        exact hrest rfl
      rw [readContent?, if_pos rfl, if_neg hd]

theorem readContent?_doubled (rest : List Char) :
    readContent? backslash ('\'' :: '\'' :: rest) =
      (readContent? backslash rest).map (Prod.map ('\'' :: ·) id) := by
  rw [readContent?, if_pos rfl, if_pos rfl]

theorem readContent?_escaped (c : Char) (rest : List Char) :
    readContent? true ('\\' :: c :: rest) =
      (readContent? true rest).map (Prod.map (unescaped c ++ ·) id) := by
  rw [readContent?, if_neg (by decide), if_pos ⟨rfl, rfl⟩]

theorem readContent?_cons {c : Char} (hquote : c ≠ '\'') (hslash : ¬ (backslash = true ∧ c = '\\'))
    (rest : List Char) :
    readContent? backslash (c :: rest) =
      (readContent? backslash rest).map (Prod.map (c :: ·) id) := by
  cases rest with
  | nil => simp [readContent?, hquote]
  | cons d more => rw [readContent?, if_neg hquote, if_neg hslash]

/-- What was escaped is read back, up to the quote behind it. -/
theorem readContent?_literalContent (d : Dialect) (s : String) (hrest : rest.head? ≠ some '\'') :
    readContent? d.backslashEscapes (d.literalContent s ++ '\'' :: rest) = some (s.toList, rest) := by
  have hplain : ∀ cs, readContent? false (doubled '\'' cs ++ '\'' :: rest) = some (cs, rest) := by
    intro cs
    induction cs with
    | nil => exact readContent?_closed hrest
    | cons c cs ih =>
        by_cases hc : c = '\''
        · rw [hc, doubled_cons_self, List.cons_append, List.cons_append, readContent?_doubled, ih]
          rfl
        · rw [doubled_cons_of_ne hc, List.cons_append, readContent?_cons hc (by simp), ih]
          rfl
  have hescaped : ∀ cs, readContent? true (doubled '\'' (doubled '\\' cs) ++ '\'' :: rest) =
      some (cs, rest) := by
    intro cs
    induction cs with
    | nil => exact readContent?_closed hrest
    | cons c cs ih =>
        by_cases hslash : c = '\\'
        · rw [hslash, doubled_cons_self, doubled_cons_of_ne (by decide), doubled_cons_of_ne (by decide),
            List.cons_append, List.cons_append, readContent?_escaped, ih]
          rfl
        · rw [doubled_cons_of_ne hslash]
          by_cases hc : c = '\''
          · rw [hc, doubled_cons_self, List.cons_append, List.cons_append, readContent?_doubled, ih]
            rfl
          · rw [doubled_cons_of_ne hc, List.cons_append, readContent?_cons hc (by simp [hslash]), ih]
            rfl
  rw [Dialect.literalContent]
  cases d.backslashEscapes with
  | false => exact hplain s.toList
  | true => exact hescaped s.toList

theorem readString?_stringLiteral (d : Dialect) (s : String) (hrest : rest.head? ≠ some '\'') :
    readString? d.backslashEscapes ((d.stringLiteral s).toList ++ rest) = some (s.toList, rest) := by
  have htext : (d.stringLiteral s).toList ++ rest = '\'' :: (d.literalContent s ++ '\'' :: rest) := by
    simp [Dialect.stringLiteral]
  rw [htext, readString?]
  exact readContent?_literalContent d s hrest

/-! A literal in a text. -/

/-- A quoted text ends where no text with the same quote follows. -/
theorem readFrom_quoted {quote : Char} (content : List Char) {ls : List Lexeme}
    (h : ∀ l ∈ ls.head?, l.chars.head? ≠ some quote) :
    readFrom backslash (.quoted quote content) ls =
      (Pending.quoted quote content).tokens ++ readFrom backslash .none ls := by
  cases ls with
  | nil => simp [readFrom, Pending.tokens]
  | cons l more =>
      have hl := h l rfl
      cases l with
      | code c => simp [readFrom, readLexeme, readChar, Pending.tokens]
      | quoted cs =>
          cases cs with
          | nil => simp [readFrom, readLexeme, Pending.tokens]
          | cons other body =>
              have hother : quote ≠ other := by
                rintro rfl
                exact hl rfl
              simp [readFrom, readLexeme, readQuoted, hother, Pending.tokens]
      | skipped cs =>
          by_cases hcomment : isComment cs = true
          · simp [readFrom, readLexeme, hcomment, Pending.tokens]
          · simp [readFrom, readLexeme, hcomment, Pending.tokens]
      | token name => simp [readFrom, readLexeme, Pending.tokens]
      | unclosed cs => simp [readFrom, readLexeme, Pending.tokens]

/-- The first lexeme of a text begins as the text does. -/
theorem head?_chars_lex {l : Lexeme} {c : Char} (h : l ∈ (lex backslash rest).head?)
    (hc : l.chars.head? = some c) : rest.head? = some c := by
  obtain ⟨more, hmore⟩ := List.head?_eq_some_iff.mp h
  have hchars := chars_lex backslash rest
  rw [hmore, List.flatMap_cons] at hchars
  rw [← hchars, List.head?_append, hc]
  rfl

/-- A string literal is a token of its own. -/
theorem read_stringLiteral (d : Dialect) (s : String) (hrest : rest.head? ≠ some '\'') :
    read d.backslashEscapes ((d.stringLiteral s).toList ++ rest) =
      .string s.toList :: read d.backslashEscapes rest := by
  obtain ⟨ls, hlex, -⟩ := d.lex_stringLiteral s
  have hls : lex d.backslashEscapes (d.stringLiteral s).toList = ls := by
    have hnil := hlex [] nofun
    rwa [List.append_nil, lex_nil, List.append_nil] at hnil
  have hend : ∀ l ∈ (lex d.backslashEscapes rest).head?, l.chars.head? ≠ some '\'' :=
    fun l hl hc => hrest (head?_chars_lex hl hc)
  rw [read, hlex rest hrest, readFrom_append, ← hls, readThrough_stringLiteral, readFrom_quoted _ hend]
  rfl

end SqlToken

open SqlToken

/-! Rows. -/

/-- The tokens of a row, each piece read as if it stood alone. -/
def Sql.readTokens (backslash : Bool) (sql : Sql) : List SqlToken :=
  readFrom backslash .none (sql.lexemes backslash)

variable {backslash : Bool}

theorem Aligned.read {sql : Sql} (h : Aligned backslash sql) :
    SqlToken.read backslash sql.text.toList = sql.readTokens backslash := by
  rw [SqlToken.read, h.lex, Sql.readTokens]

/-- A text that leaves nothing pending. -/
theorem Sql.readTokens_text {s : String} {ts : List SqlToken}
    (h : readThrough backslash .none (s.toList.map .code) = (ts, .none)) (rest : Sql) :
    Sql.readTokens backslash (.text s :: rest) = ts ++ Sql.readTokens backslash rest := by
  rw [Sql.readTokens, Sql.lexemes, List.flatMap_cons, Piece.lexemes, readFrom_append, h]
  rfl

/-- What stands before a text that begins with a break. -/
theorem Sql.readTokens_before (first : Sql) {s : String} (h : s.toList.head?.any isBreak = true)
    (rest : Sql) :
    Sql.readTokens backslash (first ++ .text s :: rest) =
      Sql.readTokens backslash first ++ Sql.readTokens backslash (.text s :: rest) := by
  rw [Sql.readTokens, Sql.lexemes_append]
  refine readFrom_before_break _ _ fun l hl => ?_
  rw [Sql.lexemes, List.flatMap_cons, Piece.lexemes] at hl
  cases hs : s.toList with
  | nil => simp [hs] at h
  | cons c more =>
      rw [hs] at h hl
      obtain rfl : Lexeme.code c = l := by simpa using hl
      exact ⟨c, rfl, by simpa using h⟩

/-- A literal before a text that begins with a break. -/
theorem Sql.readTokens_literal (d : Dialect) (value : String) {s : String}
    (h : s.toList.head?.any isBreak = true) (rest : Sql) :
    Sql.readTokens d.backslashEscapes (.literal (d.stringLiteral value) :: .text s :: rest) =
      .string value.toList :: Sql.readTokens d.backslashEscapes (.text s :: rest) := by
  have hliteral : Sql.readTokens d.backslashEscapes [.literal (d.stringLiteral value)] =
      [.string value.toList] := by
    rw [Sql.readTokens, Sql.lexemes, List.flatMap_singleton]
    exact readFrom_stringLiteral d value
  rw [← List.singleton_append, Sql.readTokens_before _ h, hliteral]
  rfl

/-! Ranks. -/

/-- A text that ends in a number, before a text that begins with a break. -/
theorem Sql.readTokens_number {front : String} {ts : List SqlToken} (n : Nat)
    (hfront : readThrough backslash .none (front.toList.map .code) = (ts, .none)) {s : String}
    (h : s.toList.head?.any isBreak = true) (rest : Sql) :
    Sql.readTokens backslash (.text (front ++ toString n) :: .text s :: rest) =
      ts ++ .bare (toString n).toList :: Sql.readTokens backslash (.text s :: rest) := by
  have hsingle : IsSingle (toString n).toList := by
    rw [Nat.toString_eq_ofList_toDigits, String.toList_ofList]
    exact (isPlainNumber_toDigits n).isSingle
  have hcode : isCode (toString n).toList = true := (numeral_nat n).1
  have hnumber : Sql.readTokens backslash [.text (toString n)] = [.bare (toString n).toList] := by
    have hword : SqlToken.readFrom backslash .none ((Piece.literal (toString n)).lexemes backslash) =
        [.bare (toString n).toList] := SqlToken.readFrom_word hsingle hcode
    rw [Piece.lexemes, lex_code hcode] at hword
    rw [Sql.readTokens, Sql.lexemes, List.flatMap_singleton]
    exact hword
  have hsplit : Sql.lexemes backslash (.text (front ++ toString n) :: .text s :: rest) =
      Sql.lexemes backslash (.text front :: ([.text (toString n)] ++ .text s :: rest)) := by
    simp [Sql.lexemes, Piece.lexemes]
  rw [Sql.readTokens, hsplit]
  change Sql.readTokens backslash (.text front :: ([.text (toString n)] ++ .text s :: rest)) = _
  rw [Sql.readTokens_text hfront, Sql.readTokens_before _ h, hnumber]
  rfl

namespace Dialect

/-- The literals of strings. -/
def stringLiterals (d : Dialect) (strings : List String) : List String :=
  strings.map d.stringLiteral

/-- The cases of strings, ranked from a number on. -/
def rankTokens (rank : Nat) : List String → List SqlToken
  | [] => []
  | s :: rest =>
      [.bare "WHEN".toList, .string s.toList, .bare "THEN".toList, .bare (toString rank).toList] ++
        rankTokens (rank + 1) rest

/-- The tokens of the expression that ranks a column by strings. -/
def orderTokens (d : Dialect) (column : List SqlToken) (strings : List String) : List SqlToken :=
  match d with
  | .mysql =>
      [.bare "FIELD".toList, .mark ['(']] ++ column ++ .mark [','] ::
        (strings.map fun s => SqlToken.string s.toList).intersperse (.mark [',']) ++ [.mark [')']]
  | .sqlite | .postgres =>
      [.bare "CASE".toList] ++ column ++ rankTokens 1 strings ++
        [.bare "ELSE".toList, .bare ['0'], .bare "END".toList]

/-- A list of literals, before a text that begins with a break. -/
theorem readTokens_list (d : Dialect) (strings : List String) {s : String}
    (h : s.toList.head?.any isBreak = true) (rest : Sql) :
    Sql.readTokens d.backslashEscapes (Sql.join ", " ((d.stringLiterals strings).map fun l =>
        [.literal l]) ++ .text s :: rest) =
      (strings.map fun s => SqlToken.string s.toList).intersperse (.mark [',']) ++
        Sql.readTokens d.backslashEscapes (.text s :: rest) := by
  have hcomma : readThrough d.backslashEscapes .none (", ".toList.map .code) =
      ([.mark [',']], .none) := rfl
  induction strings with
  | nil => rfl
  | cons first others ih =>
      cases others with
      | nil => exact Sql.readTokens_literal d first h rest
      | cons second others =>
          have hfirst := Sql.readTokens_literal d first (s := ", ") rfl
            (Sql.join ", " ((d.stringLiterals (second :: others)).map fun l => [.literal l]) ++
              .text s :: rest)
          rw [Sql.readTokens_text hcomma, ih] at hfirst
          exact hfirst

/-- Ranked literals, before a text that begins with a blank. -/
theorem readTokens_ranked (d : Dialect) (strings : List String) (rank : Nat) {s : String}
    (h : s.toList.head?.any isBreak = true) (rest : Sql) :
    Sql.readTokens d.backslashEscapes
        (Sql.join " " (ranked rank (d.stringLiterals strings)) ++ .text s :: rest) =
      rankTokens rank strings ++ Sql.readTokens d.backslashEscapes (.text s :: rest) := by
  have hwhen : readThrough d.backslashEscapes .none ("WHEN ".toList.map .code) =
      ([.bare "WHEN".toList], .none) := rfl
  have hthen : readThrough d.backslashEscapes .none (" THEN ".toList.map .code) =
      ([.bare "THEN".toList], .none) := rfl
  have hblank : readThrough d.backslashEscapes .none (" ".toList.map .code) = ([], .none) := rfl
  have hspaced : ∀ n : Nat, (" THEN " ++ toString n).toList.head?.any isBreak = true := by
    intro n
    rw [String.toList_append]
    rfl
  -- one case: its literal, its rank, and a break behind it
  have hcase : ∀ first n (next : String) (more : Sql), next.toList.head?.any isBreak = true →
      Sql.readTokens d.backslashEscapes (.text "WHEN " :: .literal (d.stringLiteral first) ::
          .text (" THEN " ++ toString n) :: .text next :: more) =
        rankTokens n [first] ++ Sql.readTokens d.backslashEscapes (.text next :: more) := by
    intro first n next more hnext
    rw [Sql.readTokens_text hwhen, Sql.readTokens_literal d first (hspaced n),
      Sql.readTokens_number n hthen hnext]
    rfl
  induction strings generalizing rank with
  | nil => rfl
  | cons first others ih =>
      cases others with
      | nil => exact hcase first rank _ rest h
      | cons second others =>
          have hfirst := hcase first rank " "
            (Sql.join " " (ranked (rank + 1) (d.stringLiterals (second :: others))) ++
              .text s :: rest) rfl
          rw [Sql.readTokens_text hblank, ih] at hfirst
          exact hfirst

/-- The expression of the dialects that rank by cases. -/
theorem readTokens_cases {d : Dialect} (column : Sql) (strings : List String) :
    Sql.readTokens d.backslashEscapes ([.text "CASE "] ++ column ++ [.text " "] ++
        Sql.join " " (ranked 1 (d.stringLiterals strings)) ++ [.text " ELSE 0 END"]) =
      [.bare "CASE".toList] ++ Sql.readTokens d.backslashEscapes column ++ rankTokens 1 strings ++
        [.bare "ELSE".toList, .bare ['0'], .bare "END".toList] := by
  have hopen : readThrough d.backslashEscapes .none ("CASE ".toList.map .code) =
      ([.bare "CASE".toList], .none) := rfl
  have hblank : readThrough d.backslashEscapes .none (" ".toList.map .code) = ([], .none) := rfl
  have hend : Sql.readTokens d.backslashEscapes [.text " ELSE 0 END"] =
      [.bare "ELSE".toList, .bare ['0'], .bare "END".toList] := rfl
  simp only [List.append_assoc, List.cons_append, List.nil_append]
  rw [Sql.readTokens_text hopen, Sql.readTokens_before column rfl, Sql.readTokens_text hblank,
    readTokens_ranked d strings 1 rfl, hend]
  rfl

/-- A column that is ranked by literals is read as ranked by their strings. -/
theorem readTokens_customOrder (d : Dialect) (column : Sql) (strings : List String) :
    Sql.readTokens d.backslashEscapes (d.customOrder column (d.stringLiterals strings)) =
      d.orderTokens (Sql.readTokens d.backslashEscapes column) strings := by
  cases d with
  | sqlite => exact readTokens_cases column strings
  | postgres => exact readTokens_cases column strings
  | mysql =>
      have hopen : readThrough Dialect.mysql.backslashEscapes .none ("FIELD(".toList.map .code) =
          ([.bare "FIELD".toList, .mark ['(']], .none) := rfl
      have hcomma : readThrough Dialect.mysql.backslashEscapes .none (", ".toList.map .code) =
          ([.mark [',']], .none) := rfl
      have hend : Sql.readTokens Dialect.mysql.backslashEscapes [.text ")"] = [.mark [')']] := rfl
      simp only [customOrder, List.append_assoc, List.cons_append, List.nil_append]
      rw [Sql.readTokens_text hopen, Sql.readTokens_before column rfl, Sql.readTokens_text hcomma,
        readTokens_list .mysql strings rfl, hend]
      simp [orderTokens]

end Dialect

/-- The strings among tokens. -/
def SqlToken.strings (ts : List SqlToken) : List String :=
  ts.filterMap fun
    | .string cs => some (String.ofList cs)
    | _ => none

theorem SqlToken.strings_append (ts more : List SqlToken) :
    strings (ts ++ more) = strings ts ++ strings more := List.filterMap_append

theorem SqlToken.strings_cons (s : String) (ts : List SqlToken) :
    strings (.string s.toList :: ts) = s :: strings ts := by
  simp [strings]

/-- The name of a column holds no string. -/
theorem ColumnRow.strings_readTokens {tablePrefix : String} {column : Sql}
    (h : ColumnRow tablePrefix column) : SqlToken.strings (column.readTokens backslash) = [] := by
  have hname : ∀ s, readLexeme backslash .none (.quoted (quotedIdentifier s).toList) =
      ([], .quoted '"' (decoded backslash '"' (doubled '"' s.toList))) := by
    intro s
    simp [quotedIdentifier, readLexeme, readQuoted, Pending.tokens]
  cases h with
  | bare _ =>
      simp [Sql.readTokens, Sql.lexemes, Piece.lexemes, readFrom, hname, Pending.tokens, strings]
  | qualified _ _ =>
      have hdot : ∀ content, readLexeme backslash (.quoted '"' content) (.code '.') =
          ([.identifier content, .mark ['.']], .none) := fun _ => rfl
      simp [Sql.readTokens, Sql.lexemes, Piece.lexemes, readFrom, hname, hdot, Pending.tokens, strings]

theorem Dialect.strings_rankTokens (strings : List String) (rank : Nat) :
    SqlToken.strings (rankTokens rank strings) = strings := by
  induction strings generalizing rank with
  | nil => rfl
  | cons s rest ih =>
      rw [rankTokens, SqlToken.strings_append, ih]
      simp [SqlToken.strings]

theorem SqlToken.strings_intersperse (values : List String) :
    strings ((values.map fun s => SqlToken.string s.toList).intersperse (.mark [','])) = values := by
  induction values with
  | nil => rfl
  | cons s rest ih =>
      cases rest with
      | nil => simp [strings]
      | cons t more =>
          rw [List.map_cons, List.map_cons, List.intersperse_cons_cons, strings_cons]
          exact congrArg (s :: ·) ih

/-- The strings that a column is ranked by are those of the expression, in order. -/
theorem Dialect.strings_orderTokens (d : Dialect) {column : List SqlToken}
    (hcolumn : SqlToken.strings column = []) (strings : List String) :
    SqlToken.strings (d.orderTokens column strings) = strings := by
  have hcases : SqlToken.strings ([.bare "CASE".toList] ++ column ++ rankTokens 1 strings ++
      [.bare "ELSE".toList, .bare ['0'], .bare "END".toList]) = strings := by
    simp only [SqlToken.strings_append, hcolumn, strings_rankTokens]
    simp [SqlToken.strings]
  cases d with
  | sqlite => exact hcases
  | postgres => exact hcases
  | mysql =>
      rw [orderTokens, ← List.singleton_append (l := List.intersperse _ _)]
      simp only [SqlToken.strings_append, hcolumn, SqlToken.strings_intersperse]
      simp [SqlToken.strings]

/-- Strings have literals. -/
theorem Dialect.mapM_literal_strings (d : Dialect) (strings : List String) :
    (strings.map Value.str).mapM d.literal = .ok (d.stringLiterals strings) := by
  have htexts : ∀ v ∈ strings.map Value.str, v.hasText = true :=
    List.forall_mem_map.mpr fun _ _ => rfl
  rw [mapM_literal_eq_ok.mpr ⟨htexts, rfl⟩, List.map_map]
  rfl

/-- A string literal is read as its string and ends at its last quote, so that it tells the string. A
column that is ranked by string literals is read as ranked by these strings and no others. -/
theorem Dialect.string_literals_round_trip (d : Dialect) :
    (∀ s : String, ∃ literal, d.literal (.str s) = .ok literal ∧
      ∀ rest : List Char, rest.head? ≠ some '\'' →
        readString? d.backslashEscapes (literal.toList ++ rest) = some (s.toList, rest) ∧
        SqlToken.read d.backslashEscapes (literal.toList ++ rest) =
          .string s.toList :: SqlToken.read d.backslashEscapes rest) ∧
    (∀ s t : String, d.literal (.str s) = d.literal (.str t) → s = t) ∧
    ∀ (tablePrefix : String) (key : Value) (column : Sql) (strings : List String),
      Target.PlainPrefix d.backslashEscapes ⟨d, tablePrefix⟩ →
      Identifier.column tablePrefix key = .ok column →
      ∃ literals, (strings.map Value.str).mapM d.literal = .ok literals ∧
        let ordered := d.customOrder column literals
        SqlToken.read d.backslashEscapes ordered.text.toList =
            d.orderTokens (SqlToken.read d.backslashEscapes column.text.toList) strings ∧
          SqlToken.strings (SqlToken.read d.backslashEscapes ordered.text.toList) = strings ∧
          ∀ others otherLiterals, (others.map Value.str).mapM d.literal = .ok otherLiterals →
            ordered.text = (d.customOrder column otherLiterals).text → strings = others := by
  refine ⟨fun s => ⟨d.stringLiteral s, rfl, fun rest hrest =>
    ⟨readString?_stringLiteral d s hrest, read_stringLiteral d s hrest⟩⟩, ?_, ?_⟩
  · intro s t h
    have hread : ∀ s, readString? d.backslashEscapes ((d.stringLiteral s).toList ++ []) =
        some (s.toList, []) := fun s => readString?_stringLiteral d s nofun
    have hs := hread s
    have hliteral : d.stringLiteral s = d.stringLiteral t := Except.ok.inj h
    rw [hliteral, hread t] at hs
    exact String.toList_injective (Prod.mk.inj (Option.some.inj hs)).1.symm
  · intro tablePrefix key column strings hplain hcolumn
    have hrow : ColumnRow tablePrefix column := .of_column hcolumn
    have haligned : Aligned d.backslashEscapes column := hrow.aligned (t := ⟨d, tablePrefix⟩) hplain
    -- any list of strings, since the claim about texts compares two of them
    have hread : ∀ values, SqlToken.read d.backslashEscapes
        (d.customOrder column (d.stringLiterals values)).text.toList =
          d.orderTokens (column.readTokens d.backslashEscapes) values := by
      intro values
      have hordered := Tail.aligned_customOrder haligned (values.map Value.str)
      rw [List.map_map] at hordered
      rw [← readTokens_customOrder]
      exact hordered.read
    have hstrings : ∀ values, SqlToken.strings (SqlToken.read d.backslashEscapes
        (d.customOrder column (d.stringLiterals values)).text.toList) = values := by
      intro values
      rw [hread]
      exact d.strings_orderTokens hrow.strings_readTokens values
    refine ⟨_, d.mapM_literal_strings strings, ?_, hstrings strings, ?_⟩
    · rw [hread, haligned.read]
    · intro others otherLiterals hothers htext
      rw [d.mapM_literal_strings others] at hothers
      cases hothers
      rw [← hstrings strings, htext, hstrings]

/-- A quote behind a backslash, a comment, a placeholder and a backslash at the end are read back. -/
theorem Dialect.string_literals_round_trip_of_escapes :
    let s := "\\' -- \n:x\\"
    (∃ literal, Dialect.mysql.literal (.str s) = .ok literal ∧
      readString? Dialect.mysql.backslashEscapes (literal.toList ++ [',', '2']) =
        some (s.toList, [',', '2'])) ∧
      ∃ literals, ([s, "\\", "''"].map Value.str).mapM Dialect.mysql.literal = .ok literals ∧
        SqlToken.strings (SqlToken.read Dialect.mysql.backslashEscapes
          (Dialect.mysql.customOrder [.name "p_users", .text ".", .name "id"]
            literals).text.toList) = [s, "\\", "''"] := by
  intro s
  have hplain : Target.PlainPrefix Dialect.mysql.backslashEscapes ⟨.mysql, "p_"⟩ := fun _ => by decide
  have hcolumn : Identifier.column "p_" (.str "users.id") =
      .ok [.name "p_users", .text ".", .name "id"] := rfl
  obtain ⟨hliterals, _, hlists⟩ := string_literals_round_trip .mysql
  obtain ⟨literal, hliteral, hread⟩ := hliterals s
  obtain ⟨literals, hall, _, hstrings, _⟩ :=
    hlists "p_" _ _ [s, "\\", "''"] hplain hcolumn
  exact ⟨⟨literal, hliteral, (hread _ (by decide)).1⟩, literals, hall, hstrings⟩

end QueryLoom
