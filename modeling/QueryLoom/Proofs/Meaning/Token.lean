import QueryLoom.Proofs.Lexing.Row

/-!
The tokens of SQL text, as a parser of conditions takes them: words, quoted names, placeholders and
single symbols, without blanks and comments. A word goes as far as its characters do, so texts can be
read one after the other wherever no word stands on both sides of the place.
-/

namespace QueryLoom

open Lexer Text

inductive Token
  /-- A run of letters, digits and underscores. -/
  | word (cs : List Char)
  /-- A text between quotes, with its quotes. -/
  | quoted (cs : List Char)
  /-- A placeholder, given by its name. -/
  | param (name : List Char)
  /-- Any other character that is not blank. -/
  | symbol (c : Char)
  /-- A text between back quotes, a cast, or a text that is not closed. -/
  | other (cs : List Char)
deriving DecidableEq, Repr

namespace Token

/-- The character by which a lexeme goes on with a word. -/
def wordChar? : Lexeme → Option Char
  | .code c => if isWord c then some c else none
  | _ => none

/-- The token of a lexeme that is no part of a word. -/
def ofLexeme : Lexeme → List Token
  | .code c => if isBlank c then [] else [.symbol c]
  | .quoted cs => [.quoted cs]
  | .token name => [.param name]
  | .skipped cs => if cs.head? = some '-' ∨ cs.head? = some '/' then [] else [.other cs]
  | .unclosed cs => [.other cs]

/-- The token of a word, if anything was read of one. -/
def ofWord (cs : List Char) : List Token := if cs.isEmpty then [] else [.word cs]

/-- The tokens of lexemes that go on after the characters of a word. -/
def readFrom (word : List Char) : List Lexeme → List Token
  | [] => ofWord word
  | l :: rest =>
      match wordChar? l with
      | some c => readFrom (word ++ [c]) rest
      | none => ofWord word ++ ofLexeme l ++ readFrom [] rest

def ofLexemes (ls : List Lexeme) : List Token := readFrom [] ls

/-- No word goes on into the lexemes. -/
def Breaks (ls : List Lexeme) : Prop := ∀ l ∈ ls.head?, wordChar? l = none

theorem readFrom_of_some {l : Lexeme} {c : Char} (h : wordChar? l = some c) (word : List Char)
    (rest : List Lexeme) : readFrom word (l :: rest) = readFrom (word ++ [c]) rest := by
  rw [readFrom, h]

theorem readFrom_of_none {l : Lexeme} (h : wordChar? l = none) (word : List Char)
    (rest : List Lexeme) :
    readFrom word (l :: rest) = ofWord word ++ ofLexeme l ++ readFrom [] rest := by
  rw [readFrom, h]

theorem readFrom_append {more : List Lexeme} (h : Breaks more) (word : List Char)
    (ls : List Lexeme) : readFrom word (ls ++ more) = readFrom word ls ++ readFrom [] more := by
  induction ls generalizing word with
  | nil =>
      cases more with
      | nil => simp [readFrom, ofWord]
      | cons l rest =>
          have hl : wordChar? l = none := h l rfl
          rw [List.nil_append, readFrom_of_none hl, readFrom_of_none hl]
          simp [readFrom, ofWord]
  | cons l rest ih =>
      rw [List.cons_append]
      cases hl : wordChar? l with
      | some c => rw [readFrom_of_some hl, readFrom_of_some hl, ih]
      | none =>
          rw [readFrom_of_none hl, readFrom_of_none hl, ih]
          simp

/-- After a lexeme that is no part of a word, reading starts anew. -/
theorem readFrom_append_end {l : Lexeme} (h : wordChar? l = none) (word : List Char)
    (ls more : List Lexeme) :
    readFrom word (ls ++ l :: more) = readFrom word (ls ++ [l]) ++ readFrom [] more := by
  induction ls generalizing word with
  | nil =>
      rw [List.nil_append, List.nil_append, readFrom_of_none h, readFrom_of_none h]
      simp [readFrom, ofWord]
  | cons first rest ih =>
      rw [List.cons_append, List.cons_append]
      cases hfirst : wordChar? first with
      | some c => rw [readFrom_of_some hfirst, readFrom_of_some hfirst, ih]
      | none =>
          rw [readFrom_of_none hfirst, readFrom_of_none hfirst, ih]
          simp

/-- The tokens of a text that is all code. -/
def ofText (s : String) : List Token := ofLexemes (s.toList.map .code)

/-- Whether no word goes on into a text. -/
def opensGap (s : String) : Bool := s.toList.head?.any fun c => !isWord c

/-- Whether no word goes on after a text. -/
def closesGap (s : String) : Bool := s.toList.getLast?.any fun c => !isWord c

end Token

/-- The tokens of a row of pieces. -/
def Sql.tokens (backslash : Bool) (sql : Sql) : List Token := Token.ofLexemes (sql.lexemes backslash)

namespace Sql

open Token

variable {backslash : Bool} {first rest : Sql} {s : String}

theorem lexemes_text (s : String) (rest : Sql) :
    lexemes backslash (.text s :: rest) = s.toList.map .code ++ rest.lexemes backslash := by
  simp [lexemes, Piece.lexemes]

/-- A text before a row. -/
theorem tokens_front (h : closesGap s = true) :
    tokens backslash (.text s :: rest) = ofText s ++ tokens backslash rest := by
  unfold closesGap at h
  cases hlast : s.toList.getLast? with
  | none => simp [hlast] at h
  | some c =>
      rw [hlast, Option.any_some, Bool.not_eq_true'] at h
      have hc : wordChar? (.code c) = none := by
        simp [wordChar?, h]
      obtain ⟨cs, hcs⟩ := List.getLast?_eq_some_iff.mp hlast
      rw [tokens, ofText, tokens, lexemes_text, hcs, List.map_append, List.append_assoc]
      exact readFrom_append_end hc [] _ _

theorem breaks_text (h : opensGap s = true) (rest : Sql) :
    Breaks (lexemes backslash (.text s :: rest)) := by
  unfold opensGap at h
  cases hs : s.toList with
  | nil => simp [hs] at h
  | cons c cs =>
      rw [hs, List.head?_cons, Option.any_some, Bool.not_eq_true'] at h
      intro l hl
      simp only [lexemes_text, hs, List.map_cons, List.cons_append, List.head?_cons,
        Option.mem_def, Option.some.injEq] at hl
      subst hl
      simp [wordChar?, h]

theorem tokens_append (h : Breaks (rest.lexemes backslash)) :
    tokens backslash (first ++ rest) = tokens backslash first ++ tokens backslash rest := by
  rw [tokens, lexemes_append]
  exact readFrom_append h [] _

/-- A text after a row. -/
theorem tokens_back (h : opensGap s = true) :
    tokens backslash (first ++ [.text s]) = tokens backslash first ++ ofText s := by
  rw [tokens_append (breaks_text h [])]
  simp [tokens, ofText, lexemes, Piece.lexemes]

/-- A text between two rows. -/
theorem tokens_between (hopens : opensGap s = true) (hcloses : closesGap s = true) :
    tokens backslash (first ++ .text s :: rest) =
      tokens backslash first ++ (ofText s ++ tokens backslash rest) := by
  rw [tokens_append (breaks_text hopens rest), tokens_front hcloses]

end Sql

end QueryLoom
