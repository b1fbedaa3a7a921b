import Mathlib.Tactic.Common
import QueryLoom.Sql.Placeholder

/-!
A one-pass lexer for SQL text: a machine that reads one character after the other, never looks ahead
and never goes back. It says where code stands and where it does not. Outside code are texts between
single or double quotes, texts between back quotes, comments, and the word after two colons. The
scanner of placeholders, which tries one region after the other and falls back to single characters,
is compared with it elsewhere.
-/

namespace QueryLoom.Lexer

open Text Placeholder

/-- What the lexer reads a text as. -/
inductive Lexeme
  /-- A character in code position. -/
  | code (c : Char)
  /-- A text between single or double quotes, with its quotes. -/
  | quoted (cs : List Char)
  /-- A text between back quotes, a comment, or a cast. -/
  | skipped (cs : List Char)
  /-- The token of a placeholder, given by its name. -/
  | token (name : List Char)
  /-- A quoted text or a block comment that the text ends in. -/
  | unclosed (cs : List Char)
deriving DecidableEq, Repr

/-- The characters of a lexeme. -/
def Lexeme.chars : Lexeme → List Char
  | .code c => [c]
  | .quoted cs => cs
  | .skipped cs => cs
  | .token name => ':' :: name
  | .unclosed cs => cs

/-- Where the lexer stands. A state that has begun a region carries the characters read of it. -/
inductive State
  | code
  | dash
  | slash
  | colon
  | colons
  | cast (read : List Char)
  | name (read : List Char)
  | quoted (quote : Char) (read : List Char)
  | escaped (quote : Char) (read : List Char)
  | closing (quote : Char) (read : List Char)
  | backQuoted (read : List Char)
  | line (read : List Char)
  | block (read : List Char)
  | star (read : List Char)

/-- A step of the lexer: the lexemes that are complete, and the next state. -/
abbrev Step := List Lexeme × State

/-- The step on a character in code position. -/
def start (c : Char) : Step :=
  if c = '"' ∨ c = '\'' then ([], .quoted c [c])
  else if c = '`' then ([], .backQuoted [c])
  else if c = '-' then ([], .dash)
  else if c = '/' then ([], .slash)
  else if c = ':' then ([], .colon)
  else ([.code c], .code)

/-- The step on a character that does not belong to what was read before. -/
def startAfter (complete : List Lexeme) (c : Char) : Step := (complete ++ (start c).1, (start c).2)

/-- The step on a character of a quoted text. Where a backslash escapes, it does so with whatever
character follows; otherwise a quote may turn out to be the first of two. -/
def quotedStep (backslash : Bool) (quote : Char) (read : List Char) (c : Char) : Step :=
  if backslash = true ∧ c = '\\' then ([], .escaped quote (read ++ [c]))
  else if c = quote then
    if backslash then ([.quoted (read ++ [c])], .code) else ([], .closing quote (read ++ [c]))
  else ([], .quoted quote (read ++ [c]))

/-- The step on a character. -/
def step (backslash : Bool) : State → Char → Step
  | .code, c => start c
  | .dash, c => if c = '-' then ([], .line ['-', '-']) else startAfter [.code '-'] c
  | .slash, c => if c = '*' then ([], .block ['/', '*']) else startAfter [.code '/'] c
  | .colon, c =>
      if c = ':' then ([], .colons)
      else if isWordStart c then ([], .name [c])
      else startAfter [.code ':'] c
  | .colons, c =>
      if isWord c then ([], .cast [':', ':', c])
      else if c = ':' then ([.code ':'], .colons)
      else startAfter [.code ':', .code ':'] c
  | .cast read, c =>
      if isWord c then ([], .cast (read ++ [c])) else startAfter [.skipped read] c
  | .name read, c =>
      if isWord c then ([], .name (read ++ [c])) else startAfter [.token read] c
  | .quoted quote read, c => quotedStep backslash quote read c
  | .escaped quote read, c => ([], .quoted quote (read ++ [c]))
  | .closing quote read, c =>
      if c = quote then ([], .quoted quote (read ++ [c])) else startAfter [.quoted read] c
  | .backQuoted read, c =>
      if c = '`' then ([.skipped (read ++ [c])], .code) else ([], .backQuoted (read ++ [c]))
  | .line read, c =>
      if isInLine c then ([], .line (read ++ [c])) else startAfter [.skipped read] c
  | .block read, c =>
      if c = '*' then ([], .star (read ++ [c])) else ([], .block (read ++ [c]))
  | .star read, c =>
      if c = '/' then ([.skipped (read ++ [c])], .code)
      else if c = '*' then ([], .star (read ++ [c]))
      else ([], .block (read ++ [c]))

/-- What is left to emit when the text ends. -/
def finish : State → List Lexeme
  | .code => []
  | .dash => [.code '-']
  | .slash => [.code '/']
  | .colon => [.code ':']
  | .colons => [.code ':', .code ':']
  | .cast read | .line read => [.skipped read]
  | .name read => [.token read]
  | .closing _ read => [.quoted read]
  | .quoted _ read | .escaped _ read | .backQuoted read | .block read | .star read =>
      [.unclosed read]

/-- The lexemes of a text that is read on from a state. -/
def lexFrom (backslash : Bool) : State → List Char → List Lexeme
  | s, [] => finish s
  | s, c :: rest => (step backslash s c).1 ++ lexFrom backslash (step backslash s c).2 rest

/-- The lexemes of a text. -/
def lex (backslash : Bool) (cs : List Char) : List Lexeme := lexFrom backslash .code cs

def Lexeme.isUnclosed : Lexeme → Bool
  | .unclosed _ => true
  | _ => false

/-- Every quoted text and block comment of a text is closed. -/
def Terminated (backslash : Bool) (cs : List Char) : Prop :=
  ∀ l ∈ lex backslash cs, l.isUnclosed = false

instance (backslash : Bool) (cs : List Char) : Decidable (Terminated backslash cs) :=
  inferInstanceAs (Decidable (∀ l ∈ lex backslash cs, l.isUnclosed = false))

/-- The characters of a quoted text that a backslash escapes. -/
def escapedChars : List Char → List Char
  | [] => []
  | [_] => []
  | c :: d :: rest => if c = '\\' then d :: escapedChars rest else escapedChars (d :: rest)

/-- Whether a lexeme is a quoted text in which a backslash stands before a line feed. -/
def Lexeme.escapesLineFeed : Lexeme → Bool
  | .quoted cs => (escapedChars cs).contains '\n'
  | _ => false

/-- No quoted text escapes a line feed. Without backslash escapes there is nothing to ask for. -/
def NoEscapedLineFeed (backslash : Bool) (cs : List Char) : Prop :=
  backslash = true → ∀ l ∈ lex backslash cs, l.escapesLineFeed = false

instance (backslash : Bool) (cs : List Char) : Decidable (NoEscapedLineFeed backslash cs) :=
  inferInstanceAs
    (Decidable (backslash = true → ∀ l ∈ lex backslash cs, l.escapesLineFeed = false))

/-! No character is lost: the lexemes of a text make it up. -/

/-- The characters that a state has read and not yet emitted. -/
def State.pending : State → List Char
  | .code => []
  | .dash => ['-']
  | .slash => ['/']
  | .colon => [':']
  | .colons => [':', ':']
  | .name read => ':' :: read
  | .cast read | .quoted _ read | .escaped _ read | .closing _ read | .backQuoted read
  | .line read | .block read | .star read => read

theorem chars_finish (s : State) : (finish s).flatMap Lexeme.chars = s.pending := by
  cases s <;> simp [finish, State.pending, Lexeme.chars]

theorem chars_start (c : Char) :
    (start c).1.flatMap Lexeme.chars ++ (start c).2.pending = [c] := by
  unfold start
  split_ifs <;> simp_all [State.pending, Lexeme.chars]

theorem chars_startAfter (complete : List Lexeme) (c : Char) :
    (startAfter complete c).1.flatMap Lexeme.chars ++ (startAfter complete c).2.pending =
      complete.flatMap Lexeme.chars ++ [c] := by
  simp only [startAfter, List.flatMap_append, List.append_assoc, chars_start]

/-- A step adds the character to what was read, and drops nothing. -/
theorem chars_step (backslash : Bool) (s : State) (c : Char) :
    (step backslash s c).1.flatMap Lexeme.chars ++ (step backslash s c).2.pending =
      s.pending ++ [c] := by
  cases s with
  | code => exact chars_start c
  | quoted quote read =>
      simp only [step, quotedStep]
      split_ifs <;> simp [State.pending, Lexeme.chars]
  | escaped quote read => simp [step, State.pending]
  | _ =>
      simp only [step]
      split_ifs <;> first
        | (rw [chars_startAfter]; simp [State.pending, Lexeme.chars])
        | simp_all [State.pending, Lexeme.chars]

theorem chars_lexFrom (backslash : Bool) (s : State) (cs : List Char) :
    (lexFrom backslash s cs).flatMap Lexeme.chars = s.pending ++ cs := by
  induction cs generalizing s with
  | nil => simp [lexFrom, chars_finish]
  | cons c rest ih =>
      rw [lexFrom, List.flatMap_append, ih, ← List.append_assoc, chars_step]
      simp

/-- The lexemes of a text make up the text. -/
theorem chars_lex (backslash : Bool) (cs : List Char) :
    (lex backslash cs).flatMap Lexeme.chars = cs :=
  chars_lexFrom backslash .code cs

end QueryLoom.Lexer
