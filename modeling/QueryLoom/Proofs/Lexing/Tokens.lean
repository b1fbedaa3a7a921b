import QueryLoom.Proofs.Lexing.Row

/-!
Tokens of SQL. Whoever reads a statement puts the characters of code together into words, numbers
and operators, joins quoted texts that touch, resolves what is escaped in them, and skips blanks and
comments. The reader here does it lexeme by lexeme and remembers one token that may still go on, so
that texts which touch are read as one token wherever one token can be read. A parser of conditions
needs no more than words and single symbols; here a number, an operator and what a quoted text stands
for are told apart as well.
-/

namespace QueryLoom

open Lexer Text

inductive SqlToken
  /-- A word, or a number without its sign. -/
  | bare (cs : List Char)
  /-- A row of operator characters, or one character of punctuation. -/
  | mark (cs : List Char)
  /-- What stands between double quotes. -/
  | identifier (cs : List Char)
  /-- What stands between single quotes. -/
  | string (cs : List Char)
  /-- The digits of an octet string. -/
  | octetString (digits : List Char)
  | placeholder (name : List Char)
  /-- A text between back quotes, a cast, or a text that is not closed. -/
  | other (cs : List Char)
deriving DecidableEq, Repr

namespace SqlToken

/-! Texts between quotes. -/

/-- What a backslash and the character after it stand for. -/
def unescaped (c : Char) : List Char :=
  match c with
  | '0' => ['\x00']
  | 'b' => ['\x08']
  | 'n' => ['\n']
  | 'r' => ['\r']
  | 't' => ['\t']
  | 'Z' => ['\x1a']
  | '%' => ['\\', '%']
  | '_' => ['\\', '_']
  | c => [c]

/-- What a text between quotes stands for. Where no backslash escapes, two quotes stand for one. -/
def decoded (backslash : Bool) (quote : Char) : List Char → List Char
  | [] => []
  | [c] => [c]
  | c :: d :: rest =>
      if backslash then
        if c = '\\' then unescaped d ++ decoded backslash quote rest
        else c :: decoded backslash quote (d :: rest)
      else if c = quote ∧ d = quote then quote :: decoded backslash quote rest
      else c :: decoded backslash quote (d :: rest)

variable {backslash : Bool} {quote : Char}

theorem decoded_cons {c : Char} (h : if backslash then c ≠ '\\' else c ≠ quote)
    (rest : List Char) :
    decoded backslash quote (c :: rest) = c :: decoded backslash quote rest := by
  cases rest with
  | nil => rfl
  | cons d more =>
      cases backslash with
      | false => simp_all [decoded]
      | true => simp_all [decoded]

/-- Doubled quotes are read as they were before. -/
theorem decoded_doubled (cs : List Char) : decoded false quote (doubled quote cs) = cs := by
  induction cs with
  | nil => rfl
  | cons c rest ih =>
      by_cases hc : c = quote
      · subst hc
        rw [doubled_cons_self, decoded, ih]
        simp
      · rw [doubled_cons_of_ne hc, decoded_cons (by simpa using hc), ih]

theorem decoded_inert {cs : List Char} (h : Inert quote cs) :
    decoded backslash quote cs = cs := by
  induction cs with
  | nil => rfl
  | cons c rest ih =>
      have hc := h c List.mem_cons_self
      have hplain : if backslash then c ≠ '\\' else c ≠ quote := by
        split
        · exact hc.2
        · exact hc.1
      rw [decoded_cons hplain, ih h.tail]

/-! The reader. -/

/-- The token that was begun and may go on. -/
inductive Pending
  | none
  | bare (cs : List Char)
  | operator (cs : List Char)
  | quoted (quote : Char) (content : List Char)
deriving DecidableEq, Repr

/-- What is pending, as the token that it is if nothing is added to it. -/
def Pending.tokens : Pending → List SqlToken
  | .none => []
  | .bare cs => [.bare cs]
  | .operator cs => [.mark cs]
  | .quoted quote content => [if quote = '"' then .identifier content else .string content]

def operatorChars : List Char :=
  ['+', '-', '*', '/', '<', '>', '=', '~', '!', '@', '#', '%', '^', '&', '|', '?']

def isOperator (c : Char) : Bool := operatorChars.contains c

/-- The characters of a number before its exponent. -/
def isNumeric (c : Char) : Bool := c.isDigit || c == '.'

/-- Whether a word is a number up to the letter of its exponent, so that a sign may follow. -/
def endsInExponent (cs : List Char) : Bool :=
  match cs.reverse with
  | [] => false
  | letter :: figures =>
      (letter == 'e' || letter == 'E') && !figures.isEmpty && figures.all isNumeric

/-- Whether a word or number goes on with a character. -/
def goesOn (cs : List Char) (c : Char) : Bool :=
  isWord c || (cs.head?.any Char.isDigit && c == '.') ||
    (endsInExponent cs && (c == '+' || c == '-'))

/-- A character with which a token begins. -/
def opening (c : Char) : List SqlToken × Pending :=
  if isWord c then ([], .bare [c])
  else if isBlank c then ([], .none)
  else if isOperator c then ([], .operator [c])
  else ([.mark [c]], .none)

def readChar (p : Pending) (c : Char) : List SqlToken × Pending :=
  match p with
  | .bare cs =>
      if goesOn cs c then ([], .bare (cs ++ [c])) else (.bare cs :: (opening c).1, (opening c).2)
  | .operator cs =>
      if isOperator c then ([], .operator (cs ++ [c]))
      else (.mark cs :: (opening c).1, (opening c).2)
  | p => (p.tokens ++ (opening c).1, (opening c).2)

/-- A text between quotes. It is joined to one that it touches, and an octet string has an `X`
before it. -/
def readQuoted (backslash : Bool) (p : Pending) (quote : Char) (body : List Char) :
    List SqlToken × Pending :=
  let content := decoded backslash quote body
  match p with
  | .quoted before read =>
      if before = quote then ([], .quoted quote (read ++ quote :: content))
      else (p.tokens, .quoted quote content)
  | .bare [c] =>
      if quote = '\'' ∧ (c = 'X' ∨ c = 'x') then ([.octetString content], .none)
      else (p.tokens, .quoted quote content)
  | p => (p.tokens, .quoted quote content)

def isComment : List Char → Bool
  | '-' :: '-' :: _ | '/' :: '*' :: _ => true
  | _ => false

/-- The tokens that are complete after a lexeme, and what is pending then. -/
def readLexeme (backslash : Bool) (p : Pending) : Lexeme → List SqlToken × Pending
  | .code c => readChar p c
  | .quoted (quote :: body) => readQuoted backslash p quote body.dropLast
  | .quoted [] => (p.tokens, .none)
  | .token name => (p.tokens ++ [.placeholder name], .none)
  | .skipped cs => (if isComment cs then p.tokens else p.tokens ++ [.other cs], .none)
  | .unclosed cs => (p.tokens ++ [.other cs], .none)

def readFrom (backslash : Bool) : Pending → List Lexeme → List SqlToken
  | p, [] => p.tokens
  | p, l :: rest =>
      (readLexeme backslash p l).1 ++ readFrom backslash (readLexeme backslash p l).2 rest

/-- The tokens of a text. -/
def read (backslash : Bool) (cs : List Char) : List SqlToken :=
  readFrom backslash .none (lex backslash cs)

/-! Reading in stretches. -/

/-- The tokens that are complete after lexemes, and what is pending then. -/
def readThrough (backslash : Bool) : Pending → List Lexeme → List SqlToken × Pending
  | p, [] => ([], p)
  | p, l :: rest =>
      let step := readLexeme backslash p l
      (step.1 ++ (readThrough backslash step.2 rest).1, (readThrough backslash step.2 rest).2)

theorem readThrough_append (p : Pending) (ls rest : List Lexeme) :
    readThrough backslash p (ls ++ rest) =
      ((readThrough backslash p ls).1 ++
          (readThrough backslash (readThrough backslash p ls).2 rest).1,
        (readThrough backslash (readThrough backslash p ls).2 rest).2) := by
  induction ls generalizing p with
  | nil => rfl
  | cons l more ih => simp [readThrough, ih]

theorem readFrom_append (p : Pending) (ls rest : List Lexeme) :
    readFrom backslash p (ls ++ rest) = (readThrough backslash p ls).1 ++
      readFrom backslash (readThrough backslash p ls).2 rest := by
  induction ls generalizing p with
  | nil => rfl
  | cons l more ih => simp [readThrough, readFrom, ih]

theorem readFrom_eq (p : Pending) (ls : List Lexeme) :
    readFrom backslash p ls =
      (readThrough backslash p ls).1 ++ (readThrough backslash p ls).2.tokens := by
  have happend := @readFrom_append backslash p ls []
  rwa [List.append_nil] at happend

/-! Where a token ends. -/

/-- A character that ends what is pending. -/
def isBreak (c : Char) : Bool := c == ' ' || c == ',' || c == ')'

theorem readChar_break {c : Char} (h : isBreak c = true) (p : Pending) :
    readChar p c = (p.tokens ++ (opening c).1, (opening c).2) := by
  have hends : isOperator c = false ∧ ∀ cs, goesOn cs c = false := by
    simp only [isBreak, Bool.or_eq_true, beq_iff_eq] at h
    have hword : isWord c = false := by
      rcases h with (rfl | rfl) | rfl <;> decide
    have hne : c ≠ '.' ∧ c ≠ '+' ∧ c ≠ '-' := by
      rcases h with (rfl | rfl) | rfl <;> decide
    refine ⟨by rcases h with (rfl | rfl) | rfl <;> decide, fun cs => ?_⟩
    simp [goesOn, hword, hne]
  cases p with
  | bare cs => simp [readChar, hends.2, Pending.tokens]
  | operator cs => simp [readChar, hends.1, Pending.tokens]
  | none => rfl
  | quoted quote content => rfl

/-- What is read before a break does not depend on what follows it. -/
theorem readFrom_break {c : Char} (h : isBreak c = true) (p : Pending) (rest : List Lexeme) :
    readFrom backslash p (.code c :: rest) =
      p.tokens ++ readFrom backslash .none (.code c :: rest) := by
  have hnone : readLexeme backslash .none (.code c) = opening c := rfl
  rw [readFrom, readFrom, hnone, readLexeme, readChar_break h, List.append_assoc]

/-- A character that ends what is pending and leaves nothing pending. -/
def isGap (c : Char) : Bool := c == ' ' || c == '('

theorem readChar_gap {c : Char} (h : isGap c = true) (p : Pending) :
    (readChar p c).2 = .none := by
  simp only [isGap, Bool.or_eq_true, beq_iff_eq] at h
  have hword : isWord c = false := by
    rcases h with rfl | rfl <;> decide
  have hoperator : isOperator c = false := by
    rcases h with rfl | rfl <;> decide
  have hopening : (opening c).2 = .none := by
    rcases h with rfl | rfl <;> rfl
  have hne : c ≠ '.' ∧ c ≠ '+' ∧ c ≠ '-' := by
    rcases h with rfl | rfl <;> decide
  cases p with
  | bare cs => simp [readChar, goesOn, hword, hne, hopening]
  | operator cs => simp [readChar, hoperator, hopening]
  | none => exact hopening
  | quoted quote content => exact hopening

/-- What is pending ends before a break, so what stands before it is read as if it stood alone. -/
theorem readFrom_before_break (p : Pending) (ls : List Lexeme) {rest : List Lexeme}
    (h : ∀ l ∈ rest.head?, ∃ c, l = .code c ∧ isBreak c = true) :
    readFrom backslash p (ls ++ rest) =
      readFrom backslash p ls ++ readFrom backslash .none rest := by
  rw [readFrom_append, readFrom_eq p ls, List.append_assoc]
  cases rest with
  | nil => simp [readFrom, Pending.tokens]
  | cons l more =>
      obtain ⟨c, rfl, hc⟩ := h l rfl
      rw [readFrom_break hc]

/-- Code that ends in a gap leaves nothing pending. -/
theorem readThrough_gap (p : Pending) {cs : List Char} (h : cs.getLast?.any isGap = true) :
    (readThrough backslash p (cs.map .code)).2 = .none := by
  obtain ⟨c, hc⟩ : ∃ c, cs.getLast? = some c := by
    cases hlast : cs.getLast? with
    | none => simp [hlast] at h
    | some c => exact ⟨c, rfl⟩
  obtain ⟨front, rfl⟩ := List.getLast?_eq_some_iff.mp hc
  rw [hc] at h
  rw [List.map_append, readThrough_append]
  exact readChar_gap h _

/-! Placeholders are read from their tokens only. -/

/-- The names of the placeholders among tokens. -/
def placeholders (ts : List SqlToken) : List String :=
  ts.filterMap fun
    | .placeholder name => some (String.ofList name)
    | _ => none

theorem placeholders_append (ts more : List SqlToken) :
    placeholders (ts ++ more) = placeholders ts ++ placeholders more :=
  List.filterMap_append

theorem placeholders_pending (p : Pending) : placeholders p.tokens = [] := by
  cases p with
  | quoted quote content =>
      simp only [Pending.tokens]
      split_ifs <;> rfl
  | _ => rfl

theorem placeholders_opening (c : Char) : placeholders (opening c).1 = [] := by
  unfold opening
  split_ifs <;> rfl

theorem placeholders_readChar (p : Pending) (c : Char) : placeholders (readChar p c).1 = [] := by
  have hopening := placeholders_opening c
  cases p with
  | bare cs =>
      simp only [readChar]
      split_ifs
      · rfl
      · exact hopening
  | operator cs =>
      simp only [readChar]
      split_ifs
      · rfl
      · exact hopening
  | none => exact hopening
  | quoted quote content =>
      have hstep : (readChar (.quoted quote content) c).1 =
          (Pending.quoted quote content).tokens ++ (opening c).1 := rfl
      rw [hstep, placeholders_append, placeholders_pending, hopening]
      rfl

theorem placeholders_readQuoted (p : Pending) (quote : Char) (body : List Char) :
    placeholders (readQuoted backslash p quote body).1 = [] := by
  have hpending := placeholders_pending p
  unfold readQuoted
  dsimp only
  split
  · split_ifs
    · rfl
    · exact hpending
  · split_ifs
    · rfl
    · exact hpending
  · exact hpending

theorem placeholders_readLexeme (p : Pending) (l : Lexeme) :
    placeholders (readLexeme backslash p l).1 = tokenNames [l] := by
  have hpending := placeholders_pending p
  have hother : ∀ cs, placeholders (p.tokens ++ [.other cs]) = [] := by
    intro cs
    rw [placeholders_append, hpending]
    rfl
  cases l with
  | code c => exact placeholders_readChar p c
  | quoted cs =>
      cases cs with
      | nil => exact hpending
      | cons quote body => exact placeholders_readQuoted p quote _
  | skipped cs =>
      rw [readLexeme]
      split_ifs
      · exact hpending
      · exact hother cs
  | token name =>
      rw [readLexeme, placeholders_append, hpending]
      rfl
  | unclosed cs => exact hother cs

theorem tokenNames_cons (l : Lexeme) (rest : List Lexeme) :
    tokenNames (l :: rest) = tokenNames [l] ++ tokenNames rest := by
  rw [tokenNames, ← List.singleton_append, List.filterMap_append]
  rfl

theorem placeholders_readThrough (p : Pending) (ls : List Lexeme) :
    placeholders (readThrough backslash p ls).1 = tokenNames ls := by
  induction ls generalizing p with
  | nil => rfl
  | cons l rest ih =>
      rw [readThrough, tokenNames_cons, placeholders_append, placeholders_readLexeme, ih]

theorem placeholders_readFrom (p : Pending) (ls : List Lexeme) :
    placeholders (readFrom backslash p ls) = tokenNames ls := by
  rw [readFrom_eq, placeholders_append, placeholders_pending, placeholders_readThrough,
    List.append_nil]

end SqlToken

end QueryLoom
