import QueryLoom.Proofs.Lexing.Scanner
import QueryLoom.Sql.Piece

/-!
Stretches of text that the lexer reads in one way whatever separated text follows them: code that
opens no region, texts between quotes, and the tokens of placeholders.
-/

namespace QueryLoom.Lexer

open Text Placeholder

/-- The characters with which a text goes on after a name, a placeholder or a literal. -/
def isSeparator (c : Char) : Bool := c == ' ' || c == ',' || c == ')' || c == '.'

/-- Nothing follows, or a separator. -/
def Separated (rest : List Char) : Prop := ∀ c ∈ rest.head?, isSeparator c = true

theorem Separated.nil : Separated [] := by simp [Separated]

theorem separated_cons {c : Char} {rest : List Char} :
    Separated (c :: rest) ↔ isSeparator c = true := by
  simp [Separated]

theorem Separated.append {cs rest : List Char} (hcs : Separated cs) (hrest : Separated rest) :
    Separated (cs ++ rest) := by
  cases cs with
  | nil => exact hrest
  | cons c more => exact separated_cons.mpr (separated_cons.mp hcs)

/-- A separator is no quote. -/
theorem Separated.head?_ne {rest : List Char} (h : Separated rest) {quote : Char}
    (hquote : quote = '"' ∨ quote = '\'') : rest.head? ≠ some quote := by
  intro hhead
  have hseparator : isSeparator quote = true := h quote hhead
  rcases hquote with rfl | rfl <;> cases hseparator

/-- A separator ends every word. -/
theorem isWord_of_isSeparator {c : Char} (h : isSeparator c = true) : isWord c = false := by
  simp only [isSeparator, Bool.or_eq_true, beq_iff_eq] at h
  rcases h with ((rfl | rfl) | rfl) | rfl <;> decide

/-! Code that opens no region. -/

/-- Whether a character stands for itself wherever it stands in code. -/
def isPlain (c : Char) : Bool :=
  !(c == '"' || c == '\'' || c == '`' || c == '-' || c == '/' || c == ':')

/-- Whether a text is code only: a dash or a slash in it stands before a plain character. -/
def isCode : List Char → Bool
  | [] => true
  | [c] => isPlain c
  | c :: d :: rest =>
      (isPlain c || ((c == '-' || c == '/') && isPlain d && d != '*')) && isCode (d :: rest)

theorem start_plain {c : Char} (h : isPlain c = true) : start c = ([.code c], .code) := by
  simp only [isPlain, Bool.not_eq_true', Bool.or_eq_false_iff, beq_eq_false_iff_ne] at h
  simp [start, h]

variable {backslash : Bool}

theorem lex_plain {c : Char} (h : isPlain c = true) (rest : List Char) :
    lex backslash (c :: rest) = .code c :: lex backslash rest := by
  rw [lex_cons, start_plain h]
  rfl

/-- A dash or a slash before a plain character that does not make it a comment. -/
theorem lex_operator {c d : Char} (hc : c = '-' ∨ c = '/') (hd : isPlain d = true) (hstar : d ≠ '*')
    (rest : List Char) :
    lex backslash (c :: d :: rest) = .code c :: lex backslash (d :: rest) := by
  have hdash : d ≠ '-' := by
    rintro rfl
    cases hd
  rcases hc with rfl | rfl
  · exact lexFrom_of_startAfter (s := .dash) [.code '-'] d rest (by simp [step, hdash])
  · exact lexFrom_of_startAfter (s := .slash) [.code '/'] d rest (by simp [step, hstar])

/-- Code is read character by character, whatever follows it. -/
theorem lex_code_append {cs : List Char} (h : isCode cs = true) (rest : List Char) :
    lex backslash (cs ++ rest) = cs.map .code ++ lex backslash rest := by
  fun_induction isCode cs with
  | case1 => rfl
  | case2 c => exact lex_plain h rest
  | case3 c d more ih =>
      simp only [Bool.and_eq_true, Bool.or_eq_true, beq_iff_eq, bne_iff_ne] at h
      obtain ⟨hc, hmore⟩ := h
      have htail := ih hmore
      rcases hc with hplain | ⟨⟨hoperator, hd⟩, hstar⟩
      · rw [List.cons_append, lex_plain hplain, htail]
        rfl
      · rw [List.cons_append, List.cons_append, lex_operator hoperator hd hstar,
          ← List.cons_append, htail]
        rfl

theorem lex_code {cs : List Char} (h : isCode cs = true) :
    lex backslash cs = cs.map .code := by
  have happend : lex backslash (cs ++ []) = cs.map .code ++ lex backslash [] :=
    lex_code_append h []
  simpa [lex_nil] using happend

theorem isCode_of_forall {cs : List Char} (h : ∀ c ∈ cs, isPlain c = true) : isCode cs = true := by
  fun_induction isCode cs with
  | case1 => rfl
  | case2 c => exact h c (by simp)
  | case3 c d more ih =>
      have hc := h c (by simp)
      have hmore := ih (fun e he => h e (by simp [he]))
      simp [hc, hmore]

theorem isCode_append {cs rest : List Char} (hcs : isCode cs = true) (hrest : isCode rest = true) :
    isCode (cs ++ rest) = true := by
  fun_induction isCode cs with
  | case1 => exact hrest
  | case2 c =>
      cases rest with
      | nil => exact hcs
      | cons d more => simp [isCode, hcs, hrest]
  | case3 c d more ih =>
      rw [Bool.and_eq_true] at hcs
      simp only [List.cons_append, isCode, Bool.and_eq_true]
      exact ⟨hcs.1, ih hcs.2⟩

/-! Between quotes. -/

theorem lexFrom_closing {quote : Char} {read rest : List Char} (hrest : rest.head? ≠ some quote) :
    lexFrom backslash (.closing quote read) rest = .quoted read :: lex backslash rest := by
  cases rest with
  | nil => rfl
  | cons c more =>
      have hc : c ≠ quote := by
        rintro rfl
        exact hrest rfl
      exact lexFrom_of_startAfter [.quoted read] c more (by simp [step, hc])

theorem doubled_cons_self (c : Char) (cs : List Char) :
    doubled c (c :: cs) = c :: c :: doubled c cs := by
  simp [doubled]

theorem doubled_cons_of_ne {c d : Char} (h : d ≠ c) (cs : List Char) :
    doubled c (d :: cs) = d :: doubled c cs := by
  simp [doubled, h]

theorem doubled_of_forall_ne {c : Char} {cs : List Char} (h : ∀ d ∈ cs, d ≠ c) :
    doubled c cs = cs := by
  induction cs with
  | nil => rfl
  | cons d more ih =>
      rw [doubled_cons_of_ne (h d (by simp)), ih (fun e he => h e (by simp [he]))]

/-- A doubled quote stays inside the text where quotes are doubled. -/
theorem lexFrom_doubled {quote : Char} (cs : List Char) {rest : List Char}
    (hrest : rest.head? ≠ some quote) (read : List Char) :
    lexFrom false (.quoted quote read) (doubled quote cs ++ quote :: rest) =
      .quoted (read ++ doubled quote cs ++ [quote]) :: lex false rest := by
  have hclosing : ∀ read, step false (.quoted quote read) quote =
      ([], .closing quote (read ++ [quote])) := by
    intro read
    simp [step, quotedStep]
  induction cs generalizing read with
  | nil =>
      simp only [doubled, List.flatMap_nil, List.nil_append, List.append_nil]
      rw [lexFrom_of_step (hclosing read), lexFrom_closing hrest]
  | cons c more ih =>
      by_cases hc : c = quote
      · subst hc
        have hdoubled : ∀ read, step false (.closing c read) c = ([], .quoted c (read ++ [c])) := by
          intro read
          simp [step]
        rw [doubled_cons_self, List.cons_append, List.cons_append, lexFrom_of_step (hclosing read),
          lexFrom_of_step (hdoubled _), ih]
        simp
      · have hinside : step false (.quoted quote read) c = ([], .quoted quote (read ++ [c])) := by
          simp [step, quotedStep, hc]
        rw [doubled_cons_of_ne hc, List.cons_append, lexFrom_of_step hinside, ih]
        simp

theorem lex_quote {quote : Char} (hquote : quote = '"' ∨ quote = '\'') (cs : List Char) :
    lex backslash (quote :: cs) = lexFrom backslash (.quoted quote [quote]) cs := by
  simp [lex_cons, start, hquote]

/-- A text between quotes that are doubled inside it. -/
theorem lex_doubled_append {quote : Char} (hquote : quote = '"' ∨ quote = '\'') (cs : List Char)
    {rest : List Char} (hrest : rest.head? ≠ some quote) :
    lex false (quote :: doubled quote cs ++ [quote] ++ rest) =
      .quoted (quote :: doubled quote cs ++ [quote]) :: lex false rest := by
  rw [List.cons_append, List.cons_append, List.append_assoc, List.singleton_append,
    lex_quote hquote, lexFrom_doubled cs hrest [quote]]
  rfl

/-- Characters that neither end a quoted text nor escape. -/
def Inert (quote : Char) (cs : List Char) : Prop := ∀ c ∈ cs, c ≠ quote ∧ c ≠ '\\'

theorem Inert.tail {quote c : Char} {cs : List Char} (h : Inert quote (c :: cs)) :
    Inert quote cs :=
  fun d hd => h d (List.mem_cons_of_mem c hd)

theorem lexFrom_inert {quote : Char} {cs : List Char} (h : Inert quote cs)
    (hquote : quote ≠ '\\') (rest read : List Char) :
    lexFrom true (.quoted quote read) (cs ++ quote :: rest) =
      .quoted (read ++ cs ++ [quote]) :: lex true rest := by
  induction cs generalizing read with
  | nil => simp [lexFrom, step, quotedStep, hquote, lex]
  | cons c more ih =>
      have hc := h c (by simp)
      have hinside : step true (.quoted quote read) c = ([], .quoted quote (read ++ [c])) := by
        simp [step, quotedStep, hc]
      rw [List.cons_append, lexFrom_of_step hinside, ih h.tail]
      simp

/-- A text between quotes that holds neither the quote nor a backslash. -/
theorem lex_inert_append {quote : Char} (hquote : quote = '"' ∨ quote = '\'') {cs : List Char}
    (h : Inert quote cs) {rest : List Char} (hrest : rest.head? ≠ some quote) :
    lex backslash (quote :: cs ++ [quote] ++ rest) =
      .quoted (quote :: cs ++ [quote]) :: lex backslash rest := by
  cases backslash with
  | false =>
      have hdoubled := lex_doubled_append hquote cs hrest
      rwa [doubled_of_forall_ne fun c hc => (h c hc).1] at hdoubled
  | true =>
      have hne : quote ≠ '\\' := by
        rcases hquote with rfl | rfl <;> decide
      rw [List.cons_append, List.cons_append, List.append_assoc, List.singleton_append,
        lex_quote hquote, lexFrom_inert h hne]
      rfl

theorem escapedChars_of_forall_ne {cs : List Char} (h : ∀ c ∈ cs, c ≠ '\\') :
    escapedChars cs = [] := by
  induction cs with
  | nil => rfl
  | cons c more ih =>
      rw [escapedChars_of_ne (h c (by simp)), ih (fun d hd => h d (by simp [hd]))]

/-- The token of a placeholder is the longest word after its colon. -/
theorem lex_token_append {c : Char} {cs : List Char} (hc : isWordStart c = true)
    (hcs : ∀ d ∈ cs, isWord d = true) {rest : List Char} (hrest : Separated rest) :
    lex backslash (':' :: c :: cs ++ rest) = .token (c :: cs) :: lex backslash rest := by
  have hcolon : c ≠ ':' := by
    rintro rfl
    exact absurd hc (by decide)
  have hend : rest.takeWhile isWord = [] ∧ rest.dropWhile isWord = rest := by
    cases rest with
    | nil => simp
    | cons d more =>
        have hd : isWord d = false := isWord_of_isSeparator (separated_cons.mp hrest)
        simp [hd]
  have hcode : step backslash .code ':' = ([], .colon) := by
    simp [step, start]
  have hfirst : step backslash .colon c = ([], .name [c]) := by
    simp [step, hcolon, hc]
  have hstart : lex backslash (':' :: c :: cs ++ rest) =
      lexFrom backslash (.name [c]) (cs ++ rest) := by
    rw [List.cons_append, List.cons_append, lex, lexFrom_of_step hcode, lexFrom_of_step hfirst]
  have htake : (cs ++ rest).takeWhile isWord = cs := by
    rw [List.takeWhile_append_of_pos hcs, hend.1, List.append_nil]
  have hdrop : (cs ++ rest).dropWhile isWord = rest := by
    rw [List.dropWhile_append_of_pos hcs, hend.2]
  rw [hstart, lexFrom_name, htake, hdrop]
  rfl

end QueryLoom.Lexer
