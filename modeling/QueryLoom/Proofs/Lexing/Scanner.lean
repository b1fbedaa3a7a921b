import QueryLoom.Proofs.Lexing.Lexer
import QueryLoom.Sql.Binding

/-!
The scanner of placeholders against the one-pass lexer. On a text whose regions are closed the two
read the same stretches, with one exception: where a backslash escapes, the scanner does not let it
escape a line feed. A quoted text that holds such a pair is not read as a whole, its opening quote
becomes an ordinary character, and the quoting of all that follows is shifted.
-/

namespace QueryLoom.Lexer

open Text Placeholder

variable {backslash : Bool}

/-- The stretch that a lexeme is scanned as. -/
def Lexeme.span : Lexeme → Span
  | .token name => .placeholder name
  | l => .copied l.chars

/-! What the lexer reads from each of its states, in the terms of the scanner. -/

theorem lex_nil : lex backslash [] = [] := rfl

theorem lex_cons (c : Char) (rest : List Char) :
    lex backslash (c :: rest) = (start c).1 ++ lexFrom backslash (start c).2 rest := rfl

/-- A step that emits nothing. -/
theorem lexFrom_of_step {s s' : State} {c : Char} (h : step backslash s c = ([], s'))
    (rest : List Char) : lexFrom backslash s (c :: rest) = lexFrom backslash s' rest := by
  simp [lexFrom, h]

/-- A character that ends what was read before it is read again as code. -/
theorem lexFrom_of_startAfter {s : State} (complete : List Lexeme) (c : Char) (rest : List Char)
    (h : step backslash s c = startAfter complete c) :
    lexFrom backslash s (c :: rest) = complete ++ lex backslash (c :: rest) := by
  rw [lex_cons, lexFrom, h, startAfter, List.append_assoc]

theorem lexFrom_name (read cs : List Char) :
    lexFrom backslash (.name read) cs =
      .token (read ++ cs.takeWhile isWord) :: lex backslash (cs.dropWhile isWord) := by
  induction cs generalizing read with
  | nil => simp [lexFrom, finish, lex_nil]
  | cons c rest ih =>
      by_cases hc : isWord c = true
      · simp [lexFrom, step, hc, ih]
      · rw [lexFrom_of_startAfter [.token read] c rest (by simp [step, hc])]
        simp [hc]

theorem lexFrom_cast (read cs : List Char) :
    lexFrom backslash (.cast read) cs =
      .skipped (read ++ cs.takeWhile isWord) :: lex backslash (cs.dropWhile isWord) := by
  induction cs generalizing read with
  | nil => simp [lexFrom, finish, lex_nil]
  | cons c rest ih =>
      by_cases hc : isWord c = true
      · simp [lexFrom, step, hc, ih]
      · rw [lexFrom_of_startAfter [.skipped read] c rest (by simp [step, hc])]
        simp [hc]

theorem lexFrom_line (read cs : List Char) :
    lexFrom backslash (.line read) cs =
      .skipped (read ++ cs.takeWhile isInLine) :: lex backslash (cs.dropWhile isInLine) := by
  induction cs generalizing read with
  | nil => simp [lexFrom, finish, lex_nil]
  | cons c rest ih =>
      by_cases hc : isInLine c = true
      · simp [lexFrom, step, hc, ih]
      · rw [lexFrom_of_startAfter [.skipped read] c rest (by simp [step, hc])]
        simp [hc]

/-- From a state the lexer reads the region that the scanner takes, unless the text ends inside
it. `front` is what both have read of the region before. -/
def Reads (backslash : Bool) (s : State) (cs front : List Char) (kind : List Char → Lexeme)
    (taken : Taken) : Prop :=
  (∃ read, .unclosed read ∈ lexFrom backslash s cs) ∨
    ∃ region rest, taken = some (region, rest) ∧
      lexFrom backslash s cs = kind (front ++ region) :: lex backslash rest

/-- A step that emits nothing keeps what is read. -/
theorem Reads.of_step {s s' : State} {c : Char} {rest front : List Char}
    {kind : List Char → Lexeme} {taken : Taken} (hstep : step backslash s c = ([], s'))
    (h : Reads backslash s' rest (front ++ [c]) kind taken) :
    Reads backslash s (c :: rest) front kind (taken.after [c]) := by
  unfold Reads at h ⊢
  rw [lexFrom_of_step hstep]
  rcases h with hopen | ⟨region, after, htaken, hregion⟩
  · exact .inl hopen
  · refine .inr ⟨c :: region, after, by rw [htaken]; rfl, ?_⟩
    rw [hregion, List.append_assoc]
    rfl

/-- A step that completes the region. -/
theorem Reads.of_close {s : State} {c : Char} {rest front : List Char}
    {kind : List Char → Lexeme} (hstep : step backslash s c = ([kind (front ++ [c])], .code)) :
    Reads backslash s (c :: rest) front kind (some ([c], rest)) :=
  .inr ⟨[c], rest, rfl, by simp [lexFrom, hstep, lex]⟩

theorem Reads.of_end {s : State} {front read : List Char} {kind : List Char → Lexeme}
    {taken : Taken} (h : finish s = [.unclosed read]) :
    Reads backslash s [] front kind taken :=
  .inl ⟨read, by simp [lexFrom, h]⟩

theorem reads_backQuoted (read cs : List Char) :
    Reads backslash (.backQuoted read) cs read .skipped (closePlain '`' cs) := by
  induction cs generalizing read with
  | nil => exact Reads.of_end rfl
  | cons c rest ih =>
      by_cases hc : c = '`'
      · have hclose : closePlain '`' (c :: rest) = some ([c], rest) := by simp [closePlain, hc]
        rw [hclose]
        exact Reads.of_close (by simp [step, hc])
      · have hclose : closePlain '`' (c :: rest) = (closePlain '`' rest).after [c] := by
          simp [closePlain, hc]
        rw [hclose]
        exact Reads.of_step (by simp [step, hc]) (ih (read ++ [c]))

/-- The rest of a block comment after an asterisk. -/
def closeStar : List Char → Taken
  | '/' :: rest => some (['/'], rest)
  | cs => closeBlock cs

theorem closeStar_of_ne {c : Char} {rest : List Char} (hc : c ≠ '/') :
    closeStar (c :: rest) = closeBlock (c :: rest) := by
  unfold closeStar
  split
  · rename_i heq
    exact absurd (List.cons.inj heq).1 hc
  · rfl

theorem closeBlock_star (cs : List Char) :
    closeBlock ('*' :: cs) = (closeStar cs).after ['*'] := by
  cases cs with
  | nil => rfl
  | cons c rest =>
      by_cases hc : c = '/'
      · subst hc
        rfl
      · rw [closeStar_of_ne hc, closeBlock.eq_3 _ _ (by simp [hc])]

theorem closeBlock_of_ne {c : Char} {rest : List Char} (hc : c ≠ '*') :
    closeBlock (c :: rest) = (closeBlock rest).after [c] :=
  closeBlock.eq_3 _ _ (by simp [hc])

/-- The scanner looks one character ahead where the lexer remembers an asterisk. -/
theorem reads_block_and_star (cs : List Char) :
    (∀ read, Reads backslash (.block read) cs read .skipped (closeBlock cs)) ∧
      ∀ read, Reads backslash (.star read) cs read .skipped (closeStar cs) := by
  induction cs with
  | nil => exact ⟨fun read => Reads.of_end rfl, fun read => Reads.of_end rfl⟩
  | cons c rest ih =>
      obtain ⟨hblock, hstar⟩ := ih
      by_cases hc : c = '*'
      · subst hc
        constructor
        · intro read
          rw [closeBlock_star]
          exact Reads.of_step rfl (hstar _)
        · intro read
          rw [closeStar_of_ne (by decide), closeBlock_star]
          exact Reads.of_step rfl (hstar _)
      · constructor
        · intro read
          rw [closeBlock_of_ne hc]
          exact Reads.of_step (by simp [step, hc]) (hblock _)
        · intro read
          by_cases hslash : c = '/'
          · subst hslash
            exact Reads.of_close rfl
          · rw [closeStar_of_ne hslash, closeBlock_of_ne hc]
            exact Reads.of_step (by simp [step, hc, hslash]) (hblock _)

theorem reads_block (read cs : List Char) :
    Reads backslash (.block read) cs read .skipped (closeBlock cs) :=
  (reads_block_and_star cs).1 read

/-- Where quotes are doubled, lexer and scanner read the same quoted text. The scanner's way back
from a doubled quote is taken only in a text that ends inside the region. -/
theorem reads_doubled (quote : Char) (read cs : List Char) :
    Reads false (.quoted quote read) cs read .quoted (closeDoubled quote cs) := by
  fun_induction closeDoubled quote cs generalizing read with
  | case1 => exact Reads.of_end rfl
  | case2 c hc =>
      refine .inr ⟨[c], [], rfl, ?_⟩
      simp_all [lexFrom, step, quotedStep, finish, lex_nil]
  | case3 c hc =>
      refine .inl ⟨read ++ [c], ?_⟩
      simp_all [lexFrom, step, quotedStep, finish]
  | case4 c d more hc hd region rest htaken ih =>
      have hlex : lexFrom false (.quoted quote read) (c :: d :: more) =
          lexFrom false (.quoted quote (read ++ [c] ++ [d])) more := by
        simp_all [lexFrom, step, quotedStep]
      unfold Reads
      rw [hlex]
      rcases ih (read ++ [c] ++ [d]) with hopen | ⟨region', rest', htaken', hregion⟩
      · exact .inl hopen
      · rw [htaken, Option.some.injEq, Prod.mk.injEq] at htaken'
        obtain ⟨rfl, rfl⟩ := htaken'
        exact .inr ⟨c :: d :: region, rest, rfl, by simpa using hregion⟩
  | case5 c d more hc hd htaken ih =>
      have hlex : lexFrom false (.quoted quote read) (c :: d :: more) =
          lexFrom false (.quoted quote (read ++ [c] ++ [d])) more := by
        simp_all [lexFrom, step, quotedStep]
      unfold Reads
      rw [hlex]
      rcases ih (read ++ [c] ++ [d]) with hopen | ⟨region', rest', htaken', _⟩
      · exact .inl hopen
      · rw [htaken] at htaken'
        cases htaken'
  | case6 c d more hc hd =>
      refine .inr ⟨[c], d :: more, rfl, ?_⟩
      have hquote : c = quote := by simpa using hc
      have hnext : d ≠ quote := by simpa using hd
      have hclosing : step false (.quoted quote read) c = ([], .closing quote (read ++ [c])) := by
        simp [step, quotedStep, hquote]
      rw [lexFrom_of_step hclosing, lexFrom_of_startAfter [.quoted (read ++ [c])] d more
        (by simp [step, hnext, hquote])]
      rfl
  | case7 c d more hc ih =>
      have hquote : c ≠ quote := by simpa using hc
      exact Reads.of_step (by simp [step, quotedStep, hquote]) (ih _)

/-! Where a backslash escapes. -/

theorem escapedChars_of_ne {c : Char} (hc : c ≠ '\\') (cs : List Char) :
    escapedChars (c :: cs) = escapedChars cs := by
  cases cs with
  | nil => rfl
  | cons d rest => simp [escapedChars, hc]

/-- The rest of a quoted text in which a backslash escapes the next character, whichever it is. -/
def closeEscapedAny (quote : Char) : List Char → Taken
  | [] => none
  | [c] => if c = quote then some ([c], []) else none
  | c :: d :: rest =>
      if c = '\\' then (closeEscapedAny quote rest).after [c, d]
      else if c = quote then some ([c], d :: rest)
      else (closeEscapedAny quote (d :: rest)).after [c]

theorem reads_escaped {quote : Char} (hquote : quote ≠ '\\') (read cs : List Char) :
    Reads true (.quoted quote read) cs read .quoted (closeEscapedAny quote cs) := by
  fun_induction closeEscapedAny quote cs generalizing read with
  | case1 => exact Reads.of_end rfl
  | case2 => exact Reads.of_close (by simp [step, quotedStep, hquote])
  | case3 c hc =>
      by_cases hback : c = '\\'
      · exact .inl ⟨read ++ [c], by simp [lexFrom, step, quotedStep, hback, finish]⟩
      · exact .inl ⟨read ++ [c], by simp [lexFrom, step, quotedStep, hback, hc, finish]⟩
  | case4 d more ih =>
      have htaken := Reads.of_step (c := d) (s := .escaped quote (read ++ ['\\'])) rfl (ih _)
      have hboth := Reads.of_step (c := '\\') (s := .quoted quote read) rfl htaken
      convert hboth using 1
      cases closeEscapedAny quote more <;> rfl
  | case5 d more hc => exact Reads.of_close (by simp [step, quotedStep, hquote])
  | case6 c d more hback hc ih => exact Reads.of_step (by simp [step, quotedStep, hback, hc]) (ih _)

/-- The scanner reads a closed quoted text as a whole exactly if the text escapes no line feed. -/
theorem closeEscaped_eq {quote : Char} {cs region rest : List Char}
    (h : closeEscapedAny quote cs = some (region, rest)) :
    closeEscaped quote cs =
      if (escapedChars region).contains '\n' then none else some (region, rest) := by
  fun_induction closeEscapedAny quote cs generalizing region rest with
  | case1 => cases h
  | case2 =>
      obtain ⟨rfl, rfl⟩ := Prod.mk.inj (Option.some.inj h)
      simp [closeEscaped, escapedChars]
  | case3 c hc => cases h
  | case4 d more ih =>
      obtain ⟨inner, htaken, rfl⟩ := Taken.eq_of_after h
      have hinner := ih htaken
      by_cases hd : d = '\n'
      · simp [closeEscaped, escapedChars, hd]
      · have hsame : (d :: escapedChars inner).contains '\n' =
            (escapedChars inner).contains '\n' := by
          simp [Ne.symm hd]
        simp only [closeEscaped, beq_self_eq_true, ↓reduceIte, beq_iff_eq, hd, hinner,
          List.cons_append, List.nil_append, escapedChars, hsame]
        split_ifs <;> rfl
  | case5 d more hc =>
      obtain ⟨rfl, rfl⟩ := Prod.mk.inj (Option.some.inj h)
      simp [closeEscaped, hc, escapedChars]
  | case6 c d more hback hc ih =>
      obtain ⟨inner, htaken, rfl⟩ := Taken.eq_of_after h
      have hinner := ih htaken
      simp only [closeEscaped, beq_iff_eq, hback, hc, ↓reduceIte, hinner, List.singleton_append,
        escapedChars_of_ne hback]
      split_ifs <;> rfl

/-! One stretch of a text, as the scanner and the lexer take it from the front. -/

/-- How scanner and lexer relate at the front of a text. -/
inductive Front (backslash : Bool) (cs : List Char) : Prop
  /-- Both take the same region. -/
  | region (l : Lexeme) (region after : List Char)
      (hscan : region? backslash cs = some (region, after))
      (hlex : lex backslash cs = l :: lex backslash after)
      (hspan : l.span = .copied region)
      (hclean : backslash = true → l.escapesLineFeed = false)
  /-- Both take the same token. -/
  | token (name after : List Char)
      (hscan : region? backslash cs = none) (hname : name? cs = some (name, after))
      (hlex : lex backslash cs = .token name :: lex backslash after)
  /-- Both take one character of code. -/
  | code (c : Char) (rest : List Char) (hcs : cs = c :: rest)
      (hscan : region? backslash cs = none) (hname : name? cs = none)
      (hlex : lex backslash cs = .code c :: lex backslash rest)
  /-- The lexer takes a quoted text that escapes a line feed; the scanner takes its quote only. -/
  | shifted (quote : Char) (rest region after : List Char) (hcs : cs = quote :: rest)
      (hscan : region? backslash cs = none) (hname : name? cs = none)
      (hlex : lex backslash cs = .quoted region :: lex backslash after)
      (hback : backslash = true) (hescape : (escapedChars region).contains '\n' = true)

/-- A region that ends inside a terminated text is read by lexer and scanner alike. -/
theorem Reads.closed {s : State} {c : Char} {rest front : List Char} {kind : List Char → Lexeme}
    {taken : Taken} (hlex : lex backslash (c :: rest) = lexFrom backslash s rest)
    (h : Terminated backslash (c :: rest)) (hreads : Reads backslash s rest front kind taken) :
    ∃ region after, taken = some (region, after) ∧
      lex backslash (c :: rest) = kind (front ++ region) :: lex backslash after := by
  rcases hreads with ⟨read, hopen⟩ | ⟨region, after, htaken, hregion⟩
  · exact absurd (h _ (hlex ▸ hopen)) (by simp [Lexeme.isUnclosed])
  · exact ⟨region, after, htaken, hlex.trans hregion⟩

theorem front_quote {quote : Char} {rest : List Char} (hquote : quote = '"' ∨ quote = '\'')
    (h : Terminated backslash (quote :: rest)) : Front backslash (quote :: rest) := by
  have hne : quote ≠ '\\' := by
    rcases hquote with rfl | rfl <;> decide
  have hlex : lex backslash (quote :: rest) = lexFrom backslash (.quoted quote [quote]) rest := by
    simp [lex_cons, start, hquote]
  have hname : name? (quote :: rest) = none := by
    rcases hquote with rfl | rfl <;> rfl
  cases backslash with
  | false =>
      obtain ⟨region, after, htaken, hregion⟩ :=
        Reads.closed hlex h (reads_doubled quote [quote] rest)
      refine .region _ (quote :: region) after ?_ hregion rfl (by simp)
      rcases hquote with rfl | rfl <;> simp [region?, htaken, Taken.after]
  | true =>
      obtain ⟨region, after, htaken, hregion⟩ :=
        Reads.closed hlex h (reads_escaped hne [quote] rest)
      have hscan := closeEscaped_eq htaken
      have hescaped : escapedChars ([quote] ++ region) = escapedChars region :=
        escapedChars_of_ne hne region
      by_cases hline : (escapedChars region).contains '\n' = true
      · rw [if_pos hline] at hscan
        refine .shifted quote rest _ after rfl ?_ hname hregion rfl (by rwa [hescaped])
        rcases hquote with rfl | rfl <;> simp [region?, hscan, Taken.after]
      · rw [if_neg hline] at hscan
        refine .region _ (quote :: region) after ?_ hregion rfl ?_
        · rcases hquote with rfl | rfl <;> simp [region?, hscan, Taken.after]
        · intro _
          rw [Lexeme.escapesLineFeed, hescaped]
          exact Bool.eq_false_iff.mpr hline

theorem front_backQuote {rest : List Char} (h : Terminated backslash ('`' :: rest)) :
    Front backslash ('`' :: rest) := by
  obtain ⟨region, after, htaken, hregion⟩ := Reads.closed rfl h (reads_backQuoted ['`'] rest)
  exact .region _ ('`' :: region) after (by simp [region?, htaken, Taken.after]) hregion rfl
    (fun _ => rfl)

theorem front_dash {rest : List Char} : Front backslash ('-' :: rest) := by
  cases rest with
  | nil => exact .code '-' [] rfl rfl rfl rfl
  | cons d more =>
      by_cases hd : d = '-'
      · subst hd
        exact .region _ _ _ rfl (lexFrom_line ['-', '-'] more) rfl (fun _ => rfl)
      · refine .code '-' (d :: more) rfl ?_ rfl ?_
        · unfold region?
          split <;> simp_all
        · exact lexFrom_of_startAfter (s := .dash) [.code '-'] d more (by simp [step, hd])

theorem front_slash {rest : List Char} (h : Terminated backslash ('/' :: rest)) :
    Front backslash ('/' :: rest) := by
  cases rest with
  | nil => exact .code '/' [] rfl rfl rfl rfl
  | cons d more =>
      by_cases hd : d = '*'
      · subst hd
        have hopen : step backslash .slash '*' = ([], .block ['/', '*']) := rfl
        have hreads : Reads backslash .slash ('*' :: more) ['/'] .skipped
            ((closeBlock more).after ['*']) :=
          Reads.of_step hopen (reads_block ['/', '*'] more)
        obtain ⟨region, after, htaken, hregion⟩ := Reads.closed rfl h hreads
        obtain ⟨inner, hinner, rfl⟩ := Taken.eq_of_after htaken
        exact .region _ ('/' :: '*' :: inner) after (by simp [region?, hinner, Taken.after]) hregion
          rfl (fun _ => rfl)
      · refine .code '/' (d :: more) rfl ?_ rfl ?_
        · unfold region?
          split <;> simp_all
        · exact lexFrom_of_startAfter (s := .slash) [.code '/'] d more (by simp [step, hd])

theorem isWord_of_isWordStart {c : Char} (h : isWordStart c = true) : isWord c = true := by
  simp only [isWordStart, Bool.or_eq_true] at h
  rcases h with h | h <;> simp [isWord, Char.isAlphanum, h]

/-- Two colons that no word follows are read one by one. -/
theorem lex_colons {cs : List Char} (h : ∀ c ∈ cs.head?, isWord c = false) :
    lex backslash (':' :: ':' :: cs) = .code ':' :: lex backslash (':' :: cs) := by
  cases cs with
  | nil => rfl
  | cons d more =>
      have hword : isWord d = false := h d rfl
      have hstart : isWordStart d = false := by
        by_contra hd
        simp [isWord_of_isWordStart (by simpa using hd)] at hword
      by_cases hd : d = ':'
      · subst hd
        rfl
      · have hone : lex backslash (':' :: d :: more) =
            .code ':' :: lex backslash (d :: more) :=
          lexFrom_of_startAfter (s := .colon) [.code ':'] d more (by simp [step, hd, hstart])
        rw [hone]
        exact lexFrom_of_startAfter (s := .colons) [.code ':', .code ':'] d more
          (by simp [step, hd, hword])

theorem front_colon {rest : List Char} : Front backslash (':' :: rest) := by
  cases rest with
  | nil => exact .code ':' [] rfl rfl rfl rfl
  | cons c more =>
      by_cases hc : c = ':'
      · subst hc
        by_cases hword : ∃ d after, more = d :: after ∧ isWord d = true
        · obtain ⟨d, after, rfl, hd⟩ := hword
          have hlex : lex backslash (':' :: ':' :: d :: after) =
              lexFrom backslash (.cast [':', ':', d]) after :=
            lexFrom_of_step (s := .colons) (by simp [step, hd]) after
          exact .region _ (':' :: ':' :: d :: after.takeWhile isWord) (after.dropWhile isWord)
            (by simp [region?, hd]) (hlex.trans (lexFrom_cast _ after)) rfl
            (fun _ => rfl)
        · have hnot : ∀ d ∈ more.head?, isWord d = false := by
            intro d hd
            cases more with
            | nil => simp at hd
            | cons e after =>
                obtain rfl : e = d := by simpa using hd
                simpa using fun he => hword ⟨e, after, rfl, he⟩
          refine .code ':' (':' :: more) rfl ?_ rfl (lex_colons hnot)
          cases more with
          | nil => rfl
          | cons e after => simp [region?, hnot e rfl]
      · have hscan : region? backslash (':' :: c :: more) = none := by
          unfold region?
          split <;> simp_all
        by_cases hstart : isWordStart c = true
        · have hlex : lex backslash (':' :: c :: more) = lexFrom backslash (.name [c]) more :=
            lexFrom_of_step (s := .colon) (by simp [step, hc, hstart]) more
          exact .token (c :: more.takeWhile isWord) (more.dropWhile isWord) hscan
            (by simp [name?, hstart]) (hlex.trans (lexFrom_name _ more))
        · exact .code ':' (c :: more) rfl hscan (by simp [name?, hstart])
            (lexFrom_of_startAfter (s := .colon) [.code ':'] c more (by simp [step, hc, hstart]))

/-- The front of a terminated text. The cases are those of the lexer in code position. -/
theorem front {c : Char} {rest : List Char} (h : Terminated backslash (c :: rest)) :
    Front backslash (c :: rest) := by
  by_cases hquote : c = '"' ∨ c = '\''
  · exact front_quote hquote h
  by_cases hback : c = '`'
  · subst hback
    exact front_backQuote h
  by_cases hdash : c = '-'
  · subst hdash
    exact front_dash
  by_cases hslash : c = '/'
  · subst hslash
    exact front_slash h
  by_cases hcolon : c = ':'
  · subst hcolon
    exact front_colon
  · refine .code c rest rfl ?_ ?_ ?_
    · unfold region?
      split <;> simp_all
    · unfold name?
      split <;> simp_all
    · rw [lex_cons, start, if_neg hquote, if_neg hback, if_neg hdash, if_neg hslash, if_neg hcolon]
      rfl

/-! The spans of a text, one at a time. -/

theorem spans_of_region {cs region after : List Char}
    (h : region? backslash cs = some (region, after)) :
    spans backslash cs = .copied region :: spans backslash after := by
  cases cs with
  | nil => cases h
  | cons c rest =>
      rw [spans]
      split <;> simp_all

theorem spans_of_name {cs name after : List Char} (hscan : region? backslash cs = none)
    (h : name? cs = some (name, after)) :
    spans backslash cs = .placeholder name :: spans backslash after := by
  cases cs with
  | nil => cases h
  | cons c rest =>
      rw [spans]
      split
      · simp_all
      · split <;> simp_all

theorem spans_of_code {c : Char} {rest : List Char}
    (hscan : region? backslash (c :: rest) = none) (h : name? (c :: rest) = none) :
    spans backslash (c :: rest) = .copied [c] :: spans backslash rest := by
  rw [spans]
  split
  · simp_all
  · split <;> simp_all

theorem Terminated.tail {cs after : List Char} {l : Lexeme}
    (h : Terminated backslash cs) (hlex : lex backslash cs = l :: lex backslash after) :
    Terminated backslash after := by
  intro l' hl'
  exact h l' (hlex ▸ List.mem_cons_of_mem l hl')

theorem noEscapedLineFeed_cons {cs after : List Char} {l : Lexeme}
    (hlex : lex backslash cs = l :: lex backslash after)
    (hclean : backslash = true → l.escapesLineFeed = false) :
    NoEscapedLineFeed backslash cs ↔ NoEscapedLineFeed backslash after := by
  unfold NoEscapedLineFeed
  rw [hlex]
  constructor
  · intro h hback l' hl'
    exact h hback l' (List.mem_cons_of_mem l hl')
  · intro h hback l' hl'
    rcases List.mem_cons.mp hl' with rfl | hl'
    · exact hclean hback
    · exact h hback l' hl'

/-- On a terminated text the scanner's spans are the lexer's lexemes exactly if no quoted text
escapes a line feed. -/
theorem spans_eq_lex_iff {cs : List Char} (h : Terminated backslash cs) :
    spans backslash cs = (lex backslash cs).map Lexeme.span ↔ NoEscapedLineFeed backslash cs := by
  induction hn : cs.length using Nat.strongRecOn generalizing cs with
  | ind n ih =>
      subst hn
      cases cs with
      | nil => simp [spans, lex_nil, NoEscapedLineFeed]
      | cons c rest =>
          cases front h with
          | region l region after hscan hlex hspan hclean =>
              have hafter := ih after.length (region?_length hscan) (h.tail hlex) rfl
              rw [noEscapedLineFeed_cons hlex hclean, ← hafter, spans_of_region hscan, hlex,
                List.map_cons, hspan, List.cons.injEq, and_iff_right rfl]
          | token name after hscan hname hlex =>
              have hafter := ih after.length (name?_length hname) (h.tail hlex) rfl
              rw [noEscapedLineFeed_cons hlex (fun _ => rfl), ← hafter, spans_of_name hscan hname, hlex,
                List.map_cons, show (Lexeme.token name).span = .placeholder name from rfl,
                List.cons.injEq, and_iff_right rfl]
          | code d more hcs hscan hname hlex =>
              obtain ⟨rfl, rfl⟩ := List.cons.inj hcs
              have hafter := ih rest.length (by simp) (h.tail hlex) rfl
              rw [noEscapedLineFeed_cons hlex (fun _ => rfl), ← hafter, spans_of_code hscan hname, hlex,
                List.map_cons, show (Lexeme.code c).span = .copied [c] from rfl, List.cons.injEq,
                and_iff_right rfl]
          | shifted quote more region after hcs hscan hname hlex hback hescape =>
              obtain ⟨rfl, rfl⟩ := List.cons.inj hcs
              constructor
              · intro hspans
                rw [spans_of_code hscan hname, hlex, List.map_cons] at hspans
                have hregion : [c] = region := Span.copied.inj (List.cons.inj hspans).1
                rw [← hregion] at hescape
                simp [escapedChars] at hescape
              · intro hnone
                have hfree := hnone hback (.quoted region) (by simp [hlex])
                rw [Lexeme.escapesLineFeed, hescape] at hfree
                cases hfree

end QueryLoom.Lexer
