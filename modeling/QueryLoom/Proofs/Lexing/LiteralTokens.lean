import QueryLoom.Proofs.Lexing.Literal
import QueryLoom.Proofs.Lexing.Tokens

/-!
The tokens of literals. A number is read as one word or number, behind its sign; octets and strings
are read as one token each, which holds what was written. What a value holds can therefore not be
read as more than the literal of that value.
-/

namespace QueryLoom

open Lexer Text

namespace SqlToken

variable {backslash : Bool} {cs rest : List Char}

/-! Words and numbers. -/

/-- Whether characters go on with what was read, one after the other. -/
def runsOn (read : List Char) : List Char → Bool
  | [] => true
  | c :: rest => goesOn read c && runsOn (read ++ [c]) rest

theorem runsOn_append (read cs rest : List Char) :
    runsOn read (cs ++ rest) = (runsOn read cs && runsOn (read ++ cs) rest) := by
  induction cs generalizing read with
  | nil => simp [runsOn]
  | cons c more ih => simp [runsOn, ih, Bool.and_assoc]

/-- A text that is read as one word or number. -/
def IsSingle (cs : List Char) : Prop :=
  ∃ c rest, cs = c :: rest ∧ isWord c = true ∧ runsOn [c] rest = true

theorem readThrough_runsOn {read : List Char} (h : runsOn read cs = true) :
    readThrough backslash (.bare read) (cs.map .code) = ([], .bare (read ++ cs)) := by
  induction cs generalizing read with
  | nil => simp [readThrough]
  | cons c rest ih =>
      rw [runsOn, Bool.and_eq_true] at h
      simp [readThrough, readLexeme, readChar, h.1, ih h.2]

theorem isOperator_of_isWord {c : Char} (h : isWord c = true) : isOperator c = false := by
  have hnone : operatorChars.all (fun d => !isWord d) = true := rfl
  rw [isOperator, List.contains_eq_mem, decide_eq_false_iff_not]
  intro hmem
  have hother := List.all_eq_true.mp hnone c hmem
  rw [h] at hother
  cases hother

/-- The tokens of a number, the sign of which is a token of its own. -/
def signed (cs : List Char) : List SqlToken :=
  match cs with
  | '-' :: rest => [.mark ['-'], .bare rest]
  | cs => [.bare cs]

theorem readFrom_signed (h : IsSingle cs) (negative : Bool) :
    readFrom backslash .none (((if negative then "-" else "").toList ++ cs).map .code) =
      signed ((if negative then "-" else "").toList ++ cs) := by
  obtain ⟨c, rest, rfl, hc, hrest⟩ := h
  have hopening : opening c = ([], .bare [c]) := by simp [opening, hc]
  have hrun := @readThrough_runsOn backslash _ _ hrest
  cases negative with
  | false =>
      have hsign : signed (c :: rest) = [.bare (c :: rest)] := by
        unfold signed
        split
        · rename_i heq
          cases heq
          exact absurd hc (by decide)
        · rfl
      simp [readFrom_eq, readThrough, readLexeme, readChar, hopening, hrun, hsign, Pending.tokens]
  | true =>
      have hdash : opening '-' = ([], .operator ['-']) := by decide
      simp [readFrom_eq, readThrough, readLexeme, readChar, hdash, hopening, hrun, signed,
        isOperator_of_isWord hc, Pending.tokens]

theorem isWord_of_isDigit {c : Char} (h : c.isDigit = true) : isWord c = true := by
  simp [isWord, Char.isAlphanum, h]

theorem runsOn_word {read : List Char} (h : ∀ c ∈ cs, isWord c = true) :
    runsOn read cs = true := by
  induction cs generalizing read with
  | nil => rfl
  | cons c rest ih =>
      rw [List.forall_mem_cons] at h
      simp [runsOn, goesOn, h.1, ih h.2]

theorem isSingle_word (hne : cs ≠ []) (h : ∀ c ∈ cs, isWord c = true) : IsSingle cs := by
  obtain ⟨c, rest, rfl⟩ := List.exists_cons_of_ne_nil hne
  rw [List.forall_mem_cons] at h
  exact ⟨c, rest, rfl, h.1, runsOn_word h.2⟩

/-- The texts that are written as they are, such as that of null. -/
theorem isSingle_text {s : String} (hne : s.toList ≠ []) (h : s.toList.all isWord = true) :
    IsSingle s.toList :=
  isSingle_word hne (List.all_eq_true.mp h)

/-- A number without exponent: digits and points, a digit first. -/
structure IsPlainNumber (cs : List Char) : Prop where
  head : cs.head?.any Char.isDigit = true
  numeric : ∀ c ∈ cs, isNumeric c = true

namespace IsPlainNumber

theorem of_digits (hne : cs ≠ []) (h : ∀ c ∈ cs, c.isDigit = true) : IsPlainNumber cs := by
  obtain ⟨c, rest, rfl⟩ := List.exists_cons_of_ne_nil hne
  exact ⟨h c List.mem_cons_self, fun d hd => by simp [isNumeric, h d hd]⟩

theorem append (hcs : IsPlainNumber cs) (hrest : ∀ c ∈ rest, isNumeric c = true) :
    IsPlainNumber (cs ++ rest) := by
  constructor
  · rw [List.head?_append]
    cases hhead : cs.head? with
    | none => simpa [hhead] using hcs.head
    | some c => simpa [hhead] using hcs.head
  · exact List.forall_mem_append.mpr ⟨hcs.numeric, hrest⟩

theorem runsOn_numeric {read : List Char} (hread : read.head?.any Char.isDigit = true)
    (h : ∀ c ∈ cs, isNumeric c = true) : runsOn read cs = true := by
  induction cs generalizing read with
  | nil => rfl
  | cons c rest ih =>
      rw [List.forall_mem_cons] at h
      obtain ⟨first, more, rfl⟩ : ∃ first more, read = first :: more := by
        cases read with
        | nil => cases hread
        | cons first more => exact ⟨first, more, rfl⟩
      have hgoes : goesOn (first :: more) c = true := by
        have hnumeric := h.1
        rw [isNumeric, Bool.or_eq_true] at hnumeric
        rcases hnumeric with hdigit | hpoint
        · simp [goesOn, isWord_of_isDigit hdigit]
        · rw [goesOn, hread, hpoint]
          simp
      have hmore := @ih (first :: more ++ [c]) hread h.2
      rw [runsOn, hgoes, hmore]
      rfl

theorem isSingle (h : IsPlainNumber cs) : IsSingle cs := by
  obtain ⟨hhead, hnumeric⟩ := h
  cases cs with
  | nil => cases hhead
  | cons c rest =>
      have hdigit : c.isDigit = true := hhead
      exact ⟨c, rest, rfl, isWord_of_isDigit hdigit,
        runsOn_numeric hhead (List.forall_mem_cons.mp hnumeric).2⟩

/-- A number with an exponent: the sign goes on with the number, since it stands behind a letter. -/
theorem exponent (h : IsPlainNumber cs) {letter sign : Char} (hletter : letter = 'e' ∨ letter = 'E')
    (hsign : sign = '+' ∨ sign = '-') (hrest : ∀ c ∈ rest, c.isDigit = true) :
    IsSingle (cs ++ letter :: sign :: rest) := by
  obtain ⟨c, more, rfl, hc, hmore⟩ := h.isSingle
  have hword : goesOn (c :: more) letter = true := by
    have hletterWord : isWord letter = true := by
      rcases hletter with rfl | rfl <;> decide
    simp [goesOn, hletterWord]
  have hends : endsInExponent (c :: more ++ [letter]) = true := by
    have hall : ∀ d ∈ (c :: more).reverse, isNumeric d = true := by
      intro d hd
      exact h.numeric d (List.mem_reverse.mp hd)
    have hsplit : (c :: more ++ [letter]).reverse = letter :: (c :: more).reverse := by simp
    have hne : (c :: more).reverse.isEmpty = false := by simp
    have hl : (letter == 'e' || letter == 'E') = true := by simpa using hletter
    unfold endsInExponent
    rw [hsplit]
    dsimp only
    rw [hl, hne, List.all_eq_true.mpr hall]
    rfl
  have hgoes : goesOn (c :: more ++ [letter]) sign = true := by
    have hs : (sign == '+' || sign == '-') = true := by simpa using hsign
    rw [goesOn, hends, hs]
    simp
  refine ⟨c, more ++ letter :: sign :: rest, rfl, hc, ?_⟩
  rw [runsOn_append, hmore]
  simp only [runsOn, Bool.true_and, List.cons_append, List.nil_append, Bool.and_eq_true]
  refine ⟨hword, hgoes, runsOn_word fun d hd => isWord_of_isDigit (hrest d hd)⟩

theorem scientific (h : IsPlainNumber cs) {mark : String}
    (hmark : mark ∈ ["e-", "e+", "E-", "E+"]) (hrest : ∀ c ∈ rest, c.isDigit = true) :
    IsSingle (cs ++ (mark.toList ++ rest)) := by
  simp only [List.mem_cons, List.not_mem_nil, or_false] at hmark
  rcases hmark with rfl | rfl | rfl | rfl
  · exact h.exponent (.inl rfl) (.inr rfl) hrest
  · exact h.exponent (.inl rfl) (.inl rfl) hrest
  · exact h.exponent (.inr rfl) (.inr rfl) hrest
  · exact h.exponent (.inr rfl) (.inl rfl) hrest

/-- A point among digits, the first of which stays before it. -/
theorem point (hne : cs ≠ []) (h : ∀ c ∈ cs, c.isDigit = true) {n : Nat} (hn : 0 < n) :
    IsPlainNumber (cs.take n ++ '.' :: cs.drop n) := by
  have htake : IsPlainNumber (cs.take n) := by
    refine of_digits ?_ fun c hc => h c (List.mem_of_mem_take hc)
    rw [Ne, List.take_eq_nil_iff, not_or]
    exact ⟨by omega, hne⟩
  refine htake.append (List.forall_mem_cons.mpr ⟨rfl, fun c hc => ?_⟩)
  simp [isNumeric, h c (List.mem_of_mem_drop hc)]

end IsPlainNumber

/-! The texts of numbers. -/

/-- A text that is a sign, or none, and one word or number. -/
def IsNumber (s : String) : Prop :=
  ∃ (negative : Bool) (cs : List Char),
    s.toList = (if negative then "-" else "").toList ++ cs ∧ IsSingle cs

theorem isDigit_toDigits (n : Nat) : ∀ c ∈ Nat.toDigits 10 n, c.isDigit = true := fun _ hc =>
  Nat.isDigit_of_mem_toDigits (by decide) (by decide) hc

theorem isDigit_toString (n : Nat) : ∀ c ∈ (toString n).toList, c.isDigit = true := by
  rw [Nat.toString_eq_ofList_toDigits, String.toList_ofList]
  exact isDigit_toDigits n

theorem isPlainNumber_toDigits (n : Nat) : IsPlainNumber (Nat.toDigits 10 n) :=
  .of_digits Nat.toDigits_ne_nil (isDigit_toDigits n)

theorem isNumeric_replicate (n : Nat) : ∀ c ∈ List.replicate n '0', isNumeric c = true := by
  intro c hc
  rw [List.eq_of_mem_replicate hc]
  rfl

theorem isNumeric_of_digits (h : ∀ c ∈ cs, c.isDigit = true) : ∀ c ∈ cs, isNumeric c = true := by
  intro c hc
  simp [isNumeric, h c hc]

theorem isNumber_int (i : Int) : IsNumber (toString i) := by
  cases i with
  | ofNat n =>
      refine ⟨false, (toString n).toList, rfl, ?_⟩
      rw [Nat.toString_eq_ofList_toDigits, String.toList_ofList]
      exact (isPlainNumber_toDigits n).isSingle
  | negSucc n =>
      refine ⟨true, (toString (n + 1)).toList, ?_, ?_⟩
      · simp [toString, Int.repr, Nat.succ_eq_add_one]
      · rw [Nat.toString_eq_ofList_toDigits, String.toList_ofList]
        exact (isPlainNumber_toDigits (n + 1)).isSingle

theorem isSingle_pointedDigits {d : PointedDigits} (hne : d.digits ≠ [])
    (h : ∀ c ∈ d.digits, c.isDigit = true) : IsSingle (Binary64.PointedDigits.text d).toList := by
  have hnumeric := isNumeric_of_digits h
  unfold Binary64.PointedDigits.text
  dsimp only
  split
  · rw [String.toList_ofList]
    refine IsPlainNumber.isSingle ?_
    split_ifs with hpoint hsize
    · refine ⟨rfl, ?_⟩
      simp only [List.cons_append, List.forall_mem_cons, List.forall_mem_append]
      exact ⟨rfl, rfl, isNumeric_replicate _, hnumeric⟩
    · have hzeros := (IsPlainNumber.of_digits hne h).append (isNumeric_replicate
        ((d.point - d.digits.length).toNat))
      exact hzeros.append (List.all_eq_true.mp rfl)
    · exact .point hne h (by omega)
  · simp only [String.toList_append, String.toList_ofList, List.append_assoc]
    have hpower : ∀ c ∈ (if (d.point - 1).natAbs < 10 then "0" else "").toList ++
        (toString (d.point - 1).natAbs).toList, c.isDigit = true := by
      rw [List.forall_mem_append]
      refine ⟨?_, isDigit_toString _⟩
      split_ifs <;> exact List.all_eq_true.mp rfl
    refine IsPlainNumber.scientific ?_ (by split_ifs <;> decide) hpower
    cases hd : d.digits with
    | nil => exact absurd hd hne
    | cons first more =>
        rw [hd] at hne h
        cases more with
        | nil => exact .of_digits hne h
        | cons second more => exact .point hne h (n := 1) (by decide)

theorem isNumber_binary64 {x : Binary64} (h : x.IsDouble) : IsNumber x.text := by
  cases x with
  | nan => exact ⟨false, "nan".toList, rfl, isSingle_text (by decide) rfl⟩
  | infinite negative =>
      cases negative
      · exact ⟨false, "inf".toList, rfl, isSingle_text (by decide) rfl⟩
      · exact ⟨true, "inf".toList, rfl, isSingle_text (by decide) rfl⟩
  | finite negative mantissa exponent =>
      obtain ⟨hmantissa, _, hexponent⟩ := h
      simp only [Binary64.text]
      by_cases hzero : (mantissa == 0) = true
      · rw [if_pos hzero]
        refine ⟨negative, "0.0".toList, String.toList_append, ?_⟩
        exact IsPlainNumber.isSingle ⟨rfl, List.all_eq_true.mp rfl⟩
      · rw [if_neg hzero]
        refine ⟨negative, _, String.toList_append, isSingle_pointedDigits ?_ ?_⟩
        · refine Binary64.shortestDigits_ne_nil (Nat.pos_of_ne_zero ?_) hmantissa hexponent
          simpa using hzero
        · exact Binary64.isDigit_shortestDigits mantissa exponent

theorem isNumber_decimal (x : Decimal) : IsNumber x.text := by
  cases x with
  | infinite negative =>
      refine ⟨negative, "Infinity".toList, String.toList_append, ?_⟩
      exact isSingle_text (by decide) rfl
  | notANumber negative signalling payload =>
      refine ⟨negative, (if signalling then "sNaN" else "NaN").toList ++
        (if payload == 0 then "" else toString payload).toList, ?_, isSingle_word ?_ ?_⟩
      · simp [Decimal.text, Decimal.signText]
      · cases signalling <;> simp
      · rw [List.forall_mem_append]
        constructor
        · cases signalling <;> exact List.all_eq_true.mp rfl
        · split_ifs
          · simp
          · exact fun c hc => isWord_of_isDigit (isDigit_toString payload c hc)
  | finite negative coefficient exponent =>
      have hdigits := isDigit_toDigits coefficient
      have hne : Nat.toDigits 10 coefficient ≠ [] := Nat.toDigits_ne_nil
      simp only [Decimal.text, Decimal.signText]
      refine ⟨negative, _, String.toList_append, ?_⟩
      split_ifs with hplaces hpoint hsize
      · have hzero : IsPlainNumber ['0', '.'] := ⟨rfl, List.all_eq_true.mp rfl⟩
        rw [String.toList_append, String.toList_ofList, String.toList_ofList]
        exact (hzero.append (List.forall_mem_append.mpr
          ⟨isNumeric_replicate _, isNumeric_of_digits hdigits⟩)).isSingle
      · rw [String.toList_ofList]
        exact (isPlainNumber_toDigits coefficient).isSingle
      · rw [String.toList_ofList]
        exact (IsPlainNumber.point hne hdigits (by omega)).isSingle
      all_goals
        simp only [String.toList_append, String.toList_ofList, List.append_assoc]
        refine IsPlainNumber.scientific ?_ (by decide) (isDigit_toString _)
        cases hd : Nat.toDigits 10 coefficient with
        | nil => exact absurd hd hne
        | cons first more =>
            rw [hd] at hne hdigits
            cases more with
            | nil => exact .of_digits hne hdigits
            | cons second more => exact .point hne hdigits (n := 1) (by decide)

/-! Strings where a backslash escapes. -/

/-- A stretch of a quoted text that does not end in the middle of an escape. -/
def Finished (read : List Char) : Prop :=
  ∀ more, decoded true '\'' (read ++ more) = decoded true '\'' read ++ decoded true '\'' more

theorem Finished.nil : Finished [] := fun _ => rfl

theorem Finished.concat {read : List Char} (h : Finished read) {c : Char} (hc : c ≠ '\\') :
    Finished (read ++ [c]) ∧ decoded true '\'' (read ++ [c]) = decoded true '\'' read ++ [c] := by
  have hcons : ∀ more, decoded true '\'' (c :: more) = c :: decoded true '\'' more :=
    decoded_cons (by simpa using hc)
  have hread : decoded true '\'' (read ++ [c]) = decoded true '\'' read ++ [c] := h [c]
  refine ⟨fun more => ?_, hread⟩
  rw [hread, List.append_assoc, h, List.singleton_append, hcons]
  simp

theorem Finished.escape {read : List Char} (h : Finished read) :
    Finished (read ++ ['\\', '\\']) ∧
      decoded true '\'' (read ++ ['\\', '\\']) = decoded true '\'' read ++ ['\\'] := by
  have hcons : ∀ more, decoded true '\'' ('\\' :: '\\' :: more) =
      '\\' :: decoded true '\'' more := by
    intro more
    simp [decoded, unescaped]
  have hread : decoded true '\'' (read ++ ['\\', '\\']) = decoded true '\'' read ++ ['\\'] := by
    rw [h, hcons]
    rfl
  refine ⟨fun more => ?_, hread⟩
  rw [hread, List.append_assoc, h, List.cons_append, List.cons_append, List.nil_append, hcons]
  simp

/-- A quoted text is added to what is pending, after `before`. -/
def Joins (p : Pending) (before : List Char) : Prop :=
  ∀ body, readLexeme true p (.quoted ('\'' :: body ++ ['\''])) =
    ([], .quoted '\'' (before ++ decoded true '\'' body))

theorem Joins.none : Joins .none [] := by
  intro body
  simp [readLexeme, readQuoted, Pending.tokens]

/-- The quote between two quoted texts that touch stands for itself. -/
theorem Joins.quoted (content : List Char) : Joins (.quoted '\'' content) (content ++ ['\'']) := by
  intro body
  simp [readLexeme, readQuoted]

/-- The rest of a string literal, from any place in it, adds the rest of the string. -/
theorem readThrough_literalContent (cs read before : List Char) (p : Pending)
    (hread : Finished read) (hp : Joins p before) :
    readThrough true p (lexFrom true (.quoted '\'' ('\'' :: read))
        (doubled '\'' (doubled '\\' cs) ++ ['\''])) =
      ([], .quoted '\'' (before ++ decoded true '\'' read ++ cs)) := by
  have hclose : ∀ read rest, lexFrom true (.quoted '\'' ('\'' :: read)) ('\'' :: rest) =
      .quoted ('\'' :: read ++ ['\'']) :: lex true rest := by
    intro read rest
    simp [lexFrom, step, quotedStep, lex]
  induction cs generalizing read before p with
  | nil =>
      have hnil : doubled '\'' (doubled '\\' []) ++ ['\''] = ['\''] := rfl
      rw [hnil, hclose, lex_nil, readThrough, hp]
      simp [readThrough]
  | cons c more ih =>
      by_cases hbackslash : c = '\\'
      · subst hbackslash
        obtain ⟨hfinished, hdecoded⟩ := hread.escape
        have hpair : lexFrom true (.quoted '\'' ('\'' :: read))
            ('\\' :: '\\' :: (doubled '\'' (doubled '\\' more) ++ ['\''])) =
            lexFrom true (.quoted '\'' ('\'' :: (read ++ ['\\', '\\'])))
              (doubled '\'' (doubled '\\' more) ++ ['\'']) := by
          simp [lexFrom, step, quotedStep]
        rw [doubled_cons_self, doubled_cons_of_ne (by decide), doubled_cons_of_ne (by decide),
          List.cons_append, List.cons_append, hpair, ih _ _ p hfinished hp, hdecoded]
        simp
      · rw [doubled_cons_of_ne hbackslash]
        by_cases hquote : c = '\''
        · -- the first of the two quotes ends a quoted text, the second opens the next
          subst hquote
          rw [doubled_cons_self, List.cons_append, List.cons_append, hclose, readThrough, hp,
            lex_quote (.inr rfl), ih [] _ _ .nil (.quoted _)]
          simp [decoded]
        · obtain ⟨hfinished, hdecoded⟩ := hread.concat hbackslash
          have hinside : step true (.quoted '\'' ('\'' :: read)) c =
              ([], .quoted '\'' ('\'' :: (read ++ [c]))) := by
            simp [step, quotedStep, hbackslash, hquote]
          rw [doubled_cons_of_ne hquote, List.cons_append, lexFrom_of_step hinside,
            ih _ _ p hfinished hp, hdecoded]
          simp

end SqlToken

/-! Literals. -/

open SqlToken

/-- The digits of an octet string. -/
def Value.octetDigits (octets : List UInt8) : List Char :=
  (String.join (octets.map fun o => Text.hexadecimal 2 o.toNat)).toList

/-- The tokens of the literal of a value: one word, number, octet string or string, which a number
may have its sign before. -/
def Value.literalTokens : Value → List SqlToken
  | .null => [.bare "NULL".toList]
  | .bool b => [.bare (if b then "1" else "0").toList]
  | .int i => signed (toString i).toList
  | .float x => signed x.text.toList
  | .decimal x => signed x.text.toList
  | .bytes octets => [.octetString (octetDigits octets)]
  | v => [.string v.plain.toList]

variable {backslash : Bool}

theorem SqlToken.IsNumber.readFrom {s : String} (h : IsNumber s) (hcode : isCode s.toList = true) :
    SqlToken.readFrom backslash .none ((Piece.literal s).lexemes backslash) = signed s.toList := by
  obtain ⟨negative, cs, hs, hsingle⟩ := h
  rw [Piece.lexemes, lex_code hcode, hs]
  exact readFrom_signed hsingle negative

theorem SqlToken.readFrom_word {s : String} (h : IsSingle s.toList)
    (hcode : isCode s.toList = true) :
    SqlToken.readFrom backslash .none ((Piece.literal s).lexemes backslash) = [.bare s.toList] := by
  obtain ⟨c, rest, hs, hc, hrest⟩ := h
  have hopening : opening c = ([], .bare [c]) := by simp [opening, hc]
  rw [Piece.lexemes, lex_code hcode, hs]
  simp [readFrom_eq, readThrough, readLexeme, readChar, hopening,
    @readThrough_runsOn backslash _ _ hrest, Pending.tokens]

/-- A string literal is read as one text, which may go on. -/
theorem SqlToken.readThrough_stringLiteral (d : Dialect) (s : String) :
    SqlToken.readThrough d.backslashEscapes .none
      (lex d.backslashEscapes (d.stringLiteral s).toList) = ([], .quoted '\'' s.toList) := by
  have htext : (d.stringLiteral s).toList = '\'' :: (d.literalContent s ++ ['\'']) := by
    simp [Dialect.stringLiteral]
  rw [htext]
  cases hd : d.backslashEscapes with
  | false =>
      have hlex := @lex_doubled_append '\'' (.inr rfl) s.toList [] (by simp)
      rw [List.append_nil, lex_nil] at hlex
      have hcontent : d.literalContent s = doubled '\'' s.toList := by
        simp [Dialect.literalContent, hd]
      rw [hcontent, ← List.cons_append, hlex]
      simp [readThrough, readLexeme, readQuoted, decoded_doubled, Pending.tokens]
  | true =>
      have hcontent : d.literalContent s = doubled '\'' (doubled '\\' s.toList) := by
        simp [Dialect.literalContent, hd]
      rw [hcontent, lex_quote (.inr rfl), readThrough_literalContent s.toList [] [] .none .nil .none]
      rfl

theorem SqlToken.readFrom_stringLiteral (d : Dialect) (s : String) :
    SqlToken.readFrom d.backslashEscapes .none
      ((Piece.literal (d.stringLiteral s)).lexemes d.backslashEscapes) = [.string s.toList] := by
  rw [Piece.lexemes, readFrom_eq, readThrough_stringLiteral]
  rfl

theorem SqlToken.readFrom_octets (backslash : Bool) (octets : List UInt8) :
    SqlToken.readFrom backslash .none
        (Piece.literal ("X'" ++ String.join (octets.map fun o => Text.hexadecimal 2 o.toNat) ++
          "'") |>.lexemes backslash) = [.octetString (Value.octetDigits octets)] := by
  have hinert := inert_hexadecimal octets
  unfold Value.octetDigits
  generalize String.join (octets.map fun o => Text.hexadecimal 2 o.toNat) = digits at hinert ⊢
  have htext : ("X'" ++ digits ++ "'").toList = 'X' :: ('\'' :: digits.toList ++ ['\'']) := by
    simp
  have hlex : lex backslash ('\'' :: digits.toList ++ ['\'']) =
      [.quoted ('\'' :: digits.toList ++ ['\''])] := by
    have happend := @lex_inert_append backslash _ (.inr rfl) _ hinert [] nofun
    rwa [List.append_nil, lex_nil] at happend
  have hopening : opening 'X' = ([], .bare ['X']) := by decide
  rw [Piece.lexemes, htext, lex_plain rfl, hlex]
  simp [SqlToken.readFrom, readLexeme, readChar, hopening, readQuoted, decoded_inert hinert,
    Pending.tokens]

/-- The literal of a value is read as that value. -/
theorem Dialect.readFrom_literal (d : Dialect) {v : Value} (hv : ∀ x, v = .float x → x.IsDouble) :
    SqlToken.readFrom d.backslashEscapes .none
      ((Piece.literal (d.literalText v)).lexemes d.backslashEscapes) = v.literalTokens := by
  cases v with
  | null => exact SqlToken.readFrom_word (s := "NULL") (isSingle_text (by decide) rfl) rfl
  | bool b =>
      cases b
      · exact SqlToken.readFrom_word (s := "0") (isSingle_text (by decide) rfl) rfl
      · exact SqlToken.readFrom_word (s := "1") (isSingle_text (by decide) rfl) rfl
  | int i => exact (isNumber_int i).readFrom (isCode_int i)
  | float x => exact (isNumber_binary64 (hv x rfl)).readFrom (isCode_binary64 x)
  | decimal x => exact (isNumber_decimal x).readFrom (isCode_decimal x)
  | bytes octets => exact SqlToken.readFrom_octets _ octets
  | _ => exact SqlToken.readFrom_stringLiteral d _

end QueryLoom
