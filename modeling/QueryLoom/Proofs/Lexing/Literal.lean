import QueryLoom.Proofs.Lexing.Row
import QueryLoom.Proofs.Numbers.Digits
import QueryLoom.Sql.Dialect

/-!
Literals in rows. The text of a number is code: the only characters in it that are not plain are
dashes, and a digit or a letter follows each of them. A string literal is read as texts between
quotes and nothing else, whatever it holds; where a backslash escapes, each quote inside it ends one
text and opens the next.
-/

namespace QueryLoom

open Lexer Text

/-! Numbers. -/

/-- The characters of numbers, signs apart. -/
def isFigure (c : Char) : Bool := c.isAlphanum || c == '.'

/-- Code that begins with a figure. -/
def Numeral (cs : List Char) : Prop := isCode cs = true ∧ ∃ c more, cs = c :: more ∧ isFigure c = true

theorem isPlain_of_isFigure {c : Char} (h : isFigure c = true) : isPlain c = true ∧ c ≠ '*' := by
  have hne : ∀ d : Char, isFigure d = false → c ≠ d := by
    rintro d hd rfl
    rw [h] at hd
    cases hd
  simp [isPlain, hne '"' (by decide), hne '\'' (by decide), hne '`' (by decide),
    hne '-' (by decide), hne '/' (by decide), hne ':' (by decide), hne '*' (by decide)]

theorem isCode_of_figures {cs : List Char} (h : ∀ c ∈ cs, isFigure c = true) : isCode cs = true :=
  isCode_of_forall fun c hc => (isPlain_of_isFigure (h c hc)).1

theorem numeral_of_figures {cs : List Char} (h : ∀ c ∈ cs, isFigure c = true) (hne : cs ≠ []) :
    Numeral cs := by
  obtain ⟨c, more, rfl⟩ := List.exists_cons_of_ne_nil hne
  exact ⟨isCode_of_figures h, c, more, rfl, h c (by simp)⟩

theorem Numeral.append {cs rest : List Char} (hcs : Numeral cs) (hrest : isCode rest = true) :
    Numeral (cs ++ rest) := by
  obtain ⟨hcode, c, more, rfl, hc⟩ := hcs
  exact ⟨isCode_append hcode hrest, c, more ++ rest, rfl, hc⟩

/-- A dash before a figure is code. -/
theorem Numeral.dash {cs : List Char} (h : Numeral cs) : isCode ('-' :: cs) = true := by
  obtain ⟨hcode, c, more, rfl, hc⟩ := h
  obtain ⟨hplain, hstar⟩ := isPlain_of_isFigure hc
  simp [isCode, hplain, hstar, hcode]

theorem Numeral.signed {cs : List Char} (h : Numeral cs) (negative : Bool) :
    isCode ((if negative then "-" else "").toList ++ cs) = true := by
  cases negative with
  | false => exact h.1
  | true => exact h.dash

theorem isFigure_of_isDigit {c : Char} (h : c.isDigit = true) : isFigure c = true := by
  simp [isFigure, Char.isAlphanum, h]

theorem isFigure_toDigits {n : Nat} : ∀ c ∈ Nat.toDigits 10 n, isFigure c = true := fun _ hc =>
  isFigure_of_isDigit (Nat.isDigit_of_mem_toDigits (by decide) (by decide) hc)

theorem numeral_toDigits (n : Nat) : Numeral (Nat.toDigits 10 n) :=
  numeral_of_figures isFigure_toDigits Nat.toDigits_ne_nil

theorem numeral_nat (n : Nat) : Numeral (toString n).toList := by
  rw [Nat.toString_eq_ofList_toDigits, String.toList_ofList]
  exact numeral_toDigits n

theorem isCode_int (i : Int) : isCode (toString i).toList = true := by
  cases i with
  | ofNat n => exact (numeral_nat n).1
  | negSucc n =>
      have htext : (toString (Int.negSucc n)).toList = '-' :: (toString (n + 1)).toList := by
        simp [toString, Int.repr, Nat.succ_eq_add_one]
      rw [htext]
      exact (numeral_nat (n + 1)).dash

theorem isFigure_replicate_zero {n : Nat} : ∀ c ∈ List.replicate n '0', isFigure c = true := by
  intro c hc
  rw [List.eq_of_mem_replicate hc]
  rfl

theorem numeral_figures_append {cs rest : List Char} (hcs : ∀ c ∈ cs, isFigure c = true)
    (hrest : Numeral rest) : Numeral (cs ++ rest) := by
  cases cs with
  | nil => exact hrest
  | cons c more => exact (numeral_of_figures hcs (by simp)).append hrest.1

/-- An exponent: a letter, a sign and digits. -/
theorem numeral_exponent {sign : String}
    (hsign : sign = "E-" ∨ sign = "E+" ∨ sign = "e-" ∨ sign = "e+") {cs : List Char}
    (h : Numeral cs) : Numeral (sign.toList ++ cs) := by
  have hletter : ∀ c, isFigure c = true → Numeral [c] := fun c hc =>
    numeral_of_figures (by simpa using hc) (by simp)
  have hdash : ∀ c, isFigure c = true → Numeral (c :: '-' :: cs) := fun c hc =>
    (hletter c hc).append h.dash
  have hplus : ∀ c, isFigure c = true → Numeral (c :: '+' :: cs) := by
    intro c hc
    have hsign : isCode ['+'] = true := rfl
    exact (hletter c hc).append (isCode_append hsign h.1)
  rcases hsign with rfl | rfl | rfl | rfl
  · exact hdash 'E' rfl
  · exact hplus 'E' rfl
  · exact hdash 'e' rfl
  · exact hplus 'e' rfl

/-- A point among figures. -/
theorem isFigure_point {cs : List Char} (h : ∀ c ∈ cs, isFigure c = true) (n : Nat) :
    ∀ c ∈ cs.take n ++ '.' :: cs.drop n, isFigure c = true := by
  simp only [List.mem_append, List.mem_cons]
  rintro c (hc | rfl | hc)
  · exact h c (List.mem_of_mem_take hc)
  · rfl
  · exact h c (List.mem_of_mem_drop hc)

/-- The digits that a floating point number is written with. -/
theorem isFigure_shortestDigits (mantissa : Nat) (exponent : Int) :
    ∀ c ∈ (Binary64.shortestDigits mantissa exponent).digits, isFigure c = true := fun c hc =>
  isFigure_of_isDigit (Binary64.isDigit_shortestDigits mantissa exponent c hc)

theorem numeral_pointedDigits {d : PointedDigits} (h : ∀ c ∈ d.digits, isFigure c = true) :
    Numeral (Binary64.PointedDigits.text d).toList := by
  unfold Binary64.PointedDigits.text
  dsimp only
  split
  · rw [String.toList_ofList]
    apply numeral_of_figures
    · split_ifs with hpoint hsize
      · simp only [List.cons_append, List.mem_cons, List.mem_append]
        rintro c (rfl | rfl | hc | hc)
        · rfl
        · rfl
        · exact isFigure_replicate_zero c hc
        · exact h c hc
      · simp only [List.mem_append, List.mem_cons, List.not_mem_nil, or_false]
        rintro c ((hc | hc) | rfl | rfl)
        · exact h c hc
        · exact isFigure_replicate_zero c hc
        · rfl
        · rfl
      · exact isFigure_point h _
    · split_ifs <;> simp
  · have hpower : Numeral ((if (d.point - 1).natAbs < 10 then "0" else "").toList ++
        (toString (d.point - 1).natAbs).toList) := by
      split_ifs
      · exact numeral_figures_append (by simp [isFigure]) (numeral_nat _)
      · exact numeral_nat _
    have hsign : ∀ b : Prop, [Decidable b] → (if b then "e-" else "e+") = "E-" ∨
        (if b then "e-" else "e+") = "E+" ∨ (if b then "e-" else "e+") = "e-" ∨
        (if b then "e-" else "e+") = "e+" := by
      intro b _
      split_ifs <;> simp
    simp only [String.toList_append, String.toList_ofList, List.append_assoc]
    refine numeral_figures_append ?_ (numeral_exponent (hsign _) hpower)
    cases hdigits : d.digits with
    | nil => simp
    | cons first more =>
        rw [hdigits] at h
        cases more with
        | nil => exact h
        | cons second more => exact isFigure_point h 1

theorem isCode_binary64 (x : Binary64) : isCode x.text.toList = true := by
  cases x with
  | nan => rfl
  | infinite negative => cases negative <;> rfl
  | finite negative mantissa exponent =>
      simp only [Binary64.text]
      split
      · rw [String.toList_append]
        exact (numeral_of_figures (by simp [isFigure]) (by simp)).signed negative
      · rw [String.toList_append]
        exact (numeral_pointedDigits (isFigure_shortestDigits mantissa exponent)).signed negative

theorem isCode_decimal (x : Decimal) : isCode x.text.toList = true := by
  cases x with
  | infinite negative => cases negative <;> rfl
  | notANumber negative signalling payload =>
      have hpayload : ∀ c ∈ (if payload == 0 then "" else toString payload).toList,
          isFigure c = true := by
        split_ifs
        · simp
        · rw [Nat.toString_eq_ofList_toDigits, String.toList_ofList]
          exact isFigure_toDigits
      simp only [Decimal.text, Decimal.signText, String.append_assoc]
      rw [String.toList_append, String.toList_append]
      refine Numeral.signed (Numeral.append ?_ (isCode_of_figures hpayload)) negative
      cases signalling <;> exact numeral_of_figures (by simp [isFigure]) (by simp)
  | finite negative coefficient exponent =>
      simp only [Decimal.text, Decimal.signText]
      rw [String.toList_append]
      refine Numeral.signed ?_ negative
      split_ifs
      · -- zeros stand between the point and the digits
        rw [String.toList_append]
        refine numeral_figures_append (by simp [isFigure]) ?_
        rw [String.toList_ofList]
        exact numeral_figures_append isFigure_replicate_zero (numeral_toDigits coefficient)
      · rw [String.toList_ofList]
        exact numeral_toDigits coefficient
      · rw [String.toList_ofList]
        exact numeral_of_figures (isFigure_point isFigure_toDigits _) (by simp)
      all_goals
        simp only [String.toList_append, String.toList_ofList, List.append_assoc]
        refine numeral_figures_append ?_ (numeral_exponent (by simp) (numeral_nat _))
        have hfigures : ∀ c ∈ Nat.toDigits 10 coefficient, isFigure c = true := isFigure_toDigits
        cases hdigits : Nat.toDigits 10 coefficient with
        | nil => simp
        | cons first more =>
            rw [hdigits] at hfigures
            cases more with
            | nil => exact hfigures
            | cons second more => exact isFigure_point hfigures 1

/-! String literals where a backslash escapes. -/

/-- A stretch of a quoted text at whose end no escape is pending. -/
def Settled (read : List Char) : Prop :=
  ∀ more, '\n' ∈ escapedChars (read ++ more) → '\n' ∈ escapedChars more

theorem Settled.of_ne {c : Char} (hc : c ≠ '\\') : Settled [c] := by
  intro more h
  rwa [List.singleton_append, escapedChars_of_ne hc] at h

theorem Settled.backslashes : Settled ['\\', '\\'] := by
  intro more h
  simpa [escapedChars] using h

theorem Settled.append {read next : List Char} (hread : Settled read) (hnext : Settled next) :
    Settled (read ++ next) := by
  intro more h
  rw [List.append_assoc] at h
  exact hnext more (hread _ h)

theorem Settled.not_mem {read : List Char} (h : Settled read) : '\n' ∉ escapedChars read := by
  intro hmem
  have hnil := h [] (by simpa using hmem)
  simp [escapedChars] at hnil

/-- The rest of a string literal, from any place in it. A doubled quote ends one quoted text and
opens the next. -/
theorem lexFrom_literalContent (cs read : List Char) (hread : Settled read) :
    ∃ ls : List Lexeme,
      (∀ rest, lexFrom true (.quoted '\'' read)
        (doubled '\'' (doubled '\\' cs) ++ '\'' :: rest) = ls ++ lex true rest) ∧
      ∀ l ∈ ls, ∃ text, l = .quoted text ∧ '\n' ∉ escapedChars text := by
  have hclose : ∀ read, Settled read →
      (∀ rest, lexFrom true (.quoted '\'' read) ('\'' :: rest) =
        .quoted (read ++ ['\'']) :: lex true rest) ∧ '\n' ∉ escapedChars (read ++ ['\'']) := by
    intro read hread
    constructor
    · intro rest
      simp [lexFrom, step, quotedStep, lex]
    · exact (hread.append (.of_ne (by decide))).not_mem
  induction cs generalizing read with
  | nil =>
      obtain ⟨hlex, hline⟩ := hclose read hread
      refine ⟨[.quoted (read ++ ['\''])], hlex, ?_⟩
      simpa using hline
  | cons c more ih =>
      by_cases hbackslash : c = '\\'
      · subst hbackslash
        obtain ⟨ls, hlex, hls⟩ := ih _ (hread.append .backslashes)
        refine ⟨ls, ?_, hls⟩
        intro rest
        have hpair : lexFrom true (.quoted '\'' read)
            ('\\' :: '\\' :: (doubled '\'' (doubled '\\' more) ++ '\'' :: rest)) =
            lexFrom true (.quoted '\'' (read ++ ['\\', '\\']))
              (doubled '\'' (doubled '\\' more) ++ '\'' :: rest) := by
          simp [lexFrom, step, quotedStep]
        rw [doubled_cons_self, doubled_cons_of_ne (by decide), doubled_cons_of_ne (by decide),
          List.cons_append, List.cons_append, hpair, hlex]
      · rw [doubled_cons_of_ne hbackslash]
        by_cases hquote : c = '\''
        · subst hquote
          obtain ⟨ls, hlex, hls⟩ := ih ['\''] (.of_ne (by decide))
          obtain ⟨hend, hline⟩ := hclose read hread
          refine ⟨.quoted (read ++ ['\'']) :: ls, ?_, ?_⟩
          · intro rest
            rw [doubled_cons_self, List.cons_append, List.cons_append, hend,
              lex_quote (.inr rfl), hlex]
            rfl
          · simp only [List.mem_cons]
            rintro l (rfl | hl)
            · exact ⟨_, rfl, hline⟩
            · exact hls l hl
        · obtain ⟨ls, hlex, hls⟩ := ih _ (hread.append (.of_ne hbackslash))
          refine ⟨ls, ?_, hls⟩
          intro rest
          have hinside : step true (.quoted '\'' read) c = ([], .quoted '\'' (read ++ [c])) := by
            simp [step, quotedStep, hbackslash, hquote]
          rw [doubled_cons_of_ne hquote, List.cons_append, lexFrom_of_step hinside, hlex]

/-! Literals. -/

/-- A literal is whole if it is read in one way and holds no token. -/
theorem Piece.whole_literal_of_lex {backslash : Bool} {s : String} (ls : List Lexeme)
    (happend : ∀ rest, Separated rest →
      lex backslash (s.toList ++ rest) = ls ++ lex backslash rest)
    (hls : ∀ l ∈ ls, (∀ name, l ≠ .token name) ∧ l.Sound backslash) :
    (Piece.literal s).Whole backslash := by
  have hlex : (Piece.literal s).lexemes backslash = ls := by
    have hnil := happend [] Separated.nil
    simpa [Piece.lexemes, lex_nil] using hnil
  refine ⟨?_, ?_, ?_⟩
  · rw [hlex]
    exact happend
  · rw [hlex]
    exact fun l hl => (hls l hl).2
  · rw [hlex, tokenNames]
    apply List.filterMap_eq_nil_iff.mpr
    intro l hl
    have htoken := (hls l hl).1
    cases l with
    | token name => exact absurd rfl (htoken name)
    | _ => rfl

theorem Piece.whole_literal_code {backslash : Bool} {s : String} (h : isCode s.toList = true) :
    (Piece.literal s).Whole backslash :=
  Piece.whole_code (p := .literal s) h (lex_code h) rfl

/-- A string literal is read as texts between quotes, before everything that does not begin with a
quote. -/
theorem Dialect.lex_stringLiteral (d : Dialect) (s : String) :
    ∃ ls : List Lexeme,
      (∀ rest : List Char, rest.head? ≠ some '\'' →
        lex d.backslashEscapes ((d.stringLiteral s).toList ++ rest) =
          ls ++ lex d.backslashEscapes rest) ∧
      ∀ l ∈ ls, ∃ text, l = .quoted text ∧ (d.backslashEscapes = true → '\n' ∉ escapedChars text) := by
  have htext : ∀ rest, (d.stringLiteral s).toList ++ rest =
      '\'' :: d.literalContent s ++ ['\''] ++ rest := by
    intro rest
    simp [Dialect.stringLiteral]
  cases hd : d.backslashEscapes with
  | false =>
      refine ⟨[.quoted ('\'' :: d.literalContent s ++ ['\''])], ?_, by simp⟩
      intro rest hrest
      rw [htext]
      simpa [Dialect.literalContent, hd] using lex_doubled_append (.inr rfl) s.toList hrest
  | true =>
      obtain ⟨ls, hlex, hls⟩ := lexFrom_literalContent s.toList ['\''] (.of_ne (by decide))
      refine ⟨ls, ?_, fun l hl => ?_⟩
      · intro rest _
        rw [htext, List.cons_append, List.cons_append, lex_quote (.inr rfl)]
        simpa [Dialect.literalContent, hd] using hlex rest
      · obtain ⟨text, rfl, hline⟩ := hls l hl
        exact ⟨text, rfl, fun _ => hline⟩

theorem Piece.whole_stringLiteral (d : Dialect) (s : String) :
    (Piece.literal (d.stringLiteral s)).Whole d.backslashEscapes := by
  obtain ⟨ls, hlex, hls⟩ := d.lex_stringLiteral s
  refine Piece.whole_literal_of_lex ls (fun rest hrest => hlex rest (hrest.head?_ne (.inr rfl))) ?_
  intro l hl
  obtain ⟨text, rfl, hline⟩ := hls l hl
  exact ⟨by simp, rfl, fun hd => by simpa [Lexeme.escapesLineFeed] using hline hd⟩

theorem isAlphanum_toDigits_sixteen (n : Nat) :
    ∀ c ∈ Nat.toDigits 16 n, c.isAlphanum = true := by
  have hdigit : ∀ m < 16, (Nat.digitChar m).isAlphanum = true := by decide
  induction n using Nat.strongRecOn with
  | ind n ih =>
      rw [Nat.toDigits_eq_if (by decide)]
      split_ifs with hn
      · simpa using hdigit n hn
      · simp only [List.mem_append, List.mem_singleton]
        rintro c (hc | rfl)
        · exact ih (n / 16) (by omega) c hc
        · exact hdigit _ (Nat.mod_lt n (by decide))

theorem inert_hexadecimal (octets : List UInt8) :
    Inert '\'' (String.join (octets.map fun o => Text.hexadecimal 2 o.toNat)).toList := by
  induction octets with
  | nil => simp [Inert]
  | cons o more ih =>
      have hne : ∀ c : Char, c.isAlphanum = true → c ≠ '\'' ∧ c ≠ '\\' := by
        intro c hc
        constructor <;> rintro rfl <;> exact absurd hc (by decide)
      intro c hc
      rw [List.map_cons, String.join_cons, String.toList_append, List.mem_append] at hc
      rcases hc with hc | hc
      · simp only [Text.hexadecimal, String.toList_ofList, List.mem_append] at hc
        rcases hc with hc | hc
        · rw [List.eq_of_mem_replicate hc]
          decide
        · exact hne c (isAlphanum_toDigits_sixteen _ c hc)
      · exact ih c hc

/-- Every value that is written as a literal is read as a whole. -/
theorem Piece.whole_literal (d : Dialect) (v : Value) :
    (Piece.literal (d.literalText v)).Whole d.backslashEscapes := by
  cases v with
  | null => exact Piece.whole_literal_code (s := "NULL") rfl
  | bool b =>
      cases b with
      | false => exact Piece.whole_literal_code (s := "0") rfl
      | true => exact Piece.whole_literal_code (s := "1") rfl
  | int i => exact Piece.whole_literal_code (isCode_int i)
  | float x => exact Piece.whole_literal_code (isCode_binary64 x)
  | decimal x => exact Piece.whole_literal_code (isCode_decimal x)
  | bytes octets =>
      have hinert := inert_hexadecimal octets
      simp only [Dialect.literalText]
      generalize String.join (octets.map fun o => Text.hexadecimal 2 o.toNat) = digits at hinert ⊢
      apply Piece.whole_literal_of_lex [.code 'X', .quoted ('\'' :: digits.toList ++ ['\''])]
      · intro rest hrest
        have hquoted : lex d.backslashEscapes ('\'' :: digits.toList ++ ['\''] ++ rest) =
            .quoted ('\'' :: digits.toList ++ ['\'']) :: lex d.backslashEscapes rest :=
          lex_inert_append (.inr rfl) hinert (hrest.head?_ne (.inr rfl))
        have htext : ("X'" ++ digits ++ "'").toList ++ rest =
            'X' :: ('\'' :: digits.toList ++ ['\''] ++ rest) := by
          simp
        rw [htext, lex_plain rfl, hquoted]
        rfl
      · have hescaped : escapedChars ('\'' :: digits.toList ++ ['\'']) = [] := by
          apply escapedChars_of_forall_ne
          simp only [List.cons_append, List.mem_cons, List.mem_append, List.not_mem_nil, or_false]
          rintro c (rfl | hc | rfl)
          · decide
          · exact (hinert c hc).2
          · decide
        rw [List.forall_mem_cons, List.forall_mem_singleton]
        refine ⟨⟨by simp, rfl, fun _ => rfl⟩, by simp, rfl, ?_⟩
        intro _
        rw [Lexeme.escapesLineFeed, hescaped]
        rfl
  | _ => exact Piece.whole_stringLiteral d _

end QueryLoom
