import QueryLoom.Key.Scan
import QueryLoom.Proofs.Lexing.Stretch
import QueryLoom.Proofs.Lexing.Substitution

/-!
Lexing rows of pieces. A row is aligned if its texts are code and each name, placeholder and literal
is followed by a separator or by nothing. The lexemes of such a row are those of its pieces, one
after the other: nothing that is quoted reaches beyond its own piece, and the tokens of the text are
the placeholders of the row, in order.
-/

namespace QueryLoom

open Lexer

/-- What a piece is read as when its text stands alone. -/
def Piece.lexemes (backslash : Bool) : Piece → List Lexeme
  | .text s => s.toList.map .code
  | .name s => [.quoted (quotedIdentifier s).toList]
  | .param p => [.token p.toList]
  | .literal s | .fragment s => lex backslash s.toList

/-- What the pieces of a row are read as, each for itself. -/
def Sql.lexemes (backslash : Bool) (sql : Sql) : List Lexeme :=
  sql.flatMap (Piece.lexemes backslash)

/-- The names of the tokens among lexemes. -/
def Lexer.tokenNames (ls : List Lexeme) : List String :=
  ls.filterMap fun
    | .token name => some (String.ofList name)
    | _ => none

/-- A lexeme that the scanner reads as the lexer does: closed, and without an escaped line feed. -/
def Lexer.Lexeme.Sound (backslash : Bool) (l : Lexeme) : Prop :=
  l.isUnclosed = false ∧ (backslash = true → l.escapesLineFeed = false)

/-- A piece whose text is read as its lexemes before everything that is separated from it. -/
structure Piece.Whole (backslash : Bool) (p : Piece) : Prop where
  append : ∀ rest, Separated rest →
    lex backslash (p.toText.toList ++ rest) = p.lexemes backslash ++ lex backslash rest
  sound : ∀ l ∈ p.lexemes backslash, l.Sound backslash
  tokens : tokenNames (p.lexemes backslash) = Sql.params [p]

/-- Rows of whole pieces. A text of code may be followed by anything, any other piece by a separator
or by nothing. -/
inductive Aligned (backslash : Bool) : Sql → Prop
  | nil : Aligned backslash []
  | text {s : String} {rest : Sql} : isCode s.toList = true → Aligned backslash rest →
      Aligned backslash (.text s :: rest)
  | whole {p : Piece} {rest : Sql} : p.Whole backslash → Separated (Sql.text rest).toList →
      Aligned backslash rest → Aligned backslash (p :: rest)

variable {backslash : Bool}

theorem Sql.text_cons (p : Piece) (rest : Sql) :
    (Sql.text (p :: rest)).toList = p.toText.toList ++ (Sql.text rest).toList := by
  simp [Sql.text, String.join_cons]

theorem Sql.text_append (first rest : Sql) :
    (Sql.text (first ++ rest)).toList = (Sql.text first).toList ++ (Sql.text rest).toList := by
  simp [Sql.text, String.join_append]

theorem Sql.text_ne_empty {keyword : String} (h : keyword ≠ "") (rest : Sql) :
    Sql.text (.text keyword :: rest) ≠ "" := by
  intro hempty
  have hlist := congrArg String.toList hempty
  rw [Sql.text_cons, Piece.toText] at hlist
  exact h (String.toList_eq_nil_iff.mp (List.append_eq_nil_iff.mp hlist).1)

theorem Sql.text_join_ne_empty {between : String} {rows : List Sql} (hne : rows ≠ [])
    (h : ∀ row ∈ rows, row.text ≠ "") : (Sql.join between rows).text ≠ "" := by
  cases rows with
  | nil => exact absurd rfl hne
  | cons first rest =>
      obtain ⟨hfirst, -⟩ := List.forall_mem_cons.mp h
      cases rest with
      | nil => exact hfirst
      | cons second rest =>
          intro hempty
          have hlist := congrArg String.toList hempty
          rw [Sql.join, Sql.text_append] at hlist
          · exact hfirst (String.toList_eq_nil_iff.mp (List.append_eq_nil_iff.mp hlist).1)
          · simp

theorem Sql.join_concat (between : String) {rows : List Sql} (hne : rows ≠ []) (row : Sql) :
    Sql.join between (rows ++ [row]) = Sql.join between rows ++ .text between :: row := by
  induction rows with
  | nil => exact absurd rfl hne
  | cons first rest ih =>
      cases rest with
      | nil => rfl
      | cons second rest =>
          have hrest := ih (by simp)
          simp only [List.cons_append, Sql.join] at hrest ⊢
          rw [hrest, List.append_assoc, List.cons_append]

@[simp] theorem Sql.params_append (first rest : Sql) :
    Sql.params (first ++ rest) = Sql.params first ++ Sql.params rest := by
  simp [Sql.params]

@[simp] theorem Sql.params_text (s : String) (rest : Sql) :
    Sql.params (.text s :: rest) = Sql.params rest := rfl

@[simp] theorem Sql.params_nil : Sql.params [] = [] := rfl

@[simp] theorem Sql.params_param (name : String) (rest : Sql) :
    Sql.params (.param name :: rest) = name :: Sql.params rest := rfl

@[simp] theorem Sql.params_name (name : String) (rest : Sql) :
    Sql.params (.name name :: rest) = Sql.params rest := rfl

theorem Sql.lexemes_append (first rest : Sql) :
    Sql.lexemes backslash (first ++ rest) =
      Sql.lexemes backslash first ++ Sql.lexemes backslash rest := by
  simp [Sql.lexemes]

/-! What aligned rows are read as. -/

theorem Piece.whole_code {p : Piece} (hcode : isCode p.toText.toList = true)
    (hlexemes : p.lexemes backslash = p.toText.toList.map .code) (hparams : Sql.params [p] = []) :
    p.Whole backslash := by
  refine ⟨?_, ?_, ?_⟩
  · intro rest _
    rw [hlexemes, lex_code_append hcode]
  · intro l hl
    rw [hlexemes, List.mem_map] at hl
    obtain ⟨c, _, rfl⟩ := hl
    exact ⟨rfl, fun _ => rfl⟩
  · rw [hparams, hlexemes]
    simp [tokenNames]

theorem Piece.whole_text {s : String} (h : isCode s.toList = true) :
    (Piece.text s).Whole backslash :=
  Piece.whole_code (p := .text s) h rfl rfl

theorem Aligned.lex_append {sql : Sql} (h : Aligned backslash sql) {rest : List Char}
    (hrest : Separated rest) :
    lex backslash ((Sql.text sql).toList ++ rest) =
      sql.lexemes backslash ++ lex backslash rest := by
  induction h with
  | nil => rfl
  | text hcode _ ih =>
      rw [Sql.text_cons, List.append_assoc, Piece.toText, lex_code_append hcode, ih]
      simp [Sql.lexemes, Piece.lexemes]
  | whole hwhole hseparated _ ih =>
      rw [Sql.text_cons, List.append_assoc, hwhole.append _ (hseparated.append hrest), ih]
      simp [Sql.lexemes]

theorem Aligned.lex {sql : Sql} (h : Aligned backslash sql) :
    lex backslash (Sql.text sql).toList = sql.lexemes backslash := by
  have happend := h.lex_append Separated.nil
  simpa [lex_nil] using happend

theorem Aligned.sound {sql : Sql} (h : Aligned backslash sql) :
    ∀ l ∈ sql.lexemes backslash, l.Sound backslash := by
  induction h with
  | nil => simp [Sql.lexemes]
  | @text s rest hcode _ ih =>
      have hfirst : ∀ l ∈ (Piece.text s).lexemes backslash, l.Sound backslash :=
        (Piece.whole_text hcode).sound
      simp only [Sql.lexemes, List.flatMap_cons, List.mem_append] at ih ⊢
      rintro l (hl | hl)
      · exact hfirst l hl
      · exact ih l hl
  | whole hwhole _ _ ih =>
      simp only [Sql.lexemes, List.flatMap_cons, List.mem_append] at ih ⊢
      rintro l (hl | hl)
      · exact hwhole.sound l hl
      · exact ih l hl

theorem Aligned.tokenNames {sql : Sql} (h : Aligned backslash sql) :
    tokenNames (sql.lexemes backslash) = sql.params := by
  induction h with
  | nil => rfl
  | @text s rest hcode _ ih =>
      have hfirst : Lexer.tokenNames ((Piece.text s).lexemes backslash) = [] :=
        (Piece.whole_text hcode).tokens
      simp only [Sql.lexemes, List.flatMap_cons, Lexer.tokenNames, List.filterMap_append]
        at ih hfirst ⊢
      rw [hfirst, ih]
      rfl
  | @whole p rest hwhole _ _ ih =>
      have hfirst := hwhole.tokens
      simp only [Sql.lexemes, List.flatMap_cons, Lexer.tokenNames, List.filterMap_append]
        at ih hfirst ⊢
      rw [hfirst, ih, ← Sql.params_append]
      rfl

/-- The scanner cuts the text of an aligned row into the lexemes of its pieces. -/
theorem Aligned.spans {sql : Sql} (h : Aligned backslash sql) :
    Placeholder.spans backslash (Sql.text sql).toList =
      (sql.lexemes backslash).map Lexeme.span := by
  have hclosed : Terminated backslash (Sql.text sql).toList := by
    intro l hl
    rw [h.lex] at hl
    exact (h.sound l hl).1
  have hline : NoEscapedLineFeed backslash (Sql.text sql).toList := by
    intro hbackslash l hl
    rw [h.lex] at hl
    exact (h.sound l hl).2 hbackslash
  rw [(spans_eq_lex_iff hclosed).mpr hline, h.lex]

/-- The scanner finds the placeholders of an aligned row, in order. -/
theorem Aligned.names {sql : Sql} (h : Aligned backslash sql) :
    Binding.names backslash sql.text = sql.params := by
  rw [Binding.names, h.spans, List.filterMap_map, ← h.tokenNames, Lexer.tokenNames]
  congr 1
  funext l
  cases l <;> rfl

/-! How aligned rows are built. -/

/-- Whether a text is code that begins with a separator. -/
def isSpacer (s : String) : Bool :=
  match s.toList with
  | c :: cs => isSeparator c && isCode (c :: cs)
  | [] => false

theorem isCode_of_isSpacer {s : String} (h : isSpacer s = true) : isCode s.toList = true := by
  unfold isSpacer at h
  split at h
  · rename_i hs
    rw [hs]
    exact (Bool.and_eq_true_iff.mp h).2
  · cases h

theorem separated_of_isSpacer {s : String} {rest : Sql} (h : isSpacer s = true) :
    Separated (Sql.text (.text s :: rest)).toList := by
  rw [Sql.text_cons, Piece.toText]
  unfold isSpacer at h
  split at h
  · rename_i hs
    rw [hs]
    exact separated_cons.mpr (Bool.and_eq_true_iff.mp h).1
  · cases h

theorem Aligned.append {first rest : Sql} (hfirst : Aligned backslash first)
    (hrest : Aligned backslash rest) (hseparated : Separated (Sql.text rest).toList) :
    Aligned backslash (first ++ rest) := by
  induction hfirst with
  | nil => exact hrest
  | text hcode _ ih => exact .text hcode ih
  | whole hwhole hnext _ ih =>
      have hnext' := hnext.append hseparated
      rw [← Sql.text_append] at hnext'
      exact .whole hwhole hnext' ih

/-- A spacer may stand between any two aligned rows. -/
theorem Aligned.between {first rest : Sql} {s : String} (hfirst : Aligned backslash first)
    (hrest : Aligned backslash rest) (hs : isSpacer s = true) :
    Aligned backslash (first ++ .text s :: rest) :=
  hfirst.append (.text (isCode_of_isSpacer hs) hrest) (separated_of_isSpacer hs)

theorem Piece.Whole.aligned {p : Piece} (h : p.Whole backslash) : Aligned backslash [p] :=
  .whole h Separated.nil .nil

theorem Aligned.join {s : String} {rows : List Sql}
    (hrows : ∀ row ∈ rows, Aligned backslash row) (hs : isSpacer s = true) :
    Aligned backslash (Sql.join s rows) := by
  induction rows with
  | nil => exact .nil
  | cons row more ih =>
      have hrow := hrows row (by simp)
      have hmore := ih (fun other hother => hrows other (by simp [hother]))
      cases more with
      | nil => exact hrow
      | cons next others => exact hrow.between hmore hs

theorem Sql.params_join (between : String) (rows : List Sql) :
    Sql.params (Sql.join between rows) = rows.flatMap Sql.params := by
  induction rows with
  | nil => rfl
  | cons row more ih =>
      cases more with
      | nil => simp [Sql.join]
      | cons next others => simp [Sql.join, ih]

/-! Names and placeholders. -/

theorem inert_of_name {cs : List Char} (h : cs.all Key.isNameChar = true) : Inert '"' cs := by
  intro c hc
  have hname : Key.isNameChar c = true := by
    rw [List.all_eq_true] at h
    exact h c hc
  constructor <;> rintro rfl <;> exact absurd hname (by decide)

/-- A quoted identifier is read as one text, whatever name it holds; where a backslash escapes, the
name has to be of name characters. -/
theorem Piece.whole_name {s : String}
    (h : backslash = true → s.toList.all Key.isNameChar = true) :
    (Piece.name s).Whole backslash := by
  refine ⟨?_, ?_, ?_⟩
  · intro rest hrest
    cases backslash with
    | false =>
        simpa [Piece.toText, Piece.lexemes, quotedIdentifier] using
          lex_doubled_append (.inl rfl) s.toList (hrest.head?_ne (.inl rfl))
    | true =>
        have hinert := inert_of_name (h rfl)
        simpa [Piece.toText, Piece.lexemes, quotedIdentifier,
          doubled_of_forall_ne fun c hc => (hinert c hc).1] using
          lex_inert_append (.inl rfl) hinert (hrest.head?_ne (.inl rfl))
  · intro l hl
    rw [Piece.lexemes, List.mem_singleton] at hl
    subst hl
    refine ⟨rfl, ?_⟩
    intro hbackslash
    have hinert := inert_of_name (h hbackslash)
    have hne : ∀ c ∈ '"' :: s.toList ++ ['"'], c ≠ '\\' := by
      intro c hc
      simp only [List.cons_append, List.mem_cons, List.mem_append, List.not_mem_nil, or_false] at hc
      rcases hc with rfl | hc | rfl
      · decide
      · exact (hinert c hc).2
      · decide
    rw [Lexeme.escapesLineFeed, quotedIdentifier, String.toList_ofList,
      doubled_of_forall_ne fun c hc => (hinert c hc).1, escapedChars_of_forall_ne hne]
    rfl
  · rfl

/-- Whether a text can be the name of a placeholder. -/
def isToken : List Char → Bool
  | [] => false
  | c :: cs => Text.isWordStart c && cs.all Text.isWord

theorem Piece.whole_param {p : String} (h : isToken p.toList = true) :
    (Piece.param p).Whole backslash := by
  obtain ⟨c, cs, hp, hc, hcs⟩ : ∃ c cs, p.toList = c :: cs ∧ Text.isWordStart c = true ∧
      ∀ d ∈ cs, Text.isWord d = true := by
    cases hp : p.toList with
    | nil => simp [hp, isToken] at h
    | cons c cs =>
        rw [hp, isToken, Bool.and_eq_true, List.all_eq_true] at h
        exact ⟨c, cs, rfl, h.1, h.2⟩
  refine ⟨?_, ?_, ?_⟩
  · intro rest hrest
    simpa [Piece.toText, placeholderToken, Piece.lexemes, hp] using lex_token_append hc hcs hrest
  · intro l hl
    rw [Piece.lexemes, List.mem_singleton] at hl
    subst hl
    exact ⟨rfl, fun _ => rfl⟩
  · simp [Piece.lexemes, Lexer.tokenNames, Sql.params]

end QueryLoom
