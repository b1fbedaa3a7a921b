import QueryLoom.Proofs.Grammar.Gaps
import QueryLoom.Proofs.Lexing.LiteralTokens
import QueryLoom.Proofs.Statement.Alignment

/-!
Values written into a statement. Each placeholder gives way to the literal of its value, and since
it stood apart from everything around it, so does the literal: the tokens of the result are those of
the statement, with the literal's own in the place of the placeholder's.
-/

namespace QueryLoom

open Lexer

/-! Rows with values. -/

/-- A piece, or the literal of its value if it is a placeholder that has one. -/
def Piece.filled (d : Dialect) (values : Dict) : Piece → Piece
  | .param p =>
      match Dict.get? values p with
      | some v => .literal (d.literalText v)
      | none => .param p
  | p => p

def Sql.filled (d : Dialect) (values : Dict) (sql : Sql) : Sql := sql.map (Piece.filled d values)

variable {d : Dialect} {values : Dict} {sql : Sql}

theorem Sql.filled_cons (p : Piece) (rest : Sql) :
    Sql.filled d values (p :: rest) = p.filled d values :: Sql.filled d values rest := rfl

/-- Nothing but a separator stands where one stood. -/
theorem Sql.separated_filled (h : Separated sql.text.toList) :
    Separated (sql.filled d values).text.toList := by
  induction sql with
  | nil => exact Separated.nil
  | cons p rest ih =>
      rw [Sql.filled_cons, Sql.text_cons] at *
      cases hp : p.toText.toList with
      | nil =>
          have hfilled : p.filled d values = p := by
            cases p with
            | param name => simp [Piece.toText, placeholderToken] at hp
            | _ => rfl
          rw [hp, List.nil_append] at h
          rw [hfilled, hp, List.nil_append]
          exact ih h
      | cons c more =>
          rw [hp, List.cons_append, separated_cons] at h
          have hfilled : p.filled d values = p := by
            cases p with
            | param name =>
                simp only [Piece.toText, placeholderToken, String.toList_append] at hp
                cases hp
                cases h
            | _ => rfl
          rw [hfilled, hp]
          exact separated_cons.mpr h

theorem Aligned.filled (h : Aligned d.backslashEscapes sql) :
    Aligned d.backslashEscapes (sql.filled d values) := by
  induction h with
  | nil => exact .nil
  | text hcode _ ih => exact .text hcode ih
  | @whole p rest hwhole hseparated _ ih =>
      refine .whole ?_ (Sql.separated_filled hseparated) ih
      cases p with
      | param name =>
          cases hvalue : Dict.get? values name with
          | none => simpa [Piece.filled, hvalue] using hwhole
          | some v => simpa [Piece.filled, hvalue] using Piece.whole_literal d v
      | _ => exact hwhole

theorem Sql.params_filled (h : ∀ p ∈ sql.params, ∃ v, Dict.get? values p = some v) :
    (sql.filled d values).params = [] := by
  induction sql with
  | nil => rfl
  | cons p rest ih =>
      cases p with
      | param name =>
          rw [Sql.params_param, List.forall_mem_cons] at h
          obtain ⟨⟨v, hv⟩, hrest⟩ := h
          simpa [Sql.filled_cons, Piece.filled, hv, Sql.params] using ih hrest
      | _ => exact ih h

/-! The text with its values is the text of the row with its values. -/

/-- What a lexeme is written as when values are written in. -/
def Lexer.Lexeme.written (d : Dialect) (values : Dict) (l : Lexeme) : String :=
  (l.part values).written d.literalText

theorem Lexer.join_written {ls : List Lexeme} (h : tokenNames ls = []) :
    String.join (ls.map (Lexeme.written d values)) = String.ofList (ls.flatMap Lexeme.chars) := by
  induction ls with
  | nil => rfl
  | cons l rest ih =>
      have hrest : tokenNames rest = [] := by
        cases l with
        | token name => cases h
        | _ => exact h
      have hl : l.written d values = String.ofList l.chars := by
        cases l with
        | token name => cases h
        | _ => rfl
      rw [List.map_cons, String.join_cons, hl, ih hrest, List.flatMap_cons, String.ofList_append]

theorem Piece.Whole.chars {backslash : Bool} {p : Piece} (h : p.Whole backslash) :
    (p.lexemes backslash).flatMap Lexeme.chars = p.toText.toList := by
  have hlex := h.append [] Separated.nil
  rw [List.append_nil, lex_nil, List.append_nil] at hlex
  rw [← hlex, chars_lex]

theorem Piece.join_written {p : Piece} (h : p.Whole d.backslashEscapes) :
    String.join ((p.lexemes d.backslashEscapes).map (Lexeme.written d values)) =
      (p.filled d values).toText := by
  have hother : Sql.params [p] = [] →
      String.join ((p.lexemes d.backslashEscapes).map (Lexeme.written d values)) = p.toText := by
    intro hparams
    rw [← h.tokens] at hparams
    rw [Lexer.join_written hparams, h.chars, String.ofList_toList]
  cases p with
  | param name =>
      simp only [Piece.lexemes, List.map_cons, List.map_nil, Lexeme.written, Lexeme.part,
        String.ofList_toList, Piece.filled]
      cases hvalue : Dict.get? values name with
      | none => simp [Binding.Part.written, Piece.toText, placeholderToken, String.join_cons]
      | some v => simp [Binding.Part.written, Piece.toText, String.join_cons]
  | _ => exact hother rfl

theorem Sql.join_written_cons {p : Piece} {rest : Sql} (hp : p.Whole d.backslashEscapes)
    (hrest : String.join ((rest.lexemes d.backslashEscapes).map (Lexeme.written d values)) =
      (rest.filled d values).text) :
    String.join ((Sql.lexemes d.backslashEscapes (p :: rest)).map (Lexeme.written d values)) =
      (Sql.filled d values (p :: rest)).text := by
  have hlexemes : Sql.lexemes d.backslashEscapes (p :: rest) =
      p.lexemes d.backslashEscapes ++ rest.lexemes d.backslashEscapes := rfl
  rw [hlexemes, List.map_append, String.join_append, Piece.join_written hp, hrest, Sql.filled_cons,
    Sql.text, Sql.text, List.map_cons, String.join_cons]

theorem Aligned.join_written (h : Aligned d.backslashEscapes sql) :
    String.join ((sql.lexemes d.backslashEscapes).map (Lexeme.written d values)) =
      (sql.filled d values).text := by
  induction h with
  | nil => rfl
  | text hcode _ ih => exact Sql.join_written_cons (Piece.whole_text hcode) ih
  | whole hwhole _ _ ih => exact Sql.join_written_cons hwhole ih

/-- Writing the values into the text is writing their literals into the row. It succeeds exactly if
each value that is found under a placeholder has a text. -/
theorem Aligned.inline (h : Aligned d.backslashEscapes sql) :
    Binding.inline sql.text values d.literal d.backslashEscapes =
      if (sql.params.filterMap (Dict.get? values)).all Value.hasText then
        .ok (sql.filled d values).text
      else .error .badValue := by
  have hspans : Placeholder.spans d.backslashEscapes sql.text.toList =
      (Lexer.lex d.backslashEscapes sql.text.toList).map Lexeme.span := by
    rw [h.spans, h.lex]
  have hwritten : (sql.lexemes d.backslashEscapes).map
      (Binding.Part.written d.literalText ∘ Lexeme.part values) =
      (sql.lexemes d.backslashEscapes).map (Lexeme.written d values) := rfl
  have hfound : (sql.params.filterMap fun name =>
      (Dict.get? values name).map fun v => (name, v)).all (fun found => found.2.hasText) =
      (sql.params.filterMap (Dict.get? values)).all Value.hasText := by
    rw [List.all_filterMap, List.all_filterMap]
    refine congrArg sql.params.all (funext fun name => ?_)
    cases Dict.get? values name <;> rfl
  rw [Binding.inline_literal, parts_eq values hspans, h.lex, values_map_part,
    Statement.substituted_eq, h.tokenNames, List.map_map, hwritten, h.join_written, hfound]

/-! Tokens. -/

/-- A token, or those of the literal of its value if it is a placeholder that has one. -/
def SqlToken.filled (values : Dict) : SqlToken → List SqlToken
  | .placeholder key =>
      match Dict.get? values (String.ofList key) with
      | some v => v.literalTokens
      | none => [.placeholder key]
  | t => [t]

namespace SqlToken

theorem flatMap_filled {ts : List SqlToken} (h : placeholders ts = []) :
    ts.flatMap (filled values) = ts := by
  induction ts with
  | nil => rfl
  | cons t rest ih =>
      have ht : filled values t = [t] ∧ placeholders rest = [] := by
        cases t with
        | placeholder name => cases h
        | _ => exact ⟨rfl, h⟩
      rw [List.flatMap_cons, ht.1, ih ht.2]
      rfl

/-- Writing the values into a row that is read on from what is pending changes its tokens in the
places of the placeholders only. -/
def Keeps (d : Dialect) (values : Dict) (pending : Pending) (sql : Sql) : Prop :=
  readFrom d.backslashEscapes pending (Sql.lexemes d.backslashEscapes (sql.filled d values)) =
    (readFrom d.backslashEscapes pending (Sql.lexemes d.backslashEscapes sql)).flatMap
      (filled values)

variable {rest : Sql} {pending : Pending}

/-- A piece that is no placeholder is read alike before what is written in and before what it is
written into. -/
theorem Keeps.piece {p : Piece} (hp : p.Whole d.backslashEscapes) (hparams : Sql.params [p] = [])
    (hrest : Keeps d values
      (readThrough d.backslashEscapes pending (p.lexemes d.backslashEscapes)).2 rest) :
    Keeps d values pending (p :: rest) := by
  have hfilled : p.filled d values = p := by
    cases p with
    | param name => cases hparams
    | _ => rfl
  have hthrough : placeholders (readThrough d.backslashEscapes pending
      (p.lexemes d.backslashEscapes)).1 = [] := by
    rw [placeholders_readThrough, hp.tokens, hparams]
  have hlexemes : ∀ more : Sql, Sql.lexemes d.backslashEscapes (p :: more) =
      p.lexemes d.backslashEscapes ++ Sql.lexemes d.backslashEscapes more := fun _ => rfl
  unfold Keeps at hrest ⊢
  rw [Sql.filled_cons, hfilled, hlexemes, hlexemes, readFrom_append, readFrom_append,
    List.flatMap_append, flatMap_filled hthrough, hrest]

/-- A row begins with a break before and after its values are written in. -/
theorem head_lexemes_filled {backslash : Bool} (h : sql.beginsBreak = true) :
    ∀ l ∈ (Sql.lexemes backslash (sql.filled d values)).head?,
      ∃ c, l = .code c ∧ isBreak c = true := by
  cases sql with
  | nil => simp [Sql.filled, Sql.lexemes]
  | cons p rest =>
      cases p with
      | text s =>
          cases hs : s.toList with
          | nil => simp [Sql.beginsBreak, hs] at h
          | cons c more =>
              have hc : isBreak c = true := by simpa [Sql.beginsBreak, hs] using h
              have hlexemes : Sql.lexemes backslash (Sql.filled d values (.text s :: rest)) =
                  s.toList.map .code ++ Sql.lexemes backslash (Sql.filled d values rest) := rfl
              rw [hlexemes, hs]
              rintro l hl
              cases hl
              exact ⟨c, rfl, hc⟩
      | _ => cases h

/-- Where a placeholder stands between a gap and a break, the literal of its value is read by
itself. -/
theorem Keeps.param {name : String}
    (hfloats : ∀ p x, Dict.get? values p = some (.float x) → x.IsDouble)
    (hbreak : rest.beginsBreak = true) (hrest : Keeps d values .none rest) :
    Keeps d values .none (.param name :: rest) := by
  have htoken : ∀ more : Sql, readFrom d.backslashEscapes .none
      (Sql.lexemes d.backslashEscapes (.param name :: more)) =
      .placeholder name.toList ::
        readFrom d.backslashEscapes .none (Sql.lexemes d.backslashEscapes more) := fun _ => rfl
  unfold Keeps at hrest ⊢
  rw [htoken, List.flatMap_cons, ← hrest, Sql.filled_cons]
  cases hvalue : Dict.get? values name with
  | none => simp [Piece.filled, SqlToken.filled, hvalue, htoken]
  | some v =>
      have hliteral : Sql.lexemes d.backslashEscapes
          ((Piece.param name).filled d values :: rest.filled d values) =
          (Piece.literal (d.literalText v)).lexemes d.backslashEscapes ++
            Sql.lexemes d.backslashEscapes (rest.filled d values) := by
        rw [Piece.filled, hvalue]
        rfl
      have hv : ∀ x, v = .float x → x.IsDouble := fun x hx => hfloats name x (hx ▸ hvalue)
      rw [hliteral, readFrom_before_break _ _ (head_lexemes_filled hbreak),
        d.readFrom_literal hv, SqlToken.filled, String.ofList_toList, hvalue]

/-- The tokens of a row with values are those of the row with the literals' own in the place of the
placeholders'. The proof reads on from any place in the row, where a token may be pending unless
there is a gap. -/
theorem keeps_of_spaced (h : Aligned d.backslashEscapes sql)
    (hfloats : ∀ p x, Dict.get? values p = some (.float x) → x.IsDouble) {gap : Bool}
    (hspaced : Sql.spaced gap sql = true) (hgap : gap = true → pending = .none) :
    Keeps d values pending sql := by
  induction h generalizing gap pending with
  | nil => exact (flatMap_filled (placeholders_pending pending)).symm
  | text hcode _ ih => exact .piece (Piece.whole_text hcode) rfl (ih hspaced (readThrough_gap _))
  | @whole p rest hwhole _ _ ih =>
      cases p with
      | text s => exact .piece hwhole rfl (ih hspaced (readThrough_gap _))
      | param name =>
          simp only [Sql.spaced, Bool.and_eq_true] at hspaced
          obtain ⟨⟨hopen, hbreak⟩, hrest⟩ := hspaced
          obtain rfl := hgap hopen
          exact .param hfloats hbreak (ih hrest fun hfalse => by cases hfalse)
      | _ => exact .piece hwhole rfl (ih hspaced fun hfalse => by cases hfalse)

end SqlToken

end QueryLoom
