import QueryLoom.Proofs.Lexing.Scanner
import QueryLoom.Proofs.Values.Texts

/-!
What binding and inlining replace. Both work on the spans of the scanner; here their results are
computed from the lexemes of the one-pass lexer instead. Main statement: on every text whose regions
are closed, the tokens that are replaced are exactly those that the lexer meets in code position, as
long as no quoted text escapes a line feed, which the scanner does not allow.
-/

namespace QueryLoom.Lexer

open Placeholder Binding

/-- The tokens that belong to a parameter, with their values, in the order of the text. -/
def substituted (params : Dict) : List Lexeme → List (String × Value)
  | [] => []
  | .token name :: rest =>
      match Dict.get? params (String.ofList name) with
      | some value => (String.ofList name, value) :: substituted params rest
      | none => substituted params rest
  | _ :: rest => substituted params rest

/-- The text with a mark in the place of every token that belongs to a parameter. The mark is given
the number of tokens replaced before it, the name and the value; everything else is copied. -/
def rewritten (params : Dict) (copy : List Char → String) (mark : Nat → String → Value → String)
    (before : Nat) : List Lexeme → String
  | [] => ""
  | .token name :: rest =>
      match Dict.get? params (String.ofList name) with
      | some value =>
          mark before (String.ofList name) value ++ rewritten params copy mark (before + 1) rest
      | none => copy (':' :: name) ++ rewritten params copy mark before rest
  | l :: rest => copy l.chars ++ rewritten params copy mark before rest

/-- The stretch of a statement that a lexeme becomes. -/
def Lexeme.part (params : Dict) : Lexeme → Part
  | .token name =>
      match Dict.get? params (String.ofList name) with
      | some value => .bound (String.ofList name) value
      | none => .text (':' :: name)
  | l => .text l.chars

variable {backslash : Bool} {sql : String} (params : Dict)

theorem parts_eq (h : spans backslash sql.toList = (lex backslash sql.toList).map Lexeme.span) :
    parts backslash params sql = (lex backslash sql.toList).map (Lexeme.part params) := by
  unfold parts
  rw [h, List.map_map]
  apply List.map_congr_left
  intro l _
  cases l <;> rfl

theorem values_map_part (ls : List Lexeme) :
    values (ls.map (Lexeme.part params)) = substituted params ls := by
  induction ls with
  | nil => rfl
  | cons l rest ih =>
      cases l with
      | token name =>
          simp only [List.map_cons, Lexeme.part, substituted]
          cases Dict.get? params (String.ofList name) <;> simp [values, ih]
      | _ => simp [Lexeme.part, values, substituted, ih]

theorem join_styled_map_part (style : ParamStyle) (bindsAny : Bool) (before : Nat)
    (ls : List Lexeme) :
    String.join (styled style bindsAny before (ls.map (Lexeme.part params))) =
      rewritten params (fun cs => String.ofList (styledText style bindsAny cs))
        (fun n name _ => style.marker (n + 1) name) before ls := by
  induction ls generalizing before with
  | nil => rfl
  | cons l rest ih =>
      cases l with
      | token name =>
          simp only [List.map_cons, Lexeme.part, rewritten]
          cases Dict.get? params (String.ofList name) <;> simp [styled, String.join_cons, ih]
      | _ => simp [Lexeme.part, styled, rewritten, String.join_cons, ih]

theorem join_written_map_part (text : Value → String) (before : Nat) (ls : List Lexeme) :
    String.join ((ls.map (Lexeme.part params)).map (Part.written text)) =
      rewritten params String.ofList (fun _ _ value => text value) before ls := by
  induction ls generalizing before with
  | nil => rfl
  | cons l rest ih =>
      cases l with
      | token name =>
          simp only [List.map_cons, Lexeme.part, rewritten]
          cases Dict.get? params (String.ofList name) with
          | none => simp [-List.map_map, Part.written, String.join_cons, ih before]
          | some value => simp [-List.map_map, Part.written, String.join_cons, ih (before + 1)]
      | _ => simp [-List.map_map, Part.written, Lexeme.part, rewritten, String.join_cons, ih before]

/-- On a text whose regions are closed the scanner cuts the text as the lexer does exactly if no
quoted text escapes a line feed, and then, for all parameters, binding and inlining replace exactly
the tokens that the lexer meets in code position and that belong to a parameter. -/
theorem replaces_tokens_in_code (backslash : Bool) (sql : String)
    (h : Terminated backslash sql.toList) :
    (spans backslash sql.toList = (lex backslash sql.toList).map Lexeme.span ↔
      NoEscapedLineFeed backslash sql.toList) ∧
    (NoEscapedLineFeed backslash sql.toList → ∀ params : Dict,
      (∀ style : ParamStyle,
        let found := substituted params (lex backslash sql.toList)
        Binding.bind sql params style backslash =
          (rewritten params
            (fun cs => String.ofList (styledText style (!found.isEmpty) cs))
            (fun before name _ => style.marker (before + 1) name) 0 (lex backslash sql.toList),
          if style.byName then .dict (Assoc.ofList (found.map fun (name, v) => (.str name, v)))
          else .list (found.map Prod.snd))) ∧
      ∀ (render : Value → Except Fault String) (text : Value → String),
        (∀ found ∈ substituted params (lex backslash sql.toList),
          render found.2 = .ok (text found.2)) →
        Binding.inline sql params render backslash =
          .ok (rewritten params String.ofList (fun _ _ value => text value) 0
            (lex backslash sql.toList))) := by
  refine ⟨spans_eq_lex_iff h, ?_⟩
  intro hline params
  have hparts := parts_eq params ((spans_eq_lex_iff h).mpr hline)
  constructor
  · intro style
    simp only [Binding.bind, hparts, values_map_part, join_styled_map_part]
  · intro render text hrender
    rw [← values_map_part, ← hparts] at hrender
    rw [Binding.inline_of_rendered hrender, hparts, join_written_map_part params text 0]

/-- A text with tokens in literals, an identifier, comments and a cast, and one in code. -/
theorem replaces_tokens_in_code_of_query :
    let sql := "SELECT 'it''s :a', \":a\" /* :a */ FROM t WHERE x::a = :a -- :a"
    Terminated false sql.toList ∧ NoEscapedLineFeed false sql.toList ∧
      Binding.inline sql [(.str "a", .int 7)] Value.toText false =
        .ok "SELECT 'it''s :a', \":a\" /* :a */ FROM t WHERE x::a = 7 -- :a" := by
  have hclosed : Terminated false
      "SELECT 'it''s :a', \":a\" /* :a */ FROM t WHERE x::a = :a -- :a".toList := by
    decide +kernel
  have hline : NoEscapedLineFeed false
      "SELECT 'it''s :a', \":a\" /* :a */ FROM t WHERE x::a = :a -- :a".toList := by
    decide +kernel
  refine ⟨hclosed, hline, ?_⟩
  have htexts : ∀ found ∈ substituted [(.str "a", .int 7)] (lex false
      "SELECT 'it''s :a', \":a\" /* :a */ FROM t WHERE x::a = :a -- :a".toList),
      found.2.hasText = true := by
    decide +kernel
  refine (((replaces_tokens_in_code false _ hclosed).2 hline [(.str "a", .int 7)]).2 Value.toText
    Value.plain fun found h => Value.toText_of_hasText (htexts found h)).trans ?_
  exact congrArg Except.ok (by decide +kernel)

/-- The literal `'a\<line feed>:x'` is closed, but the scanner finds a placeholder inside it. -/
theorem escaped_line_feed_shifts_quoting :
    let sql := "SELECT 'a\\\n:x', :x"
    Terminated true sql.toList ∧
      Binding.inline sql [(.str "x", .int 7)] Value.toText true ≠
        .ok (rewritten [(.str "x", .int 7)] String.ofList (fun _ _ value => value.plain) 0
          (lex true sql.toList)) := by
  intro sql
  refine ⟨by decide +kernel, ?_⟩
  have htexts : ∀ found ∈ Binding.values (parts true [(.str "x", .int 7)] sql),
      found.2.hasText = true := by
    decide +kernel
  rw [Binding.inline_of_rendered fun found h => Value.toText_of_hasText (htexts found h)]
  intro h
  exact absurd (Except.ok.inj h) (by decide +kernel)

end QueryLoom.Lexer
