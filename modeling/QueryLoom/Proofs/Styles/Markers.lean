import Mathlib.Data.List.Induction
import Mathlib.Data.List.TakeWhile
import QueryLoom.Proofs.Lexing.Scanner
import QueryLoom.Proofs.Styles.Format
import QueryLoom.Proofs.Values.Keys
import QueryLoom.Proofs.Values.Texts

/-!
One statement in the styles of drivers. A statement is cut at its placeholders that have a parameter;
what a style makes of it is the same cut with other markers, and with percent signs doubled where the
driver formats the statement. Formatting with the rendered values then undoes the doubling and gives the
statement with its values written in, whatever its text holds.
-/

namespace QueryLoom.Binding

open Lexer Placeholder

/-- The names of the placeholders that have a parameter, in the order of the text. -/
def found (backslash : Bool) (params : Dict) (sql : String) : List String :=
  (names backslash sql).filter fun name => (Dict.get? params name).isSome

/-- A statement cut at its placeholders that have a parameter. -/
structure Cut where
  /-- The text before the first placeholder. -/
  front : List Char
  /-- The names of the placeholders, each with the text behind it. -/
  rest : List (String × List Char)

namespace Cut

/-- A cut with more text before it. -/
def after (cs : List Char) (c : Cut) : Cut := { c with front := cs ++ c.front }

def ofParts : List Part → Cut
  | [] => ⟨[], []⟩
  | .text cs :: more => (ofParts more).after cs
  | .bound name _ :: more => ⟨[], (name, (ofParts more).front) :: (ofParts more).rest⟩

def names (c : Cut) : List String := c.rest.map Prod.fst

/-- Placeholders and the texts behind them. A character of the text becomes what `write` makes of it;
a placeholder becomes its mark, which depends on its number, from one on, and its name. -/
def marked (write : Char → List Char) (mark : Nat → String → String) (before : Nat) :
    List (String × List Char) → List Char
  | [] => []
  | (name, cs) :: rest =>
      (mark (before + 1) name).toList ++ (cs.flatMap write ++ marked write mark (before + 1) rest)

/-- The statement with marks in the place of its placeholders. -/
def text (write : Char → List Char) (mark : Nat → String → String) (c : Cut) : String :=
  String.ofList (c.front.flatMap write ++ marked write mark 0 c.rest)

end Cut

/-- The cut of a statement. -/
def cut (backslash : Bool) (params : Dict) (sql : String) : Cut :=
  .ofParts (parts backslash params sql)

/-- A character as it stands, and one that is doubled if it is a percent sign. -/
def asIs (c : Char) : List Char := [c]

def percentTwice (c : Char) : List Char := if c == '%' then ['%', '%'] else [c]

theorem flatMap_asIs (cs : List Char) : cs.flatMap asIs = cs := List.flatMap_singleton' cs

/-! What is found. -/

/-- The stretch that a span becomes. -/
def part (params : Dict) : Span → Part
  | .copied cs => .text cs
  | .placeholder name =>
      match Dict.get? params (String.ofList name) with
      | some value => .bound (String.ofList name) value
      | none => .text (':' :: name)

variable {backslash : Bool} {params : Dict} {sql : String}

theorem parts_eq_map : parts backslash params sql =
    (spans backslash sql.toList).map (part params) := rfl

theorem part_bound {name : List Char} {v : Value}
    (h : Dict.get? params (String.ofList name) = some v) :
    part params (.placeholder name) = .bound (String.ofList name) v := by
  rw [part, h]

theorem part_free {name : List Char} (h : Dict.get? params (String.ofList name) = none) :
    part params (.placeholder name) = .text (':' :: name) := by
  rw [part, h]

/-- The name of a placeholder. -/
def spanName? : Span → Option String
  | .copied _ => none
  | .placeholder name => some (String.ofList name)

theorem names_eq_filterMap : names backslash sql =
    (spans backslash sql.toList).filterMap spanName? := rfl

/-- The values that are bound are those of the names that are found. -/
theorem values_parts : values (parts backslash params sql) =
    (found backslash params sql).map fun name => (name, Dict.getD params name) := by
  rw [parts_eq_map, found, names_eq_filterMap]
  induction spans backslash sql.toList with
  | nil => rfl
  | cons s rest ih =>
      cases s with
      | copied cs => exact ih
      | placeholder name =>
          have hname : spanName? (.placeholder name) = some (String.ofList name) := rfl
          rw [List.map_cons, List.filterMap_cons_some hname]
          cases h : Dict.get? params (String.ofList name) with
          | none => rw [part_free h, List.filter_cons_of_neg (by simp [h]), values, ih]
          | some v =>
              rw [part_bound h, List.filter_cons_of_pos (by simp [h]), values, ih, List.map_cons,
                Dict.getD, h]
              rfl

/-- A name that the scanner finds is a word. -/
theorem isWord_of_mem_spans {cs name : List Char} (h : .placeholder name ∈ spans backslash cs) :
    ∀ c ∈ name, Text.isWord c = true := by
  fun_induction spans backslash cs with
  | case1 => cases h
  | case2 c rest region after hregion _ ih =>
      rcases List.mem_cons.mp h with heq | h
      · cases heq
      · exact ih h
  | case3 c rest _ found after hname _ ih =>
      rcases List.mem_cons.mp h with heq | h
      · cases heq
        unfold name? at hname
        split at hname
        · split_ifs at hname with hstart
          cases hname
          rw [List.forall_mem_cons]
          exact ⟨isWord_of_isWordStart hstart, fun d hd => List.mem_takeWhile_imp hd⟩
        · cases hname
      · exact ih h
  | case4 c rest _ _ ih =>
      rcases List.mem_cons.mp h with heq | h
      · cases heq
      · exact ih h

theorem isWord_of_mem_found {name : String} (h : name ∈ found backslash params sql) :
    ∀ c ∈ name.toList, Text.isWord c = true := by
  rw [found, names_eq_filterMap] at h
  obtain ⟨s, hs, hname⟩ := List.mem_filterMap.mp (List.mem_filter.mp h).1
  cases s with
  | copied cs => cases hname
  | placeholder cs =>
      cases hname
      rw [String.toList_ofList]
      exact isWord_of_mem_spans hs

/-! The cut of a statement. -/

theorem names_ofParts (ps : List Part) : (Cut.ofParts ps).names = (values ps).map Prod.fst := by
  induction ps with
  | nil => rfl
  | cons p rest ih =>
      cases p with
      | text cs => exact ih
      | bound name v => exact congrArg (name :: ·) ih

theorem names_cut : (cut backslash params sql).names = found backslash params sql := by
  rw [cut, names_ofParts, values_parts, List.map_map]
  exact List.map_id' _

/-- The text of a cut whose placeholders have numbers from `before + 1` on. -/
def Cut.textFrom (write : Char → List Char) (mark : Nat → String → String) (before : Nat)
    (c : Cut) : List Char :=
  c.front.flatMap write ++ marked write mark before c.rest

theorem Cut.textFrom_after (write : Char → List Char) (mark : Nat → String → String) (before : Nat)
    (cs : List Char) (c : Cut) :
    (c.after cs).textFrom write mark before = cs.flatMap write ++ c.textFrom write mark before := by
  rw [textFrom, textFrom, after, List.flatMap_append, List.append_assoc]

/-- A cut put together is the statement it was made of. -/
theorem text_cut_token : (cut backslash params sql).text asIs (fun _ name => placeholderToken name) =
    sql := by
  have hparts : ∀ ss : List Span, ∀ before, (Cut.ofParts (ss.map (part params))).textFrom asIs
      (fun _ name => placeholderToken name) before = ss.flatMap Span.chars := by
    intro ss
    induction ss with
    | nil => exact fun _ => rfl
    | cons s rest ih =>
        intro before
        rw [List.map_cons, List.flatMap_cons]
        cases s with
        | copied cs => rw [part, Cut.ofParts, Cut.textFrom_after, ih, flatMap_asIs, Span.chars]
        | placeholder name =>
            cases h : Dict.get? params (String.ofList name) with
            | none =>
                rw [part_free h, Cut.ofParts, Cut.textFrom_after, ih, flatMap_asIs, Span.chars]
            | some v =>
                have hrest := ih (before + 1)
                rw [Cut.textFrom] at hrest
                rw [part_bound h, Cut.ofParts, Cut.textFrom, Cut.marked, hrest]
                simp [placeholderToken, Span.chars]
  have hsql := hparts (spans backslash sql.toList) 0
  rw [chars_spans] at hsql
  exact (congrArg String.ofList hsql).trans (String.ofList_toList)

/-- What is written in the place of a percent sign, or of another character, in a style. -/
def written (style : ParamStyle) (bindsAny : Bool) : Char → List Char :=
  if bindsAny && style.formatsPercent then percentTwice else asIs

theorem styledText_eq (style : ParamStyle) (bindsAny : Bool) (cs : List Char) :
    styledText style bindsAny cs = cs.flatMap (written style bindsAny) := by
  unfold styledText written
  split_ifs
  · rfl
  · exact (flatMap_asIs cs).symm

theorem join_styled (style : ParamStyle) (bindsAny : Bool) (before : Nat) (ps : List Part) :
    (String.join (styled style bindsAny before ps)).toList =
      (Cut.ofParts ps).textFrom (written style bindsAny) style.marker before := by
  induction ps generalizing before with
  | nil => rfl
  | cons p rest ih =>
      cases p with
      | text cs =>
          rw [styled, String.join_cons, String.toList_append, ih, String.toList_ofList,
            styledText_eq, Cut.ofParts, Cut.textFrom_after]
      | bound name v =>
          rw [styled, String.join_cons, String.toList_append, ih]
          rfl

/-! What binding gives. -/

theorem bind_text (style : ParamStyle) : (bind sql params style backslash).1 =
    (cut backslash params sql).text
      (if found backslash params sql ≠ [] ∧ (style = .format ∨ style = .pyformat) then percentTwice
        else asIs) style.marker := by
  have hwritten : written style (!(values (parts backslash params sql)).isEmpty) =
      if found backslash params sql ≠ [] ∧ (style = .format ∨ style = .pyformat) then percentTwice
        else asIs := by
    rw [written, values_parts]
    cases style <;> cases found backslash params sql <;> simp [ParamStyle.formatsPercent]
  rw [← hwritten]
  refine String.toList_injective ((join_styled style _ 0 _).trans ?_)
  rw [Cut.text, String.toList_ofList, Cut.textFrom, cut]

theorem bind_list {style : ParamStyle} (h : style.byName = false) :
    (bind sql params style backslash).2 =
      .list ((found backslash params sql).map (Dict.getD params)) := by
  have hlist : (bind sql params style backslash).2 =
      .list ((values (parts backslash params sql)).map Prod.snd) := by
    simp only [bind, h]
    rfl
  rw [hlist, values_parts, List.map_map]
  rfl

theorem bind_dict {style : ParamStyle} (h : style.byName = true) :
    (bind sql params style backslash).2 = .dict (Assoc.ofList
      ((found backslash params sql).map fun name => (Value.str name, Dict.getD params name))) := by
  have hdict : (bind sql params style backslash).2 = .dict (Assoc.ofList
      ((values (parts backslash params sql)).map fun p => (Value.str p.1, p.2))) := by
    simp only [bind, h]
    rfl
  rw [hdict, values_parts, List.map_map]
  rfl

/-- Values written into a text, as a mark that depends on the name only. -/
theorem join_written_parts (text : Value → String) :
    String.join ((parts backslash params sql).map (Part.written text)) =
      (cut backslash params sql).text asIs (fun _ name => text (Dict.getD params name)) := by
  have hparts : ∀ ss : List Span, ∀ before,
      (String.join ((ss.map (part params)).map (Part.written text))).toList =
        (Cut.ofParts (ss.map (part params))).textFrom asIs
          (fun _ name => text (Dict.getD params name)) before := by
    intro ss
    induction ss with
    | nil => exact fun _ => rfl
    | cons s rest ih =>
        intro before
        rw [List.map_cons, List.map_cons, String.join_cons, String.toList_append]
        cases s with
        | copied cs =>
            rw [part, Cut.ofParts, Cut.textFrom_after, ih before, flatMap_asIs, Part.written,
              String.toList_ofList]
        | placeholder name =>
            cases h : Dict.get? params (String.ofList name) with
            | none =>
                rw [part_free h, Cut.ofParts, Cut.textFrom_after, ih before, flatMap_asIs,
                  Part.written, String.toList_ofList]
            | some v =>
                rw [part_bound h, Cut.ofParts, ih (before + 1), Cut.textFrom, Cut.textFrom,
                  Cut.marked, Dict.getD, h]
                rfl
  rw [parts_eq_map, Cut.text]
  exact String.toList_injective ((hparts _ 0).trans String.toList_ofList.symm)

/-- A statement whose values are all rendered, with their texts as marks. -/
theorem inline_eq {render : Value → Except Fault String} {text : Value → String}
    (h : ∀ name ∈ found backslash params sql,
      render (Dict.getD params name) = .ok (text (Dict.getD params name))) :
    inline sql params render backslash =
      .ok ((cut backslash params sql).text asIs (fun _ name => text (Dict.getD params name))) := by
  have hvalues : ∀ found ∈ values (parts backslash params sql),
      render found.2 = .ok (text found.2) := by
    rw [values_parts, List.forall_mem_map]
    exact h
  rw [inline_of_rendered hvalues, join_written_parts]

/-! Names and their values. -/

/-- A dictionary of names with the values they have among parameters. -/
theorem get?_ofList_names (params : Dict) (names : List String) (name : String) :
    Dict.get? (Assoc.ofList (names.map fun name => (Value.str name, Dict.getD params name))) name =
      if name ∈ names then some (Dict.getD params name) else none := by
  induction names using List.reverseRecOn with
  | nil => rfl
  | append_singleton names last ih =>
      have hlast : Assoc.ofList ((names ++ [last]).map fun name =>
          (Value.str name, Dict.getD params name)) = Assoc.insert (.str last) (Dict.getD params last)
            (Assoc.ofList (names.map fun name => (Value.str name, Dict.getD params name))) := by
        simp [Assoc.ofList, Assoc.merge]
      rw [Dict.get?] at ih ⊢
      rw [hlast, (Assoc.plain_str name).get?_insert, ih, Value.str_beq_str]
      by_cases heq : last = name
      · simp [heq]
      · simp [heq, Ne.symm heq]

/-- Entries for some names, each once, with the values that the names have among parameters. -/
structure Restricts (params : Dict) (names : List String) (entries : Dict) : Prop where
  distinct : Assoc.Distinct entries
  key : ∀ entry ∈ entries, ∃ name ∈ names, entry.1 = .str name
  value : ∀ name, Dict.get? entries name = if name ∈ names then Dict.get? params name else none

theorem restricts_found : Restricts params (found backslash params sql)
    (Assoc.ofList ((found backslash params sql).map fun name =>
      (Value.str name, Dict.getD params name))) where
  distinct := Assoc.distinct_merge List.Pairwise.nil _
  key := by
    refine Assoc.forall_key_merge (P := fun key => ∃ name ∈ found backslash params sql,
      key = Value.str name) (fun _ h => by cases h) fun entry hentry => ?_
    obtain ⟨name, hname, rfl⟩ := List.mem_map.mp hentry
    exact ⟨name, hname, rfl⟩
  value := by
    intro name
    rw [get?_ofList_names]
    split_ifs with hname
    · obtain ⟨v, hv⟩ := Option.isSome_iff_exists.mp (List.mem_filter.mp hname).2
      rw [Dict.getD, hv]
      rfl
    · rfl

/-! Formatting. -/

/-- What a driver formats a statement with: the values that are bound, as texts. -/
def arguments (text : Value → String) : Value → Format.Arguments
  | .list vs => .inOrder (vs.map text)
  | .dict entries => .byName (entries.map fun (key, v) => (key, text v))
  | _ => .inOrder []

open Format

/-- Where percent signs are doubled, the markers are the only directives. -/
theorem itemsFrom_marked {mark : Nat → String → String} {slot : String → Item}
    {rest : List (String × List Char)}
    (hmark : ∀ n, ∀ p ∈ rest, ∀ cs, itemsFrom .text ((mark n p.1).toList ++ cs) =
      (itemsFrom .text cs).map (slot p.1 :: ·)) (before : Nat) :
    itemsFrom .text (Cut.marked percentTwice mark before rest) =
      some (rest.flatMap fun p => slot p.1 :: p.2.map Item.char) := by
  induction rest generalizing before with
  | nil => rfl
  | cons p rest ih =>
      obtain ⟨name, cs⟩ := p
      have hrest := ih (fun n p hp => hmark n p (List.mem_cons_of_mem _ hp)) (before + 1)
      have hdoubled := itemsFrom_doubled cs (Cut.marked percentTwice mark (before + 1) rest)
      rw [Cut.marked, hmark (before + 1) (name, cs) List.mem_cons_self]
      change (itemsFrom .text (doubled '%' cs ++ _)).map _ = _
      rw [hdoubled, hrest]
      rfl

theorem itemsFrom_text {mark : Nat → String → String} {slot : String → Item} {c : Cut}
    (hmark : ∀ n, ∀ p ∈ c.rest, ∀ cs, itemsFrom .text ((mark n p.1).toList ++ cs) =
      (itemsFrom .text cs).map (slot p.1 :: ·)) :
    itemsFrom .text (c.text percentTwice mark).toList =
      some (c.front.map Item.char ++ c.rest.flatMap fun p => slot p.1 :: p.2.map Item.char) := by
  have hdoubled := itemsFrom_doubled c.front (Cut.marked percentTwice mark 0 c.rest)
  rw [itemsFrom_marked hmark] at hdoubled
  rw [Cut.text, String.toList_ofList]
  exact hdoubled

theorem fill_inOrder (value : String → String) (before : Nat) (rest : List (String × List Char)) :
    fill (.inOrder (rest.map fun p => value p.1))
      (rest.flatMap fun p => Item.next :: p.2.map Item.char) =
        some (Cut.marked asIs (fun _ name => value name) before rest) := by
  induction rest generalizing before with
  | nil => rfl
  | cons p rest ih =>
      rw [List.map_cons, List.flatMap_cons, List.cons_append, fill, fill_chars, ih (before + 1),
        Cut.marked, flatMap_asIs]
      rfl

theorem fill_byName {value : String → String} {texts : List (Value × String)}
    {rest : List (String × List Char)}
    (h : ∀ p ∈ rest, Assoc.get? (Value.str p.1) texts = some (value p.1)) (before : Nat) :
    fill (.byName texts) (rest.flatMap fun p => Item.named p.1.toList :: p.2.map Item.char) =
      some (Cut.marked asIs (fun _ name => value name) before rest) := by
  induction rest generalizing before with
  | nil => rfl
  | cons p rest ih =>
      obtain ⟨hp, hrest⟩ := List.forall_mem_cons.mp h
      rw [List.flatMap_cons, List.cons_append, fill, String.ofList_toList, hp, fill_chars,
        ih hrest (before + 1), Cut.marked, flatMap_asIs]
      rfl

/-- A filled format is the cut with the texts of the arguments in the places of the placeholders. -/
theorem filled_text {mark : Nat → String → String} (slot : String → Item) {c : Cut} {args : Arguments}
    {value : String → String}
    (hmark : ∀ n, ∀ p ∈ c.rest, ∀ cs, itemsFrom .text ((mark n p.1).toList ++ cs) =
      (itemsFrom .text cs).map (slot p.1 :: ·))
    (hfill : fill args (c.rest.flatMap fun p => slot p.1 :: p.2.map Item.char) =
      some (Cut.marked asIs (fun _ name => value name) 0 c.rest)) :
    filled args (c.text percentTwice mark) = some (c.text asIs fun _ name => value name) := by
  rw [filled, itemsFrom_text hmark, Option.bind_some, fill_chars, hfill, Cut.text, flatMap_asIs]
  rfl

theorem mem_found_of_mem_cut {p : String × List Char} (h : p ∈ (cut backslash params sql).rest) :
    p.1 ∈ found backslash params sql := by
  rw [← names_cut]
  exact List.mem_map_of_mem h

/-- Formatting in order undoes what the style did to the statement. -/
theorem filled_format (text : Value → String) :
    filled (.inOrder ((found backslash params sql).map fun name => text (Dict.getD params name)))
      ((cut backslash params sql).text percentTwice ParamStyle.format.marker) =
        some ((cut backslash params sql).text asIs fun _ name => text (Dict.getD params name)) := by
  have hmark : ∀ n name cs, (ParamStyle.format.marker n name).toList ++ cs = '%' :: 's' :: cs := by
    simp [ParamStyle.marker]
  refine filled_text (fun _ => .next) (fun n p _ cs => ?_) ?_
  · rw [hmark, itemsFrom_next]
  rw [← names_cut, Cut.names, List.map_map]
  exact fill_inOrder (fun name => text (Dict.getD params name)) 0 _

/-- Formatting by names undoes what the style did to the statement. -/
theorem filled_pyformat (text : Value → String) {entries : Dict}
    (h : Restricts params (found backslash params sql) entries) :
    filled (.byName (entries.map fun (key, v) => (key, text v)))
      ((cut backslash params sql).text percentTwice ParamStyle.pyformat.marker) =
        some ((cut backslash params sql).text asIs fun _ name => text (Dict.getD params name)) := by
  refine filled_text (fun name => .named name.toList) ?_ ?_
  · intro n p hp cs
    have hname : ∀ c ∈ p.1.toList, c ≠ '(' ∧ c ≠ ')' := by
      intro c hc
      have hword := isWord_of_mem_found (mem_found_of_mem_cut hp) c hc
      constructor <;> rintro rfl <;> exact absurd hword (by decide)
    have hmark : (ParamStyle.pyformat.marker n p.1).toList ++ cs =
        '%' :: '(' :: p.1.toList ++ ')' :: 's' :: cs := by
      simp [ParamStyle.marker]
    rw [hmark, itemsFrom_named hname]
  · refine fill_byName (fun p hp => ?_) 0
    have hname := mem_found_of_mem_cut hp
    obtain ⟨v, hv⟩ := Option.isSome_iff_exists.mp (List.mem_filter.mp hname).2
    have hget := h.value p.1
    rw [if_pos hname, Dict.get?] at hget
    rw [Assoc.get?_map_entries, hget, Dict.getD, hv]
    rfl

/-- All styles render one statement: they bind the same values, their texts differ in the markers of
the placeholders only, apart from percent signs that are doubled where the driver formats the
statement, and formatting gives the statement with its values written in. -/
theorem styles_render_one_statement (backslash : Bool) (sql : String) (params : Dict) :
    let names := found backslash params sql
    let cut := cut backslash params sql
    let statement style := (bind sql params style backslash).1
    let formatted := if names ≠ [] then percentTwice else asIs
    (cut.names = names ∧ cut.text asIs (fun _ name => ":" ++ name) = sql) ∧
    (statement .qmark = cut.text asIs (fun _ _ => "?") ∧
      statement .format = cut.text formatted (fun _ _ => "%s") ∧
      statement .numeric = cut.text asIs (fun i _ => ":" ++ toString i) ∧
      statement .named = cut.text asIs (fun _ name => ":" ++ name) ∧
      statement .pyformat = cut.text formatted (fun _ name => "%(" ++ name ++ ")s")) ∧
    (∀ style, style = .qmark ∨ style = .format ∨ style = .numeric →
      (bind sql params style backslash).2 = .list (names.map (Dict.getD params))) ∧
    (∀ style, style = .named ∨ style = .pyformat →
      ∃ entries, (bind sql params style backslash).2 = .dict entries ∧
        Restricts params names entries) ∧
    (names ≠ [] → ∀ style, style = .format ∨ style = .pyformat →
      ∀ (render : Value → Except Fault String) (text : Value → String),
        (∀ name ∈ names, render (Dict.getD params name) = .ok (text (Dict.getD params name))) →
        ∃ filledIn, inline sql params render backslash = .ok filledIn ∧
          filled (arguments text (bind sql params style backslash).2) (statement style) =
            some filledIn) := by
  intro names cut statement formatted
  have htext : ∀ style, statement style = cut.text
      (if names ≠ [] ∧ (style = .format ∨ style = .pyformat) then percentTwice else asIs)
      style.marker := fun style => bind_text style
  have hlist : ∀ style, style = .qmark ∨ style = .format ∨ style = .numeric →
      (bind sql params style backslash).2 = .list (names.map (Dict.getD params)) := by
    rintro style (rfl | rfl | rfl) <;> exact bind_list rfl
  have hdict : ∀ style, style = .named ∨ style = .pyformat →
      (bind sql params style backslash).2 = .dict (Assoc.ofList (names.map fun name =>
        (Value.str name, Dict.getD params name))) := by
    rintro style (rfl | rfl) <;> exact bind_dict rfl
  refine ⟨⟨names_cut, text_cut_token⟩, ?_, hlist, fun style hstyle =>
    ⟨_, hdict style hstyle, restricts_found⟩, ?_⟩
  · simp only [htext, formatted]
    refine ⟨?_, ?_, ?_, ?_, ?_⟩ <;> simp <;> rfl
  intro hne style hstyle render text hrender
  refine ⟨_, inline_eq hrender, ?_⟩
  obtain rfl | rfl := hstyle
  · rw [htext, hlist _ (.inr (.inl rfl)), if_pos ⟨hne, .inl rfl⟩, arguments, List.map_map]
    exact filled_format text
  · rw [htext, hdict _ (.inr rfl), if_pos ⟨hne, .inr rfl⟩, arguments]
    exact filled_pyformat text restricts_found

/-- A text with percent signs in code, in literals, before a marker and behind one. -/
theorem styles_render_one_statement_of_percents :
    let sql := "SELECT '50%' % :a, '%(a)s :a', %:b%s, :c, :a"
    let params : Dict := [(.str "a", .int 5), (.str "b", .str "100%")]
    found false params sql ≠ [] ∧
      (bind sql params .qmark false).1 = "SELECT '50%' % ?, '%(a)s :a', %?%s, :c, ?" ∧
      (bind sql params .numeric false).1 = "SELECT '50%' % :1, '%(a)s :a', %:2%s, :c, :3" ∧
      (bind sql params .named false).1 = sql ∧
      ∃ filledIn, inline sql params Value.toText false = .ok filledIn ∧
        filledIn = "SELECT '50%' % 5, '%(a)s :a', %100%%s, :c, 5" ∧
        filled (arguments Value.plain (bind sql params .pyformat false).2)
          (bind sql params .pyformat false).1 = some filledIn := by
  intro sql params
  have hne : found false params sql ≠ [] := by decide +kernel
  have htexts : ∀ name ∈ found false params sql, (Dict.getD params name).hasText = true := by
    decide +kernel
  have hrender : ∀ name ∈ found false params sql,
      (Dict.getD params name).toText = .ok (Dict.getD params name).plain :=
    fun name hname => Value.toText_of_hasText (htexts name hname)
  obtain ⟨hcut, hstatements, _, _, hfilled⟩ := styles_render_one_statement false sql params
  obtain ⟨filledIn, hinline, hformat⟩ :=
    hfilled hne .pyformat (.inr rfl) Value.toText Value.plain hrender
  refine ⟨hne, hstatements.1.trans ?_, hstatements.2.2.1.trans ?_,
    hstatements.2.2.2.1.trans hcut.2, filledIn, hinline, ?_, hformat⟩
  · decide +kernel
  · decide +kernel
  · rw [inline_eq hrender] at hinline
    rw [← Except.ok.inj hinline]
    decide +kernel

end QueryLoom.Binding
