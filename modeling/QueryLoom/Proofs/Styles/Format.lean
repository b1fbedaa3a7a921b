import QueryLoom.Proofs.Lexing.Stretch
import QueryLoom.Value.Equality

/-!
How a driver fills in a statement whose markers begin with a percent sign. The statement is read as a
format: two percent signs stand for one, `%s` for the next argument and `%(name)s` for the argument of
that name. Main statement: a text whose percent signs are doubled is read as itself, wherever it stands
in a format.
-/

namespace QueryLoom.Format

open Lexer

/-- What a format is made of: characters, and places for the next argument or for that of a name. -/
inductive Item
  | char (c : Char)
  | next
  | named (name : List Char)

/-- Where the reading of a format stands: in text, behind a percent sign, inside the parentheses of a
name, or behind them. -/
inductive State
  | text
  | percent
  | name (read : List Char)
  | behind (name : List Char)

/-- The items of a format that is read on from a state. Widths, precisions, conversions other than to
text, parentheses inside a name and directives that the text breaks off are refused. -/
def itemsFrom : State → List Char → Option (List Item)
  | .text, [] => some []
  | .text, c :: rest =>
      if c = '%' then itemsFrom .percent rest else (itemsFrom .text rest).map (.char c :: ·)
  | .percent, c :: rest =>
      if c = '%' then (itemsFrom .text rest).map (.char '%' :: ·)
      else if c = 's' then (itemsFrom .text rest).map (.next :: ·)
      else if c = '(' then itemsFrom (.name []) rest
      else none
  | .name read, c :: rest =>
      if c = ')' then itemsFrom (.behind read) rest
      else if c = '(' then none
      else itemsFrom (.name (read ++ [c])) rest
  | .behind name, c :: rest =>
      if c = 's' then (itemsFrom .text rest).map (.named name :: ·) else none
  | _, [] => none

/-- What a format is filled in with: texts in order, all of which have to be used, or texts under
keys. -/
inductive Arguments
  | inOrder (texts : List String)
  | byName (texts : List (Value × String))

/-- The text that items make with arguments. -/
def fill : Arguments → List Item → Option (List Char)
  | .inOrder [], [] => some []
  | .byName _, [] => some []
  | args, .char c :: rest => (fill args rest).map (c :: ·)
  | .inOrder (t :: ts), .next :: rest => (fill (.inOrder ts) rest).map (t.toList ++ ·)
  | .byName ts, .named name :: rest =>
      match Assoc.get? (Value.str (String.ofList name)) ts with
      | some t => (fill (.byName ts) rest).map (t.toList ++ ·)
      | none => none
  | _, _ => none

/-- A format filled in with arguments. -/
def filled (args : Arguments) (format : String) : Option String :=
  ((itemsFrom .text format.toList).bind (fill args)).map String.ofList

/-! Reading. -/

variable {cs rest : List Char}

/-- Where percent signs are doubled, none of them begins a directive. -/
theorem itemsFrom_doubled (cs rest : List Char) :
    itemsFrom .text (doubled '%' cs ++ rest) =
      (itemsFrom .text rest).map (cs.map Item.char ++ ·) := by
  induction cs with
  | nil => simp [doubled]
  | cons c more ih =>
      by_cases hc : c = '%'
      · subst hc
        rw [doubled_cons_self, List.cons_append, List.cons_append, itemsFrom, if_pos rfl, itemsFrom,
          if_pos rfl, ih, Option.map_map]
        rfl
      · rw [doubled_cons_of_ne hc, List.cons_append, itemsFrom, if_neg hc, ih, Option.map_map]
        rfl

theorem itemsFrom_next (rest : List Char) :
    itemsFrom .text ('%' :: 's' :: rest) = (itemsFrom .text rest).map (.next :: ·) := by
  simp [itemsFrom]

theorem itemsFrom_name (h : ∀ c ∈ cs, c ≠ '(' ∧ c ≠ ')') (read rest : List Char) :
    itemsFrom (.name read) (cs ++ ')' :: rest) = itemsFrom (.behind (read ++ cs)) rest := by
  induction cs generalizing read with
  | nil => simp [itemsFrom]
  | cons c more ih =>
      obtain ⟨hc, hmore⟩ := List.forall_mem_cons.mp h
      rw [List.cons_append, itemsFrom, if_neg hc.2, if_neg hc.1, ih hmore]
      simp

theorem itemsFrom_named (h : ∀ c ∈ cs, c ≠ '(' ∧ c ≠ ')') (rest : List Char) :
    itemsFrom .text ('%' :: '(' :: cs ++ ')' :: 's' :: rest) =
      (itemsFrom .text rest).map (.named cs :: ·) := by
  have hopen : itemsFrom .text ('%' :: '(' :: cs ++ ')' :: 's' :: rest) =
      itemsFrom (.name []) (cs ++ ')' :: 's' :: rest) := by
    simp [itemsFrom]
  rw [hopen, itemsFrom_name h]
  simp [itemsFrom]

/-! Filling in. -/

theorem fill_char (args : Arguments) (c : Char) (items : List Item) :
    fill args (.char c :: items) = (fill args items).map (c :: ·) := by
  cases args with
  | inOrder texts => cases texts <;> rfl
  | byName texts => rfl

theorem fill_chars (args : Arguments) (cs : List Char) (items : List Item) :
    fill args (cs.map Item.char ++ items) = (fill args items).map (cs ++ ·) := by
  induction cs with
  | nil => simp
  | cons c more ih =>
      rw [List.map_cons, List.cons_append, fill_char, ih, Option.map_map]
      rfl

end QueryLoom.Format
