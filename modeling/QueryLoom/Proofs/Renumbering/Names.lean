import QueryLoom.Proofs.Columns.Leaves
import QueryLoom.Proofs.Lexing.Row
import QueryLoom.Proofs.Statement.Numbering
import QueryLoom.Statement.Compiled

/-!
Numbers of names. A compilation that starts when the counter stands further on gives names with higher
numbers, and nothing else changes. Here stands what is done to names, to the SQL that holds them as
placeholders and to the states that bind them. Literals and fragments that look like placeholders are
no placeholders and stay as they are.
-/

namespace QueryLoom

namespace Parameters

/-- The name that the counter gives for a number. -/
def generated (i : Nat) : String := defaultStem ++ toString i

/-- The number of a name, if the counter can give it. -/
def number? (name : String) : Option Nat :=
  let i := Nat.ofDigitChars 10 (name.toList.drop defaultStem.length) 0
  if name == generated i then some i else none

/-- A name whose number is moved by `n`. A name that the counter cannot give stays. -/
def renumber (n : Nat) (name : String) : String :=
  match number? name with
  | some i => generated (i + n)
  | none => name

@[simp] theorem number?_generated (i : Nat) : number? (generated i) = some i := by
  have hdigits : (generated i).toList.drop defaultStem.length = Nat.toDigits 10 i := by
    rw [generated, String.toList_append, ← String.length_toList, List.drop_left,
      Nat.toString_eq_ofList_toDigits, String.toList_ofList]
  have hvalue : Nat.ofDigitChars 10 (Nat.toDigits 10 i) 0 = i := by simp
  rw [number?, hdigits, hvalue]
  simp

theorem generated_of_number? {name : String} {i : Nat} (h : number? name = some i) :
    name = generated i := by
  simp only [number?, beq_iff_eq, Option.ite_none_right_eq_some, Option.some.injEq] at h
  rw [← h.2]
  exact h.1

@[simp] theorem renumber_generated (n i : Nat) : renumber n (generated i) = generated (i + n) := by
  rw [renumber, number?_generated]

theorem renumber_of_none {name : String} (h : number? name = none) (n : Nat) :
    renumber n name = name := by
  rw [renumber, h]

theorem generated_injective {i j : Nat} (h : generated i = generated j) : i = j := by
  have hnumbers := congrArg number? h
  simpa using hnumbers

theorem renumber_injective (n : Nat) : Function.Injective (renumber n) := by
  intro a b h
  cases ha : number? a with
  | some i =>
      rw [generated_of_number? ha, renumber_generated] at h
      cases hb : number? b with
      | some j =>
          rw [generated_of_number? hb, renumber_generated] at h
          have hsame := generated_injective h
          rw [generated_of_number? ha, generated_of_number? hb, Nat.add_right_cancel hsame]
      | none =>
          rw [renumber_of_none hb] at h
          rw [← h, number?_generated] at hb
          cases hb
  | none =>
      rw [renumber_of_none ha] at h
      cases hb : number? b with
      | some j =>
          rw [generated_of_number? hb, renumber_generated] at h
          rw [h, number?_generated] at ha
          cases ha
      | none => rwa [renumber_of_none hb] at h

@[simp] theorem renumber_zero (name : String) : renumber 0 name = name := by
  cases h : number? name with
  | some i => rw [generated_of_number? h, renumber_generated, Nat.add_zero]
  | none => exact renumber_of_none h 0

end Parameters

/-! SQL. -/

/-- A piece with something done to its name if it is a placeholder. -/
def Piece.mapParam (f : String → String) : Piece → Piece
  | .param p => .param (f p)
  | piece => piece

namespace Sql

/-- SQL with something done to the names of its placeholders. -/
def mapParams (f : String → String) (sql : Sql) : Sql := sql.map (Piece.mapParam f)

variable {f : String → String}

@[simp] theorem mapParams_nil : mapParams f [] = [] := rfl

@[simp] theorem mapParams_text (s : String) (rest : Sql) :
    mapParams f (.text s :: rest) = .text s :: mapParams f rest := rfl

@[simp] theorem mapParams_name (s : String) (rest : Sql) :
    mapParams f (.name s :: rest) = .name s :: mapParams f rest := rfl

@[simp] theorem mapParams_literal (s : String) (rest : Sql) :
    mapParams f (.literal s :: rest) = .literal s :: mapParams f rest := rfl

@[simp] theorem mapParams_fragment (s : String) (rest : Sql) :
    mapParams f (.fragment s :: rest) = .fragment s :: mapParams f rest := rfl

@[simp] theorem mapParams_param (name : String) (rest : Sql) :
    mapParams f (.param name :: rest) = .param (f name) :: mapParams f rest := rfl

@[simp] theorem mapParams_append (first rest : Sql) :
    mapParams f (first ++ rest) = mapParams f first ++ mapParams f rest := by
  simp [mapParams]

@[simp] theorem mapParams_join (between : String) (rows : List Sql) :
    mapParams f (join between rows) = join between (rows.map (mapParams f)) := by
  induction rows with
  | nil => rfl
  | cons row rest ih =>
      cases rest with
      | nil => rfl
      | cons second rest =>
          have hjoin : join between (row :: second :: rest) =
              row ++ .text between :: join between (second :: rest) := rfl
          rw [hjoin, mapParams_append, mapParams_text, ih]
          rfl

@[simp] theorem mapParams_ite (c : Prop) [Decidable c] (a b : Sql) :
    mapParams f (if c then a else b) = if c then mapParams f a else mapParams f b := by
  split_ifs <;> rfl

theorem params_mapParams (sql : Sql) : (mapParams f sql).params = sql.params.map f := by
  induction sql with
  | nil => rfl
  | cons piece rest ih =>
      cases piece with
      | param name => simp [ih]
      | _ => exact ih

theorem mapParams_of_params_eq {sql : Sql} (h : sql.params = []) : mapParams f sql = sql := by
  induction sql with
  | nil => rfl
  | cons piece rest ih =>
      cases piece with
      | param name => cases h
      | text s => rw [mapParams_text, ih h]
      | name s => rw [mapParams_name, ih h]
      | literal s => rw [mapParams_literal, ih h]
      | fragment s => rw [mapParams_fragment, ih h]

theorem isEmpty_text_cons (piece : Piece) (rest : Sql) :
    (text (piece :: rest)).isEmpty = (piece.toText.isEmpty && (text rest).isEmpty) := by
  rw [Bool.eq_iff_iff, Bool.and_eq_true]
  simp only [String.isEmpty_iff, ← String.toList_eq_nil_iff, text_cons, List.append_eq_nil_iff]

/-- A placeholder is never empty, whatever its name. -/
theorem isEmpty_text_mapParams (sql : Sql) : (mapParams f sql).text.isEmpty = sql.text.isEmpty := by
  induction sql with
  | nil => rfl
  | cons piece rest ih =>
      have hpiece : (piece.mapParam f).toText.isEmpty = piece.toText.isEmpty := by
        cases piece with
        | param name =>
            rw [Bool.eq_iff_iff, String.isEmpty_iff, String.isEmpty_iff]
            simp [Piece.mapParam, Piece.toText, placeholderToken]
        | _ => rfl
      have hcons : mapParams f (piece :: rest) = piece.mapParam f :: mapParams f rest := rfl
      rw [hcons, isEmpty_text_cons, isEmpty_text_cons, hpiece, ih]

end Sql

namespace Compiled

/-- A statement with its numbers moved by `n`. -/
def renumber (n : Nat) (c : Compiled) : Compiled :=
  { c with
    body := c.body.mapParams (Parameters.renumber n)
    params := c.params.map fun (name, v) => (Parameters.renumber n name, v) }

end Compiled

/-- A state whose counter stands `n` numbers further on. -/
def Parameters.shift (n : Nat) (s : Parameters) : Parameters :=
  { s with
    next := s.next + n
    bound := s.bound.map fun (name, v) => (renumber n name, v) }

/-! Bound names. -/

namespace Assoc

variable {ν : Type} {f : String → String}

theorem get?_map_of_injective (hf : Function.Injective f) (name : String)
    (entries : List (String × ν)) :
    get? (f name) (entries.map fun (key, v) => (f key, v)) = get? name entries := by
  induction entries with
  | nil => rfl
  | cons entry rest ih =>
      obtain ⟨key, v⟩ := entry
      have hkey : (f key == f name) = (key == name) := by
        rw [Bool.eq_iff_iff, beq_iff_eq, beq_iff_eq, hf.eq_iff]
      simp only [List.map_cons, get?, hkey, ih]

theorem insert_map_of_injective (hf : Function.Injective f) (name : String) (value : ν)
    (entries : List (String × ν)) :
    insert (f name) value (entries.map fun (key, v) => (f key, v)) =
      (insert name value entries).map fun (key, v) => (f key, v) := by
  induction entries with
  | nil => rfl
  | cons entry rest ih =>
      obtain ⟨key, v⟩ := entry
      have hkey : (f key == f name) = (key == name) := by
        rw [Bool.eq_iff_iff, beq_iff_eq, beq_iff_eq, hf.eq_iff]
      simp only [List.map_cons, insert, hkey]
      split_ifs
      · rfl
      · rw [ih, List.map_cons]

end Assoc

end QueryLoom
