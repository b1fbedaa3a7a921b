import Mathlib.Tactic.Common
import QueryLoom.Sql.Binding
import QueryLoom.Sql.Dialect

/-!
Values and their texts. A value is without a text exactly if a whole number in it has more digits than
can be read again. Where the texts of several values are wanted, they are all there, or the step fails;
so it is with a statement whose values are written into it.
-/

namespace QueryLoom

section Steps

variable {α β ε : Type}

theorem Except.ok_bind (a : α) (k : α → Except ε β) : (Except.ok a >>= k) = k a := rfl

/-- A step that fails in one way only, taken for each item in turn. -/
theorem Except.mapM_ite (p : α → Bool) (g : α → β) (e : ε) (items : List α) :
    (items.mapM fun a => if p a then (Except.ok (g a) : Except ε β) else .error e) =
      if items.all p then (Except.ok (items.map g) : Except ε (List β)) else .error e := by
  induction items with
  | nil => rfl
  | cons first rest ih =>
      rw [List.mapM_cons, ih, List.all_cons]
      cases hfirst : p first with
      | false => rfl
      | true => cases hrest : rest.all p <;> rfl

/-- A step that succeeds for each item. -/
theorem Except.mapM_eq_ok {f : α → Except ε β} {g : α → β} {items : List α}
    (h : ∀ a ∈ items, f a = .ok (g a)) : items.mapM f = .ok (items.map g) := by
  induction items with
  | nil => rfl
  | cons first rest ih =>
      obtain ⟨hfirst, hrest⟩ := List.forall_mem_cons.mp h
      rw [List.mapM_cons, hfirst, ih hrest]
      rfl

end Steps

namespace Value

variable {v : Value} {i : Int}

/-- A number is written if it has few enough digits. -/
theorem isWritten_of_lt {digits : Nat} (hpos : 0 < digits) (hdigits : digits ≤ Reading.digitLimit)
    (h : i.natAbs < Nat.pow 10 digits) : isWritten i = true :=
  decide_eq_true (Nat.le_trans ((Nat.length_toDigits_le_iff (by decide) hpos).mpr h) hdigits)

/-- A number is not written if it has too many digits. -/
theorem not_isWritten_of_le {digits : Nat} (hdigits : Reading.digitLimit ≤ digits)
    (h : Nat.pow 10 digits ≤ i.natAbs) : isWritten i = false := by
  rw [isWritten, decide_eq_false_iff_not, Nat.not_le]
  refine Nat.lt_of_le_of_lt hdigits (Nat.lt_of_not_le fun hle => ?_)
  have hpos : 0 < digits := Nat.lt_of_lt_of_le (by decide) hdigits
  have hlt := (Nat.length_toDigits_le_iff (b := 10) (by decide) hpos).mp hle
  exact absurd hlt (Nat.not_lt.mpr h)

theorem hasText_list {items : List Value} :
    (Value.list items).hasText = true ↔ ∀ v ∈ items, v.hasText = true := by
  induction items with
  | nil => simp [hasText, itemsHaveText]
  | cons v rest ih =>
      rw [List.forall_mem_cons, ← ih, ← Bool.and_eq_true]
      rfl

/-- Octets are short enough to be written. -/
theorem hasText_octets (octets : List UInt8) :
    ∀ v ∈ octets.map fun o => Value.int o.toNat, v.hasText = true :=
  List.forall_mem_map.mpr fun o _ =>
    have hsize : o.toNat < Nat.pow 10 3 := Nat.lt_trans o.toNat_lt (by decide)
    isWritten_of_lt (by decide) (by decide) hsize

theorem entriesHaveText_iff {entries : List (Value × Value)} :
    entriesHaveText entries = true ↔
      ∀ entry ∈ entries, entry.1.hasText = true ∧ entry.2.hasText = true := by
  induction entries with
  | nil => simp [entriesHaveText]
  | cons entry rest ih =>
      rw [List.forall_mem_cons, ← ih, ← Bool.and_eq_true, ← Bool.and_eq_true]
      rfl

theorem hasText_dict {entries : Dict} : (Value.dict entries).hasText = true ↔
    ∀ entry ∈ entries, entry.1.hasText = true ∧ entry.2.hasText = true :=
  entriesHaveText_iff

theorem hasText_raw {sql : String} {parameters : Dict} :
    (Value.raw sql parameters).hasText = true ↔
      ∀ entry ∈ parameters, entry.1.hasText = true ∧ entry.2.hasText = true :=
  entriesHaveText_iff

theorem checkText_of_hasText (h : v.hasText = true) : v.checkText = .ok () := if_pos h

theorem checkText_eq_ok {x : Unit} : v.checkText = .ok x ↔ v.hasText = true := by
  unfold checkText
  split_ifs with h <;> simp [h]

theorem toText_of_hasText (h : v.hasText = true) : v.toText = .ok v.plain := if_pos h

theorem toText_eq_ok {s : String} : v.toText = .ok s ↔ v.hasText = true ∧ s = v.plain := by
  unfold toText
  split_ifs with h <;> simp [h, eq_comm]

end Value

/-- A fault that is not told apart from another one is that one. -/
theorem Fault.eq_of_showing {v : Value} {f g : Fault} (h : Fault.showing v f = g)
    (hg : g ≠ .badValue) : f = g := by
  unfold showing at h
  split_ifs at h with htext
  · exact h
  · exact absurd h.symm hg

namespace Dialect

variable {d : Dialect} {v : Value} {values : List Value}

theorem literal_of_hasText (h : v.hasText = true) : d.literal v = .ok (d.literalText v) := if_pos h

theorem mapM_literal (d : Dialect) (values : List Value) :
    values.mapM d.literal =
      if values.all Value.hasText then .ok (values.map d.literalText) else .error .badValue :=
  Except.mapM_ite Value.hasText d.literalText Fault.badValue values

theorem mapM_literal_eq_ok {literals : List String} :
    values.mapM d.literal = .ok literals ↔
      (∀ v ∈ values, v.hasText = true) ∧ literals = values.map d.literalText := by
  rw [mapM_literal, ← List.all_eq_true]
  split_ifs with h <;> simp [h, eq_comm]

end Dialect

namespace Binding

/-- A stretch of a statement as it stands when values are written in. -/
def Part.written (text : Value → String) : Part → String
  | .text cs => String.ofList cs
  | .bound _ value => text value

/-- Whether the value of a stretch has a text. -/
def Part.hasText : Part → Bool
  | .text _ => true
  | .bound _ value => value.hasText

variable {backslash : Bool} {params : Dict} {sql : String} {render : Value → Except Fault String}
  {text : Value → String} {d : Dialect}

theorem mem_values {ps : List Part} {name : String} {v : Value} :
    (name, v) ∈ values ps ↔ .bound name v ∈ ps := by
  induction ps with
  | nil => simp [values]
  | cons p rest ih => cases p <;> simp [values, ih]

/-- A statement whose values are all rendered. -/
theorem inline_of_rendered
    (h : ∀ found ∈ values (parts backslash params sql), render found.2 = .ok (text found.2)) :
    inline sql params render backslash =
      .ok (String.join ((parts backslash params sql).map (Part.written text))) := by
  have hparts : ∀ p ∈ parts backslash params sql, p.rendered render = .ok (p.written text) := by
    intro p hp
    cases p with
    | text cs => rfl
    | bound name v => exact h (name, v) (mem_values.mpr hp)
  rw [inline, Except.mapM_eq_ok hparts]
  rfl

theorem all_hasText_eq (ps : List Part) :
    ps.all Part.hasText = (values ps).all fun found => found.2.hasText := by
  induction ps with
  | nil => rfl
  | cons p rest ih =>
      cases p with
      | text cs => exact ih
      | bound name v => exact congrArg (v.hasText && ·) ih

/-- The values of a statement are written in as literals if they all have texts. -/
theorem inline_literal :
    inline sql params d.literal backslash =
      if (values (parts backslash params sql)).all fun found => found.2.hasText then
        .ok (String.join ((parts backslash params sql).map (Part.written d.literalText)))
      else .error .badValue := by
  have hparts : Part.rendered d.literal = fun p =>
      if p.hasText then .ok (p.written d.literalText) else .error .badValue := by
    funext p
    cases p <;> rfl
  rw [inline, hparts, Except.mapM_ite, ← all_hasText_eq]
  split_ifs <;> rfl

end Binding

end QueryLoom
