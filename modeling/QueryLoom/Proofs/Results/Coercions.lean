import QueryLoom.Proofs.Json.Nesting
import QueryLoom.Proofs.Numbers.Overflow
import QueryLoom.Proofs.Results.Chunks
import QueryLoom.Proofs.Results.Wildcards

/-!
What becomes of a value that is coerced to a declared type. Every value either can be represented as one
of the type, and then becomes it without a note, or it cannot, and then it stays as it is and one note
names its column. Two values are refused: a whole number that is too large for a floating point number,
where a number is declared, and a JSON text that is nested deeper than the stack has room for, where JSON
is. No other cell keeps a result from being mapped.
-/

namespace QueryLoom

open Mapping

/-- The step ends in a result and adds notes to the journal, whatever the journal holds before it. -/
def Mapping.Leaves {α : Type} (m : Mapping α) (r : Except Fault α) (notes : Journal) : Prop :=
  ∀ journal, (ExceptT.run m).run journal = (r, journal ++ notes)

theorem Mapping.Leaves.endsIn {α : Type} {m : Mapping α} {r : Except Fault α} {notes : Journal}
    (h : m.Leaves r notes) : m.EndsIn r :=
  fun journal => congrArg Prod.fst (h journal)

namespace Value

/-- Whether a value is a whole number that rounding leads beyond all floating point numbers. -/
def TooLarge : Value → Prop
  | .int i => Binary64.overflowThreshold ≤ i.natAbs
  | _ => False

/-- Whether a value is a text whose reading as JSON is given up for want of room. -/
def TooDeep (nesting : Nat) : Value → Prop
  | .str s => Json.read nesting s = .error .tooDeep
  | .bytes o => Json.readOctets nesting o = .error .tooDeep
  | _ => False

/-- The characters of a text, or of octets that encode one. -/
def characters? : Value → Option (List Char)
  | .str s => some s.toList
  | .bytes o => Text.decodeDetected (o.map UInt8.toNat)
  | _ => none

/-- A text that is too deep opens more containers than there is room for. -/
theorem TooDeep.openings {nesting : Nat} {v : Value} (h : v.TooDeep nesting) :
    ∃ cs, v.characters? = some cs ∧ nesting < Json.openings cs := by
  cases v with
  | str s => exact ⟨s.toList, rfl, Json.openings_of_read h⟩
  | bytes o => exact Json.openings_of_readOctets h
  | _ => cases h

end Value

namespace Coercion

variable {nesting : Nat} {v w : Value} {type : ValueType} {column : String}

/-! Values as values of a type. -/

/-- The whole number that a value stands for. Digits after the point are dropped, also those of a text
that is no whole number but reads as a finite floating point number. -/
inductive IsWhole : Value → Int → Prop
  | bool (b : Bool) : IsWhole (.bool b) (if b then 1 else 0)
  | int (i : Int) : IsWhole (.int i) i
  | float {x : Binary64} {f : Fraction} (h : x.fraction? = some f) : IsWhole (.float x) f.truncate
  | decimal {d : Decimal} {f : Fraction} (h : d.fraction? = some f) :
      IsWhole (.decimal d) f.truncate
  | text {s : String} {i : Int} (h : Reading.whole? s = some i) : IsWhole (.str s) i
  | floatText {s : String} {x : Binary64} {f : Fraction} (hwhole : Reading.whole? s = none)
      (hfloat : Reading.binary64? s = some x) (h : x.fraction? = some f) :
      IsWhole (.str s) f.truncate
  | octets {o : List UInt8} {i : Int} (h : Reading.wholeOfAscii? (Value.octetChars o) = some i) :
      IsWhole (.bytes o) i
  | floatOctets {o : List UInt8} {x : Binary64} {f : Fraction}
      (hwhole : Reading.wholeOfAscii? (Value.octetChars o) = none)
      (hfloat : Reading.binary64OfAscii? (Value.octetChars o) = some x)
      (h : x.fraction? = some f) : IsWhole (.bytes o) f.truncate

/-- The floating point number that a value stands for: the nearest one to a number in range, and the one
that a text reads as. -/
inductive IsNumber : Value → Binary64 → Prop
  | bool (b : Bool) : IsNumber (.bool b) (.ofInt (if b then 1 else 0))
  | int {i : Int} (h : i.natAbs < Binary64.overflowThreshold) : IsNumber (.int i) (.ofInt i)
  | float (x : Binary64) : IsNumber (.float x) x
  | decimal {d : Decimal} {x : Binary64} (h : d.toBinary64? = some x) : IsNumber (.decimal d) x
  | text {s : String} {x : Binary64} (h : Reading.binary64? s = some x) : IsNumber (.str s) x
  | octets {o : List UInt8} {x : Binary64}
      (h : Reading.binary64OfAscii? (Value.octetChars o) = some x) : IsNumber (.bytes o) x

/-- Whether a value is a text, as characters or as octets. -/
def isWritten : Value → Bool
  | .str _ | .bytes _ => true
  | _ => false

/-- What a JSON column holds: the value of a JSON text, whatever room it takes to read it, and any value
that is no text. -/
inductive IsJson : Value → Value → Prop
  | text {s : String} {w : Value} {room : Nat} (h : Json.read room s = .ok w) : IsJson (.str s) w
  | octets {o : List UInt8} {w : Value} {room : Nat} (h : Json.readOctets room o = .ok w) :
      IsJson (.bytes o) w
  | decoded {v : Value} (h : isWritten v = false) : IsJson v v

/-- What a value is as one of a type. Null is null in every type, and every value is its own text. -/
inductive Represents : ValueType → Value → Value → Prop
  | null (type : ValueType) : Represents type .null .null
  | string (v : Value) : Represents .string v v
  | bool {v : Value} (h : v ≠ .null) : Represents .bool v (.bool (toBool v))
  | int {v : Value} {i : Int} (h : IsWhole v i) : Represents .int v (.int i)
  | number {v : Value} {x : Binary64} (h : IsNumber v x) : Represents .number v (.float x)
  | object {v w : Value} (h : IsJson v w) : Represents .object v w
  | json {v w : Value} (h : IsJson v w) : Represents .json v w

/-- Whether a value is refused where a type is declared. -/
def Refused (nesting : Nat) : ValueType → Value → Prop
  | .number, v => v.TooLarge
  | .object, v | .json, v => v.TooDeep nesting
  | _, _ => False

/-! The conversions find what a value stands for, and nothing else. -/

theorem toInt?_float (x : Binary64) : toInt? (.float x) = x.fraction?.map Fraction.truncate := by
  cases x <;> rfl

theorem toInt?_decimal (d : Decimal) : toInt? (.decimal d) = d.fraction?.map Fraction.truncate := by
  cases d with
  | finite negative coefficient exponent => rfl
  | infinite negative => rfl
  | notANumber negative signalling payload => cases signalling <;> rfl

/-- A text is read as a whole number first, and as a floating point number only after that. -/
theorem toInt?_str (s : String) : toInt? (.str s) =
    (Reading.whole? s).or ((Reading.binary64? s).bind fun x => x.fraction?.map Fraction.truncate) := by
  rw [toInt?, Value.toWhole, Value.toBinary64]
  cases Reading.whole? s with
  | some i => rfl
  | none => cases Reading.binary64? s <;> rfl

theorem toInt?_bytes (o : List UInt8) : toInt? (.bytes o) =
    (Reading.wholeOfAscii? (Value.octetChars o)).or
      ((Reading.binary64OfAscii? (Value.octetChars o)).bind fun x =>
        x.fraction?.map Fraction.truncate) := by
  rw [toInt?, Value.toWhole, Value.toBinary64]
  cases Reading.wholeOfAscii? (Value.octetChars o) with
  | some i => rfl
  | none => cases Reading.binary64OfAscii? (Value.octetChars o) <;> rfl

theorem toInt?_of_isWhole {i : Int} (h : IsWhole v i) : toInt? v = some i := by
  cases h with
  | bool b => rfl
  | int i => rfl
  | float h => rw [toInt?_float, h, Option.map_some]
  | decimal h => rw [toInt?_decimal, h, Option.map_some]
  | text h => rw [toInt?_str, h, Option.some_or]
  | floatText hwhole hfloat h =>
      rw [toInt?_str, hwhole, hfloat, Option.none_or, Option.bind_some, h, Option.map_some]
  | octets h => rw [toInt?_bytes, h, Option.some_or]
  | floatOctets hwhole hfloat h =>
      rw [toInt?_bytes, hwhole, hfloat, Option.none_or, Option.bind_some, h, Option.map_some]

theorem isWhole_of_toInt? {i : Int} (h : toInt? v = some i) : IsWhole v i := by
  cases v with
  | bool b =>
      obtain rfl : (if b then 1 else 0) = i := Option.some.inj h
      exact .bool b
  | int j =>
      obtain rfl : j = i := Option.some.inj h
      exact .int j
  | float x =>
      rw [toInt?_float, Option.map_eq_some_iff] at h
      obtain ⟨f, hf, rfl⟩ := h
      exact .float hf
  | decimal d =>
      rw [toInt?_decimal, Option.map_eq_some_iff] at h
      obtain ⟨f, hf, rfl⟩ := h
      exact .decimal hf
  | str s =>
      rw [toInt?_str, Option.or_eq_some_iff] at h
      obtain hwhole | ⟨hwhole, h⟩ := h
      · exact .text hwhole
      · obtain ⟨x, hfloat, h⟩ := Option.bind_eq_some_iff.mp h
        obtain ⟨f, hf, rfl⟩ := Option.map_eq_some_iff.mp h
        exact .floatText hwhole hfloat hf
  | bytes o =>
      rw [toInt?_bytes, Option.or_eq_some_iff] at h
      obtain hwhole | ⟨hwhole, h⟩ := h
      · exact .octets hwhole
      · obtain ⟨x, hfloat, h⟩ := Option.bind_eq_some_iff.mp h
        obtain ⟨f, hf, rfl⟩ := Option.map_eq_some_iff.mp h
        exact .floatOctets hwhole hfloat hf
  | _ => cases h

theorem toBinary64_int (i : Int) : (Value.int i).toBinary64 =
    if Binary64.overflowThreshold ≤ i.natAbs then .error .overflow else .ok (.ofInt i) := by
  have hiff := Binary64.ofInt_infinite_iff i
  rw [Value.toBinary64]
  split
  · next sign h => rw [if_pos (hiff.mp ⟨sign, h⟩)]
  · next h =>
      rw [if_neg]
      intro hle
      obtain ⟨sign, hsign⟩ := hiff.mpr hle
      exact h sign hsign

theorem toBinary64_of_isNumber {x : Binary64} (h : IsNumber v x) : v.toBinary64 = .ok x := by
  cases h with
  | bool b => rfl
  | int h => rw [toBinary64_int, if_neg (Nat.not_le.mpr h)]
  | float x => rfl
  | decimal h => rw [Value.toBinary64, h, Option.elim_some]
  | text h => rw [Value.toBinary64, h, Option.elim_some]
  | octets h => rw [Value.toBinary64, h, Option.elim_some]

/-- A value is read as a number, or it is too large, or it stands for no number. -/
theorem isNumber_of_toBinary64 {x : Binary64} (h : v.toBinary64 = .ok x) : IsNumber v x := by
  have helim : ∀ {o : Option Binary64}, o.elim (.error .badValue) .ok = (.ok x : Except Fault Binary64) →
      o = some x := by
    intro o ho
    cases o with
    | none => cases ho
    | some y => exact congrArg some (Except.ok.inj ho)
  cases v with
  | bool b =>
      obtain rfl := Except.ok.inj h
      exact .bool b
  | int i =>
      rw [toBinary64_int] at h
      split_ifs at h with hle
      obtain rfl := Except.ok.inj h
      exact .int (Nat.not_le.mp hle)
  | float y =>
      obtain rfl := Except.ok.inj h
      exact .float y
  | decimal d => exact .decimal (helim h)
  | str s => exact .text (helim h)
  | bytes o => exact .octets (helim h)
  | _ => cases h

theorem toBinary64_overflow_iff : v.toBinary64 = .error .overflow ↔ v.TooLarge := by
  have helim : ∀ {o : Option Binary64},
      o.elim (.error .badValue) .ok ≠ (.error .overflow : Except Fault Binary64) := by
    intro o ho
    cases o <;> cases ho
  cases v with
  | int i =>
      rw [toBinary64_int, Value.TooLarge]
      split_ifs with hle <;> simp [hle]
  | decimal d => exact ⟨fun h => helim h, False.elim⟩
  | str s => exact ⟨fun h => helim h, False.elim⟩
  | bytes o => exact ⟨fun h => helim h, False.elim⟩
  | _ => simp [Value.TooLarge, Value.toBinary64]

/-! Coercion. -/

/-- The level of the note on a value that does not fit its type. -/
def noteLevel : ValueType → Level
  | .object | .json => .debug
  | _ => .warning

/-- A note of the mapper that names a column. -/
def NotesColumn (column : String) (note : Note) : Prop :=
  note.reporter = .mapper ∧ ∃ rest, note.message = "Column '" ++ column ++ "'" ++ rest

theorem leaves_pure {α : Type} (a : α) : (Pure.pure a : Mapping α).Leaves (.ok a) [] :=
  fun journal => congrArg (Prod.mk _) (List.append_nil journal).symm

/-- A value that is kept with a warning. -/
theorem leaves_keep (v : Value) (type : ValueType) (column : String) :
    ∃ note, note.level = .warning ∧ NotesColumn column note ∧
      (keep v type column).Leaves (.ok v) [note] := by
  refine ⟨⟨.warning, .mapper, "Column '" ++ column ++ "' value " ++ v.shown ++
    " is not a valid " ++ type.name ++ "; keeping the raw value"⟩, rfl, ⟨rfl, ?_⟩, fun _ => rfl⟩
  refine ⟨" value " ++ v.shown ++ " is not a valid " ++ type.name ++ "; keeping the raw value", ?_⟩
  have hquote : "' value " = "'" ++ " value " := by decide
  simp only [hquote, String.append_assoc]

theorem coerce_null (type : ValueType) (column : String) : coerce nesting type column .null = pure .null := by
  cases type <;> rfl

theorem coerce_of_ne_null (type : ValueType) (column : String) (h : v ≠ .null) :
    coerce nesting type column v =
      match type with
      | .string => pure v
      | .bool => pure (.bool (toBool v))
      | .int =>
          match toInt? v with
          | some i => pure (.int i)
          | none => keep v .int column
      | .number => toNumber v column
      | .object | .json => toJson nesting v column := by
  cases v with
  | null => exact absurd rfl h
  | _ => cases type <;> rfl

/-- What a value is read as where JSON is declared. -/
def parsedJson (nesting : Nat) : Value → Except Fault Value
  | .str s => Json.read nesting s
  | .bytes o => Json.readOctets nesting o
  | v => .ok v

theorem toJson_eq (v : Value) (column : String) : toJson nesting v column =
    match parsedJson nesting v with
    | .ok w => pure w
    | .error .tooDeep => throw .tooDeep
    | .error _ => do
        report ⟨.debug, .mapper, "Column '" ++ column ++
          "' holds invalid JSON; keeping the raw value"⟩
        return v := by
  cases v <;> rfl

theorem tooDeep_iff : v.TooDeep nesting ↔ parsedJson nesting v = .error .tooDeep := by
  cases v <;> simp [Value.TooDeep, parsedJson]

theorem parsedJson_narrows {less more : Nat} (h : less ≤ more) (v : Value) :
    parsedJson less v = .error .tooDeep ∨ parsedJson less v = parsedJson more v := by
  cases v with
  | str s => exact Json.read_narrows h s
  | bytes o => exact Json.readOctets_narrows h o
  | _ => exact .inr rfl

theorem isJson_iff : IsJson v w ↔ ∃ room, parsedJson room v = .ok w := by
  constructor
  · intro h
    cases h with
    | text h => exact ⟨_, h⟩
    | octets h => exact ⟨_, h⟩
    | decoded h =>
        refine ⟨0, ?_⟩
        cases v with
        | str s => cases h
        | bytes o => cases h
        | _ => rfl
  · rintro ⟨room, h⟩
    cases v with
    | str s => exact .text h
    | bytes o => exact .octets h
    | _ =>
        obtain rfl := Except.ok.inj h
        exact .decoded rfl

/-- What a value is with any room it is with the room there is, unless this does not suffice. -/
theorem parsedJson_eq_ok_iff (hroom : ¬v.TooDeep nesting) :
    parsedJson nesting v = .ok w ↔ IsJson v w := by
  rw [isJson_iff]
  refine ⟨fun h => ⟨nesting, h⟩, ?_⟩
  rintro ⟨room, h⟩
  rcases Nat.le_total nesting room with hle | hle
  · obtain hdeep | hsame := parsedJson_narrows hle v
    · exact absurd (tooDeep_iff.mpr hdeep) hroom
    · exact hsame.trans h
  · obtain hdeep | hsame := parsedJson_narrows hle v
    · rw [h] at hdeep
      cases hdeep
    · exact hsame.symm.trans h

theorem leaves_toJson_of_isJson (column : String) (hroom : ¬v.TooDeep nesting) (h : IsJson v w) :
    (toJson nesting v column).Leaves (.ok w) [] := by
  rw [toJson_eq, (parsedJson_eq_ok_iff hroom).mpr h]
  exact leaves_pure w

theorem leaves_toJson_of_tooDeep (column : String) (h : v.TooDeep nesting) :
    (toJson nesting v column).Leaves (.error .tooDeep) [] := by
  rw [toJson_eq, tooDeep_iff.mp h]
  exact fun journal => congrArg (Prod.mk _) (List.append_nil journal).symm

theorem leaves_toJson_of_not (column : String) (hroom : ¬v.TooDeep nesting)
    (h : ∀ w, ¬IsJson v w) :
    ∃ note, note.level = .debug ∧ NotesColumn column note ∧
      (toJson nesting v column).Leaves (.ok v) [note] := by
  rw [toJson_eq]
  split
  · next w hparsed => exact absurd ((parsedJson_eq_ok_iff hroom).mp hparsed) (h w)
  · next hdeep => exact absurd (tooDeep_iff.mpr hdeep) hroom
  · refine ⟨⟨.debug, .mapper, "Column '" ++ column ++
      "' holds invalid JSON; keeping the raw value"⟩, rfl, ⟨rfl, ?_⟩, fun _ => rfl⟩
    refine ⟨" holds invalid JSON; keeping the raw value", ?_⟩
    have hquote : "' holds invalid JSON; keeping the raw value" =
        "'" ++ " holds invalid JSON; keeping the raw value" := by decide
    simp only [hquote, String.append_assoc]

/-- A value that can be represented as its type becomes what it is as one of the type. -/
theorem leaves_coerce_of_represents (column : String) (hfits : ¬Refused nesting type v)
    (h : Represents type v w) :
    (coerce nesting type column v).Leaves (.ok w) [] := by
  by_cases hnull : v = .null
  · subst hnull
    have hw : w = .null := by
      cases h with
      | null type => rfl
      | string v => rfl
      | bool h => exact absurd rfl h
      | int h => cases h
      | number h => cases h
      | object h => cases h; rfl
      | json h => cases h; rfl
    rw [coerce_null, hw]
    exact leaves_pure _
  · rw [coerce_of_ne_null type column hnull]
    cases h with
    | null type => exact absurd rfl hnull
    | string v => exact leaves_pure _
    | bool h => exact leaves_pure _
    | int h =>
        simp only [toInt?_of_isWhole h]
        exact leaves_pure _
    | number h =>
        simp only [toNumber, toBinary64_of_isNumber h]
        exact leaves_pure _
    | object h => exact leaves_toJson_of_isJson column hfits h
    | json h => exact leaves_toJson_of_isJson column hfits h

/-- A value that cannot be represented as its type is kept with one note, unless it is refused. -/
theorem leaves_coerce_of_not (column : String) (hfits : ¬Refused nesting type v)
    (h : ∀ w, ¬Represents type v w) :
    ∃ note, note.level = noteLevel type ∧ NotesColumn column note ∧
      (coerce nesting type column v).Leaves (.ok v) [note] := by
  have hnull : v ≠ .null := by
    rintro rfl
    exact h .null (.null type)
  rw [coerce_of_ne_null type column hnull]
  cases type with
  | string => exact absurd (.string v) (h v)
  | bool => exact absurd (.bool hnull) (h _)
  | int =>
      cases hwhole : toInt? v with
      | some i => exact absurd (.int (isWhole_of_toInt? hwhole)) (h _)
      | none => exact leaves_keep v .int column
  | number =>
      dsimp only
      rw [toNumber]
      split
      · next x hx => exact absurd (.number (isNumber_of_toBinary64 hx)) (h _)
      · next hoverflow => exact absurd (toBinary64_overflow_iff.mp hoverflow) hfits
      · exact leaves_keep v .number column
  | object => exact leaves_toJson_of_not column hfits fun w hw => h w (.object hw)
  | json => exact leaves_toJson_of_not column hfits fun w hw => h w (.json hw)

/-- A whole number that is too large is refused where a number is declared. -/
theorem leaves_coerce_of_tooLarge (column : String) (h : v.TooLarge) :
    (coerce nesting .number column v).Leaves (.error .overflow) [] := by
  have hnull : v ≠ .null := by
    rintro rfl
    exact h
  have hoverflow := toBinary64_overflow_iff.mpr h
  rw [coerce_of_ne_null .number column hnull]
  simp only [toNumber, hoverflow]
  exact fun journal => congrArg (Prod.mk _) (List.append_nil journal).symm

/-- A text that is nested too deeply is refused where JSON is declared. -/
theorem leaves_coerce_of_tooDeep (column : String) (htype : type = .object ∨ type = .json)
    (h : v.TooDeep nesting) : (coerce nesting type column v).Leaves (.error .tooDeep) [] := by
  have hnull : v ≠ .null := by
    rintro rfl
    exact h
  rw [coerce_of_ne_null type column hnull]
  obtain rfl | rfl := htype
  · exact leaves_toJson_of_tooDeep column h
  · exact leaves_toJson_of_tooDeep column h

theorem exists_coerce (column : String) (hfits : ¬Refused nesting type v) :
    ∃ w, (coerce nesting type column v).EndsIn (.ok w) := by
  by_cases h : ∃ w, Represents type v w
  · obtain ⟨w, hw⟩ := h
    exact ⟨w, (leaves_coerce_of_represents column hfits hw).endsIn⟩
  · obtain ⟨_, -, -, hkept⟩ := leaves_coerce_of_not column hfits (not_exists.mp h)
    exact ⟨v, hkept.endsIn⟩

end Coercion

/-! Results. -/

namespace Shape

open Coercion

variable {nesting : Nat} {tree : ColumnTree} {row : Row} {rows : List Row}

/-- Whether no cell of a row is refused where its type is declared. -/
def Fits (nesting : Nat) (tree : ColumnTree) (row : Row) : Prop :=
  ∀ label type, Assoc.get? label tree.labels = some type →
    ¬Refused nesting type (Dict.getD row label)

theorem exists_readLabel (h : Fits nesting tree row) (label : String) :
    ∃ w, (readLabel nesting tree.labels row label).EndsIn (.ok w) := by
  refine exists_coerce label ?_
  cases hlabel : Assoc.get? label tree.labels with
  | none => exact not_false
  | some type => exact h label type hlabel

/-- Rows without a cell that is refused are mapped, whatever else their cells hold. -/
theorem exists_mapRows_of_fits (hfits : ∀ row ∈ rows, Fits nesting tree row)
    (hindex : ∀ column, tree.indexColumn? = some column →
      ∀ row ∈ rows, (Dict.getD row column).isHashable = true) :
    ∃ result, (run (mapRows nesting tree rows)).1 = .ok result := by
  cases hsingle : tree.isSingle with
  | false =>
      refine exists_mapRows hsingle fun row hrow => ?_
      have hread : Readable nesting tree row :=
        fun ref _ => exists_readLabel (hfits row hrow) ref.outputName
      exact ⟨hread, fun column hcolumn => hindex column hcolumn row hrow⟩
  | true =>
      cases tree with
      | single ref =>
          obtain ⟨values, hvalues⟩ := Except.exists_mapM
            (f := fun row => (run (mapValue nesting (.single ref) row)).1) fun row hrow => by
              obtain ⟨w, hw⟩ := exists_readLabel (hfits row hrow) ref.outputName
              exact ⟨w, hw.run⟩
          have hrows : (mapRows nesting (.single ref) rows).EndsIn _ :=
            (endsIn_mapEach (decided_mapValue (.single ref)) rows).map (f := Value.list)
          rw [hvalues] at hrows
          exact ⟨_, hrows.run⟩
      | _ => cases hsingle

/-- For every declared type, column and value, and any room on the stack: null, and every value of a text
column, stays as it is. A whole number that is too large is refused where a number is declared, and a text
that is nested too deeply where JSON is; such a text opens more containers than there is room for. Of all
other values, one that can be represented as its type becomes what it is as one of the type, and nothing
is noted; one that cannot stays as it is, and one note names its column, a warning for numbers and a
remark for JSON. So rows are mapped by every column tree whatever their cells hold, as long as no cell is
refused and index values can be keys. -/
theorem coercion_never_aborts (nesting : Nat) (type : ValueType) (column : String) (v : Value) :
    (coerce nesting type column .null).Leaves (.ok .null) [] ∧
    (coerce nesting .string column v).Leaves (.ok v) [] ∧
    (v.TooLarge → (coerce nesting .number column v).Leaves (.error .overflow) []) ∧
    (v.TooDeep nesting →
      (type = .object ∨ type = .json →
        (coerce nesting type column v).Leaves (.error .tooDeep) []) ∧
      ∃ cs, v.characters? = some cs ∧ nesting < Json.openings cs) ∧
    (¬Refused nesting type v →
      (∃ w, Represents type v w ∧ (coerce nesting type column v).Leaves (.ok w) []) ∨
      ((∀ w, ¬Represents type v w) ∧ ∃ note, note.level = noteLevel type ∧
        NotesColumn column note ∧ (coerce nesting type column v).Leaves (.ok v) [note])) ∧
    ∀ tree rows, (∀ row ∈ rows, Fits nesting tree row) →
      (∀ column, tree.indexColumn? = some column →
        ∀ row ∈ rows, (Dict.getD row column).isHashable = true) →
      ∃ result, (run (mapRows nesting tree rows)).1 = .ok result := by
  refine ⟨?_, ?_, leaves_coerce_of_tooLarge column, fun hdeep => ?_, fun hfits => ?_,
    fun tree rows => exists_mapRows_of_fits⟩
  · rw [coerce_null]
    exact leaves_pure _
  · exact leaves_coerce_of_represents column not_false (.string v)
  · exact ⟨fun htype => leaves_coerce_of_tooDeep column htype hdeep, hdeep.openings⟩
  · by_cases h : ∃ w, Represents type v w
    · obtain ⟨w, hw⟩ := h
      exact .inl ⟨w, hw, leaves_coerce_of_represents column hfits hw⟩
    · exact .inr ⟨not_exists.mp h, leaves_coerce_of_not column hfits (not_exists.mp h)⟩

/-- A text that is no number and one that is no JSON are kept in their columns, and the rows around them
are mapped. -/
theorem coercion_never_aborts_of_text :
    ∃ (tree : ColumnTree) (rows : List Row),
      ColumnSpec.parse (.list [.str "id [Int]", .str "score [Number]", .str "doc [JSON]"]) =
        .ok tree ∧
      rows = [[(.str "id", .str "3.9"), (.str "score", .str "n/a"), (.str "doc", .str "[1")],
        [(.str "id", .int (2 ^ 1024)), (.str "score", .str " 4.5 "), (.str "doc", .str "[[]]")]] ∧
      (∃ note, note.level = .warning ∧ NotesColumn "score" note ∧
        (coerce Json.usualNesting .number "score" (.str "n/a")).Leaves (.ok (.str "n/a")) [note]) ∧
      ∃ result, (run (mapRows Json.usualNesting tree rows)).1 = .ok result := by
  let tree : ColumnTree := .columns [.field ⟨none, "id", none, some .int⟩,
    .field ⟨none, "score", none, some .number⟩, .field ⟨none, "doc", none, some .json⟩]
  have hfits : ∀ row s text, Dict.getD row "score" = .str s → Dict.getD row "doc" = .str text →
      Json.openings text.toList ≤ Json.usualNesting → Fits Json.usualNesting tree row := by
    intro row s text hscore hdoc hopenings label type h hrefused
    have hlabels : tree.labels = [("id", .int), ("score", .number), ("doc", .json)] := rfl
    rw [hlabels] at h
    simp only [Assoc.get?, beq_iff_eq] at h
    split_ifs at h with hid hscore' hdoc'
    · obtain rfl := Option.some.inj h
      exact hrefused
    · obtain rfl := Option.some.inj h
      rw [← hscore', hscore] at hrefused
      exact hrefused
    · obtain rfl := Option.some.inj h
      rw [← hdoc', hdoc] at hrefused
      exact Nat.not_lt.mpr hopenings (Json.openings_of_read hrefused)
  obtain ⟨-, -, -, -, hcell, hrows⟩ :=
    coercion_never_aborts Json.usualNesting .number "score" (.str "n/a")
  refine ⟨tree, _, rfl, rfl, ?_, ?_⟩
  · obtain ⟨w, hw, -⟩ | ⟨-, hkept⟩ := hcell not_false
    · have hread : Reading.binary64? "n/a" = none := rfl
      cases hw with
      | number h =>
          cases h with
          | text h =>
              rw [hread] at h
              cases h
    · exact hkept
  · apply hrows
    · intro row hrow
      simp only [List.mem_cons, List.not_mem_nil, or_false] at hrow
      obtain rfl | rfl := hrow
      · exact hfits _ "n/a" "[1" rfl rfl (by decide)
      · exact hfits _ " 4.5 " "[[]]" rfl rfl (by decide)
    · intro column hcolumn
      cases hcolumn

theorem tooLarge_two_pow : (Value.int (2 ^ 1024)).TooLarge := by
  have hshift : ∀ n m, 54 + n = m → ((1 <<< 54) - 1) <<< n ≤ ((2 : Int) ^ m).natAbs := by
    rintro n _ rfl
    have hbase : (2 : Int).natAbs = 2 := rfl
    rw [Int.natAbs_pow, hbase, Nat.shiftLeft_eq, Nat.pow_add]
    exact Nat.mul_le_mul_right _ (by decide)
  exact hshift 970 1024 rfl

/-- A whole number that is too large under a column of numbers aborts its result, and so does a text with
one bracket too many under a column of JSON. -/
theorem large_number_aborts_result :
    run (coerce Json.usualNesting .number "n" (.int (2 ^ 1024))) = (.error .overflow, []) ∧
    (∃ tree, ColumnSpec.parse (.list [.str "n [Number]"]) = .ok tree ∧
      (run (mapRows Json.usualNesting tree
        [[(.str "n", .int 1)], [(.str "n", .int (2 ^ 1024))]])).1 = .error .overflow) ∧
    run (coerce Json.usualNesting .json "n"
      (.str (String.ofList (List.replicate (Json.usualNesting + 1) '[')))) =
        (.error .tooDeep, []) := by
  have hcoerce : (coerce Json.usualNesting .number "n" (.int (2 ^ 1024))).Leaves
      (.error .overflow) [] := leaves_coerce_of_tooLarge "n" tooLarge_two_pow
  let tree : ColumnTree := .columns [.field ⟨none, "n", none, some .number⟩]
  have hfirst : (run (mapRow Json.usualNesting tree [(.str "n", .int 1)])).1 =
      .ok (.dict [(.str "n", .float (.ofInt 1))]) := rfl
  have hrow : ∀ v, (coerce Json.usualNesting .number "n" v).EndsIn (.error .overflow) →
      (mapRow Json.usualNesting tree [(.str "n", v)]).EndsIn (.error .overflow) :=
    fun v h => h.bind_error.bind_error.bind_error
  have hsecond := (hrow _ hcoerce.endsIn).run
  refine ⟨hcoerce [], ⟨tree, rfl, ?_⟩, ?_⟩
  · rw [(endsIn_rowsValue Json.usualNesting tree _).run, rowsValue, List.mapM_cons,
      List.mapM_cons, hfirst, hsecond]
    rfl
  · have hdeep : (Value.str (String.ofList
        (List.replicate (Json.usualNesting + 1) '['))).TooDeep Json.usualNesting :=
      Json.read_brackets Json.usualNesting 0
    exact leaves_coerce_of_tooDeep "n" (.inr rfl) hdeep []

end Shape

end QueryLoom
