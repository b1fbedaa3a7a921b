import QueryLoom.Columns.Tree
import QueryLoom.Journal
import QueryLoom.Json.Reader
import QueryLoom.Value.Convert
import QueryLoom.Value.Display

/-!
Coercion: a value that a database returned is turned into the type its column is declared to have. A
value that cannot be turned into its type is kept, with a note in the journal, so that one bad value
does not spoil a result. Null stays null for every type. Two values are beyond that: a whole number that
is too large for a floating point number, and a JSON text that is nested deeper than the stack reaches.
-/

namespace QueryLoom

/-- A step of mapping results, which may add to the journal and may fail. -/
abbrev Mapping := ExceptT Fault (StateM Journal)

namespace Coercion

def report (note : Note) : Mapping Unit := modify (· ++ [note])

/-- Keeps a value that does not fit its type, with a warning. -/
def keep (v : Value) (type : ValueType) (column : String) : Mapping Value := do
  report ⟨.warning, .mapper, "Column '" ++ column ++ "' value " ++ v.shown ++
    " is not a valid " ++ type.name ++ "; keeping the raw value"⟩
  return v

/-- Whether a value counts as true: a text or octets if they are neither empty nor a zero. -/
def toBool : Value → Bool
  | .str s => s != "" && s != "0"
  | .bytes octets => octets != [] && octets != [48]
  | v => v.truthy

/-- A value as a whole number, if need be by way of a floating point number. -/
def toInt? (v : Value) : Option Int :=
  match v.toWhole with
  | .ok i => some i
  | .error _ =>
      match v.toBinary64 with
      | .ok x => x.fraction?.map Fraction.truncate
      | .error _ => none

/-- A value as a floating point number. A whole number that is too large is a fault; any other value
that is no number is kept. -/
def toNumber (v : Value) (column : String) : Mapping Value :=
  match v.toBinary64 with
  | .ok x => pure (.float x)
  | .error .overflow => throw .overflow
  | .error _ => keep v .number column

/-- The value of a JSON text; a text that is no JSON is kept, with a note. -/
def toJson (nesting : Nat) (v : Value) (column : String) : Mapping Value := do
  let parsed ←
    match v with
    | .str s => pure (Json.read nesting s)
    | .bytes octets => pure (Json.readOctets nesting octets)
    | v => pure (.ok v)
  match parsed with
  | .ok result => return result
  | .error .tooDeep => throw .tooDeep
  | .error _ =>
      report ⟨.debug, .mapper, "Column '" ++ column ++
        "' holds invalid JSON; keeping the raw value"⟩
      return v

/-- A value as one of a type; `nesting` bounds the containers of a JSON text. -/
def coerce (nesting : Nat) (type : ValueType) (column : String) (v : Value) : Mapping Value :=
  match v, type with
  | .null, _ => pure .null
  | v, .string => pure v
  | v, .bool => pure (.bool (toBool v))
  | v, .int =>
      match toInt? v with
      | some i => pure (.int i)
      | none => keep v .int column
  | v, .number => toNumber v column
  | v, .object | v, .json => toJson nesting v column

end Coercion

end QueryLoom
