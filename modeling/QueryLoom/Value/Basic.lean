import QueryLoom.Calendar
import QueryLoom.Number.Binary64
import QueryLoom.Number.Decimal

/-!
The values that specifications, bound parameters and result rows are made of. A specification is
itself such a value: keys of nested dictionaries carry columns and operators, and a raw value carries
SQL text that is trusted as it is, with the parameters it needs.
-/

namespace QueryLoom

/-- A dynamic value. Dictionaries keep their entries in order and hold every key once. -/
inductive Value
  | null
  | bool (b : Bool)
  | int (i : Int)
  | float (x : Binary64)
  | str (s : String)
  | list (items : List Value)
  | dict (entries : List (Value × Value))
  | raw (sql : String) (parameters : List (Value × Value))
  | decimal (d : Decimal)
  | bytes (octets : List UInt8)
  | date (d : Date)
  | moment (m : Moment)
  | clock (c : Clock)
deriving Inhabited

/-- The entries of a dictionary. -/
abbrev Dict := List (Value × Value)

/-- A row of a result: values under the names the database reports. -/
abbrev Row := Dict

namespace Value

instance : Coe String Value := ⟨.str⟩

/-- The name of the kind of a value, as messages give it. -/
def kindName : Value → String
  | .null => "NoneType"
  | .bool _ => "bool"
  | .int _ => "int"
  | .float _ => "float"
  | .str _ => "str"
  | .list _ => "list"
  | .dict _ => "dict"
  | .raw _ _ => "Raw"
  | .decimal _ => "Decimal"
  | .bytes _ => "bytes"
  | .date _ => "date"
  | .moment _ => "datetime"
  | .clock _ => "time"

/-- Whether a value counts as true: everything but null, zeros and empty texts and containers. -/
def truthy : Value → Bool
  | .null => false
  | .bool b => b
  | .int i => i != 0
  | .float x => !x.isZero
  | .str s => s != ""
  | .list items => !items.isEmpty
  | .dict entries => !entries.isEmpty
  | .decimal d => !d.isZero
  | .bytes octets => !octets.isEmpty
  | .raw _ _ | .date _ | .moment _ | .clock _ => true

def isDict : Value → Bool
  | .dict _ => true
  | _ => false

def isRaw : Value → Bool
  | .raw _ _ => true
  | _ => false

/-- A whole number, truth values included. -/
def integer? : Value → Option Int
  | .int i => some i
  | .bool b => some (if b then 1 else 0)
  | _ => none

/-- The items of a value that is iterated as a sequence of values; octets count as numbers. -/
def sequence? : Value → Option (List Value)
  | .list items => some items
  | .bytes octets => some (octets.map fun o => .int o.toNat)
  | _ => none

/-- Whether a value can be a key. -/
def isHashable : Value → Bool
  | .list _ | .dict _ => false
  | .decimal d => !d.isSignalling
  | _ => true

end Value

end QueryLoom
