import QueryLoom.Fault
import QueryLoom.Value.Equality

/-!
Conversions between kinds of values. A value has a text unless a number in it is too long. Numbers may
be given as texts, a dictionary as a sequence of pairs, and the parameters of a raw value as either of
the two.
-/

namespace QueryLoom.Value

/-- Fails for a value that has no text. -/
def checkText (v : Value) : Except Fault Unit := if v.hasText then .ok () else .error .badValue

/-- The bare text of a value, if it has one. -/
def toText (v : Value) : Except Fault String :=
  if v.hasText then .ok v.plain else .error .badValue

/-- The items of a value that can be gone through: keys of a dictionary, characters of a text. -/
def iterate? : Value → Option (List Value)
  | .list items => some items
  | .dict entries => some (entries.map Prod.fst)
  | .str s => some (s.toList.map fun c => .str (String.singleton c))
  | .bytes octets => some (octets.map fun o => .int o.toNat)
  | _ => none

/-- A pair, given as any two items. -/
def pair (v : Value) : Except Fault (Value × Value) :=
  match v.iterate? with
  | some [key, value] => if key.isHashable then .ok (key, value) else .error .wrongKind
  | some _ => .error .badValue
  | none => .error .wrongKind

/-- A dictionary, given as one or as a sequence of pairs. -/
def toDict (v : Value) : Except Fault Dict :=
  match v with
  | .dict entries => .ok entries
  | v =>
      match v.iterate? with
      | some items => do return Assoc.ofList (← items.mapM pair)
      | none => .error .wrongKind

/-- A dictionary, or an empty one for a value that counts as false. -/
def toDictOrEmpty (v : Value) : Except Fault Dict := if v.truthy then v.toDict else .ok []

/-- A raw value of a text and its parameters. -/
def makeRaw (sql parameters : Value) : Except Fault Value :=
  match sql with
  | .str sql => do return .raw sql (← parameters.toDictOrEmpty)
  | _ => .error .wrongKind

/-- The characters of octets that are read as a number. -/
def octetChars (octets : List UInt8) : List Char := octets.map fun o => Char.ofNat o.toNat

/-- A value as a whole number: digits after the point are dropped, texts are read. Infinite numbers
are too large, and values that are not numbers have no whole part. -/
def toWhole : Value → Except Fault Int
  | .int i => .ok i
  | .bool b => .ok (if b then 1 else 0)
  | .float x =>
      match x with
      | .nan => .error .badValue
      | .infinite _ => .error .overflow
      | x => (x.fraction?.map Fraction.truncate).elim (.error .badValue) .ok
  | .decimal d =>
      match d with
      | .infinite _ => .error .overflow
      | d => (d.fraction?.map Fraction.truncate).elim (.error .badValue) .ok
  | .str s => (Reading.whole? s).elim (.error .badValue) .ok
  | .bytes octets => (Reading.wholeOfAscii? (octetChars octets)).elim (.error .badValue) .ok
  | _ => .error .wrongKind

/-- A value as a floating point number. A whole number that is too large has none. -/
def toBinary64 : Value → Except Fault Binary64
  | .int i =>
      match Binary64.ofInt i with
      | .infinite _ => .error .overflow
      | x => .ok x
  | .bool b => .ok (.ofInt (if b then 1 else 0))
  | .float x => .ok x
  | .decimal d => d.toBinary64?.elim (.error .badValue) .ok
  | .str s => (Reading.binary64? s).elim (.error .badValue) .ok
  | .bytes octets => (Reading.binary64OfAscii? (octetChars octets)).elim (.error .badValue) .ok
  | _ => .error .wrongKind

end QueryLoom.Value
