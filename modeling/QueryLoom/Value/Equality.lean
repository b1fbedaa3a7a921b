import QueryLoom.Value.Assoc
import QueryLoom.Value.Basic

/-!
Equality of values. Numbers are equal when they denote the same number, whatever their kind, so
`true`, `1` and `1.0` are one key; a raw value equals nothing, not even another with the same text;
dictionaries are equal regardless of order. Comparing a signalling decimal with a number is an
invalid operation.
-/

namespace QueryLoom

/-- What a numeric value denotes. -/
inductive Quantity
  | exact (value : Fraction)
  | infinite (negative : Bool)
  | undefined
  | signalling

namespace Quantity

def ofBinary64 : Binary64 → Quantity
  | .nan => .undefined
  | .infinite negative => .infinite negative
  | x =>
      match x.fraction? with
      | some f => .exact f
      | none => .undefined

def ofDecimal : Decimal → Quantity
  | .infinite negative => .infinite negative
  | .notANumber _ isSignalling _ => if isSignalling then .signalling else .undefined
  | d =>
      match d.fraction? with
      | some f => .exact f
      | none => .undefined

/-- Numeric equality; `none` when a signalling value takes part. -/
def equal? : Quantity → Quantity → Option Bool
  | .signalling, _ | _, .signalling => none
  | .exact a, .exact b => some (a.same b)
  | .infinite a, .infinite b => some (a == b)
  | _, _ => some false

end Quantity

namespace Value

/-- What a value denotes as a number. -/
def quantity? : Value → Option Quantity
  | .bool b => some (.exact ⟨if b then 1 else 0, 1⟩)
  | .int i => some (.exact ⟨i, 1⟩)
  | .float x => some (.ofBinary64 x)
  | .decimal d => some (.ofDecimal d)
  | _ => none

/-- Equality of values that hold no other values. -/
def equalLeaf? (a b : Value) : Option Bool :=
  match a.quantity?, b.quantity? with
  | some x, some y => x.equal? y
  | _, _ =>
      some <|
        match a, b with
        | .null, .null => true
        | .str s, .str t => s == t
        | .bytes s, .bytes t => s == t
        | .date s, .date t => s == t
        | .moment s, .moment t => s.same t
        | .clock s, .clock t => s.same t
        | _, _ => false

mutual

/-- Equality of two values; `none` when a signalling decimal is compared with a number. -/
def equal? : Value → Value → Option Bool
  | .list xs, .list ys => if xs.length == ys.length then equalItems? xs ys else some false
  | .dict es, .dict fs => if es.length == fs.length then equalEntries? es fs else some false
  | a, b => equalLeaf? a b
termination_by structural a => a

/-- Equality item by item, up to the first difference. -/
def equalItems? : List Value → List Value → Option Bool
  | x :: xs, y :: ys =>
      match equal? x y with
      | some true => equalItems? xs ys
      | other => other
  | _, _ => some true
termination_by structural xs => xs

/-- Whether every entry of the first dictionary stands in the second. -/
def equalEntries? : List (Value × Value) → List (Value × Value) → Option Bool
  | [], _ => some true
  | (k, v) :: rest, fs =>
      match fs.find? fun (key, _) => equal? k key == some true with
      | none => some false
      | some (_, w) =>
          match equal? v w with
          | some true => equalEntries? rest fs
          | other => other
termination_by structural es => es

end

/-- Equality of values as keys. -/
instance : BEq Value := ⟨fun a b => equal? a b == some true⟩

end Value

namespace Dict

def get? (entries : Dict) (key : String) : Option Value := Assoc.get? (.str key) entries

/-- The value under a text key, null if there is none. -/
def getD (entries : Dict) (key : String) : Value := (get? entries key).getD .null

end Dict

end QueryLoom
