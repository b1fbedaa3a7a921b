import QueryLoom.Fault
import QueryLoom.Value.Equality

/-!
The order of numbers of any kind. Not a number stands in no order to anything: among floating point
numbers a comparison with it fails, and one that a decimal takes part in is an invalid operation.
-/

namespace QueryLoom

/-- The order of two fractions with positive denominators. -/
def Fraction.compare (a b : Fraction) : Ordering :=
  if a.less b then .lt else if b.less a then .gt else .eq

/-- The order of two quantities, if they have one. -/
def Quantity.compare? : Quantity → Quantity → Option Ordering
  | .exact a, .exact b => some (a.compare b)
  | .infinite true, .infinite true | .infinite false, .infinite false => some .eq
  | .infinite true, .infinite false => some .lt
  | .infinite false, .infinite true => some .gt
  | .infinite isNegative, .exact _ => some (if isNegative then .lt else .gt)
  | .exact _, .infinite isNegative => some (if isNegative then .gt else .lt)
  | _, _ => none

namespace Value

def isDecimal : Value → Bool
  | .decimal _ => true
  | _ => false

/-- Whether two numbers stand in an order that `accepts`. -/
def inOrder (accepts : Ordering → Bool) (a b : Value) : Except Fault Bool :=
  match a.quantity?, b.quantity? with
  | some x, some y =>
      match x.compare? y with
      | some order => .ok (accepts order)
      | none => if a.isDecimal || b.isDecimal then .error .invalidOperation else .ok false
  | _, _ => .error .wrongKind

def less (a b : Value) : Except Fault Bool := inOrder (· == .lt) a b

def atMost (a b : Value) : Except Fault Bool := inOrder (· != .gt) a b

end Value

end QueryLoom
