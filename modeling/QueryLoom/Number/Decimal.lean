import QueryLoom.Number.Binary64
import QueryLoom.Number.Reading

/-!
Decimal numbers that keep their places, so that `1.50` is written `1.50`. Besides finite numbers
there are the infinities and two kinds of values that are not numbers: a quiet one, and a signalling
one that no comparison and no conversion accepts.
-/

namespace QueryLoom

/-- A decimal number. A finite one stands for `± coefficient · 10^exponent`; a value that is not a
number may carry a payload other than zero. -/
inductive Decimal
  | finite (negative : Bool) (coefficient : Nat) (exponent : Int)
  | infinite (negative : Bool)
  | notANumber (negative signalling : Bool) (payload : Nat)
deriving DecidableEq, Repr

namespace Decimal

def signText (negative : Bool) : String := if negative then "-" else ""

/-- The text of a number: positional when the exponent is not positive and at most six zeros follow
the point, otherwise with an exponent. -/
def text : Decimal → String
  | .infinite negative => signText negative ++ "Infinity"
  | .notANumber negative signalling payload =>
      signText negative ++ (if signalling then "sNaN" else "NaN") ++
        (if payload == 0 then "" else toString payload)
  | .finite negative coefficient exponent =>
      let digits := Nat.toDigits 10 coefficient
      let size : Int := digits.length
      let point := exponent + size
      let body :=
        if exponent ≤ 0 && -6 < point then
          if point ≤ 0 then "0." ++ String.ofList (List.replicate (-point).toNat '0' ++ digits)
          else if point == size then String.ofList digits
          else String.ofList (digits.take point.toNat ++ '.' :: digits.drop point.toNat)
        else
          let head :=
            match digits with
            | [single] => [single]
            | first :: more => first :: '.' :: more
            | [] => []
          let power := point - 1
          String.ofList head ++ (if power < 0 then "E-" else "E+") ++ toString power.natAbs
      signText negative ++ body

private def payload? (digits : List Char) : Option Nat :=
  if digits.all Char.isDigit then some (Reading.digitsValue digits) else none

def ofText? (s : String) : Option Decimal := do
  let (negative, body) := Reading.takeSign s.toList
  match body with
  | 'I' :: 'n' :: 'f' :: 'i' :: 'n' :: 'i' :: 't' :: 'y' :: [] => some (.infinite negative)
  | 'N' :: 'a' :: 'N' :: payload => (payload? payload).map (.notANumber negative false)
  | 's' :: 'N' :: 'a' :: 'N' :: payload => (payload? payload).map (.notANumber negative true)
  | _ =>
      let (coefficient, power) ← Reading.decimalNotation? body
      some (.finite negative coefficient power)

def fraction? : Decimal → Option Fraction
  | .finite negative coefficient exponent =>
      let top := Int.ofNat (coefficient * Nat.pow 10 exponent.toNat)
      some ⟨if negative then -top else top, Nat.pow 10 (-exponent).toNat⟩
  | _ => none

def isZero : Decimal → Bool
  | .finite _ coefficient _ => coefficient == 0
  | _ => false

def isSignalling : Decimal → Bool
  | .notANumber _ signalling _ => signalling
  | _ => false

/-- The nearest floating point number; a signalling value has none. -/
def toBinary64? : Decimal → Option Binary64
  | .finite negative coefficient exponent => some (.ofDecimal negative coefficient exponent)
  | .infinite negative => some (.infinite negative)
  | .notANumber _ signalling _ => if signalling then none else some .nan

/-- Whether the number is finite and has no digits after the point, those that are zero apart. -/
def isWhole (d : Decimal) : Bool :=
  match d.fraction? with
  | some f => f.numerator % f.denominator == 0
  | none => false

end Decimal

end QueryLoom
