/-!
Binary floating point numbers of 64 bits, as exact data: a number is a whole mantissa times a power
of two, and every operation is exact arithmetic on whole numbers followed by one rounding to the
nearest number, ties to the even mantissa. Nothing here uses the machine's own floating point, so
conversions and comparisons can be computed and reasoned about.
-/

namespace QueryLoom

/-- A floating point number. A finite one stands for `± mantissa · 2^exponent`. -/
inductive Binary64
  | nan
  | infinite (negative : Bool)
  | finite (negative : Bool) (mantissa : Nat) (exponent : Int)
deriving DecidableEq, Repr

/-- An exact fraction: `numerator / denominator`. -/
structure Fraction where
  numerator : Int
  denominator : Nat
deriving DecidableEq, Repr

def Fraction.same (a b : Fraction) : Bool :=
  a.numerator * b.denominator == b.numerator * a.denominator

def Fraction.less (a b : Fraction) : Bool :=
  a.numerator * b.denominator < b.numerator * a.denominator

def Fraction.truncate (a : Fraction) : Int := a.numerator.tdiv a.denominator

def Fraction.ceiling (a : Fraction) : Int := -((-a.numerator).fdiv a.denominator)

namespace Binary64

def leastExponent : Int := -1074

def greatestExponent : Int := 971

/-- One more than the greatest mantissa. -/
def mantissaBound : Nat := 1 <<< 53

def zero (negative : Bool) : Binary64 := .finite negative 0 leastExponent

/-- The whole part and the remainder of `num / (den · 2^exponent)`, with the divisor used. -/
def scaledDiv (num den : Nat) (exponent : Int) : Nat × Nat × Nat :=
  let dividend := num <<< (-exponent).toNat
  let divisor := den <<< exponent.toNat
  (dividend / divisor, dividend % divisor, divisor)

/-- The exponent at which a positive fraction has a mantissa of 53 bits, or the least one. -/
def exponentFor (num den : Nat) : Int :=
  let guess : Int := (num.log2 : Int) - den.log2 - 53
  let exact :=
    if (scaledDiv num den guess).1 < mantissaBound then guess else guess + 1
  max exact leastExponent

/-- The number nearest to a fraction; of two that are equally near, the one with the even mantissa.
Fractions beyond the greatest finite number become infinite. -/
def ofFraction (negative : Bool) (num den : Nat) : Binary64 :=
  if num == 0 then zero negative
  else
    let exponent := exponentFor num den
    let (quotient, remainder, divisor) := scaledDiv num den exponent
    let up := divisor < 2 * remainder || (2 * remainder == divisor && quotient % 2 == 1)
    let mantissa := if up then quotient + 1 else quotient
    let (mantissa, exponent) :=
      if mantissa == mantissaBound then (mantissaBound / 2, exponent + 1) else (mantissa, exponent)
    if greatestExponent < exponent then .infinite negative
    else .finite negative mantissa exponent

def ofInt (i : Int) : Binary64 := ofFraction (i < 0) i.natAbs 1

/-- The number nearest to `± coefficient · 10^exponent`. Powers that are far out of range are not
computed. -/
def ofDecimal (negative : Bool) (coefficient : Nat) (exponent : Int) : Binary64 :=
  let magnitude : Int := (Nat.toDigits 10 coefficient).length + exponent
  if coefficient == 0 || magnitude < -400 then zero negative
  else if 400 < magnitude then .infinite negative
  else ofFraction negative (coefficient * Nat.pow 10 exponent.toNat) (Nat.pow 10 (-exponent).toNat)

def fraction? : Binary64 → Option Fraction
  | .finite negative mantissa exponent =>
      let top := Int.ofNat (mantissa <<< exponent.toNat)
      some ⟨if negative then -top else top, 1 <<< (-exponent).toNat⟩
  | _ => none

def isNegative : Binary64 → Bool
  | .nan => false
  | .infinite negative | .finite negative _ _ => negative

/-- The nearest number to a quotient. A quotient of two infinite numbers, or by zero, is not a
number. -/
def div (a b : Binary64) : Binary64 :=
  let negative := a.isNegative != b.isNegative
  match a.fraction?, b.fraction? with
  | some x, some y =>
      if y.numerator == 0 then .nan
      else
        ofFraction negative (x.numerator.natAbs * y.denominator)
          (x.denominator * y.numerator.natAbs)
  | none, some _ => if a == .nan then .nan else .infinite negative
  | some _, none => if b == .nan then .nan else zero negative
  | none, none => .nan

/-- Whether the number counts as false: zero of either sign. -/
def isZero : Binary64 → Bool
  | .finite _ mantissa _ => mantissa == 0
  | _ => false

/-- Numeric equality: not a number differs from everything, the two zeros are equal. -/
def same : Binary64 → Binary64 → Bool
  | .infinite a, .infinite b => a == b
  | a, b =>
      match a.fraction?, b.fraction? with
      | some x, some y => x.same y
      | _, _ => false

end Binary64

end QueryLoom
