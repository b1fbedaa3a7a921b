import QueryLoom.Number.Binary64

/-!
The shortest decimal text of a floating point number: the fewest digits that read back as the same
number, and of those the nearest to it. Texts are positional from 0.0001 to below 10^16 and carry at
least one digit after the point; otherwise they have an exponent of at least two digits.
-/

namespace QueryLoom

/-- Decimal digits with the place of the point: `0.d₁d₂… · 10^point`. -/
structure PointedDigits where
  digits : List Char
  point : Int
deriving DecidableEq, Repr

namespace Binary64

/-- The interval of exact values that are rounded to a number, all three over one denominator. -/
structure Rounding where
  low : Nat
  value : Nat
  high : Nat
  denominator : Nat
  ends : Bool

/-- The values that are rounded to `mantissa · 2^exponent`: half a unit to each side, a quarter
below a power of two; the ends belong to it when the mantissa is even. -/
def rounding (mantissa : Nat) (exponent : Int) : Rounding :=
  let scale := 1 <<< (exponent - 2).toNat
  let below := if mantissa == mantissaBound / 2 && leastExponent < exponent then 1 else 2
  ⟨(4 * mantissa - below) * scale, 4 * mantissa * scale, (4 * mantissa + 2) * scale,
    1 <<< (2 - exponent).toNat, mantissa % 2 == 0⟩

/-- The least `point` with `value / denominator < 10^point`. -/
def pointOf (value denominator : Nat) : Int :=
  let guess : Int := (((value.log2 : Int) - denominator.log2) * 30103).fdiv 100000
  let isAbove (point : Int) : Bool :=
    value * Nat.pow 10 (-point).toNat < denominator * Nat.pow 10 point.toNat
  ([guess - 1, guess, guess + 1].find? isAbove).getD (guess + 2)

/-- The nearest text of `count` digits that is rounded to the number, if there is one. -/
def nearestOfLength (r : Rounding) (point : Int) (count : Nat) : Option Nat :=
  let shift := count - point
  let up := Nat.pow 10 shift.toNat
  let down := Nat.pow 10 (-shift).toNat
  let unit := r.denominator * down
  let floor := r.value * up / unit
  let inside (n : Nat) : Bool :=
    if r.ends then r.low * up ≤ n * unit && n * unit ≤ r.high * up
    else r.low * up < n * unit && n * unit < r.high * up
  let rest := r.value * up % unit
  let preferred :=
    if 2 * rest < unit || (2 * rest == unit && floor % 2 == 0) then floor else floor + 1
  [preferred, floor, floor + 1].find? inside

/-- The shortest digits of a positive finite number. Seventeen digits always suffice. -/
def shortestDigits (mantissa : Nat) (exponent : Int) : PointedDigits :=
  let r := rounding mantissa exponent
  let point := pointOf r.value r.denominator
  let found := (List.range 17).findSome? fun i =>
    (nearestOfLength r point (i + 1)).map fun n => (n, i + 1)
  let (n, count) := found.getD (0, 1)
  let digits := Nat.toDigits 10 n
  ⟨(digits.reverse.dropWhile (· == '0')).reverse, point + digits.length - count⟩

/-- Digits written with a point, or with an exponent when the point is far away. -/
def PointedDigits.text (d : PointedDigits) : String :=
  let size : Int := d.digits.length
  let zeros (n : Int) : List Char := List.replicate n.toNat '0'
  if -4 < d.point && d.point ≤ 16 then
    String.ofList <|
      if d.point ≤ 0 then '0' :: '.' :: zeros (-d.point) ++ d.digits
      else if size ≤ d.point then d.digits ++ zeros (d.point - size) ++ ['.', '0']
      else d.digits.take d.point.toNat ++ '.' :: d.digits.drop d.point.toNat
  else
    let power := d.point - 1
    let head := String.ofList <|
      match d.digits with
      | [] => []
      | [single] => [single]
      | first :: more => first :: '.' :: more
    let sign := if power < 0 then "e-" else "e+"
    let width := if power.natAbs < 10 then "0" else ""
    head ++ sign ++ width ++ toString power.natAbs

def text : Binary64 → String
  | .nan => "nan"
  | .infinite negative => if negative then "-inf" else "inf"
  | .finite negative mantissa exponent =>
      let sign := if negative then "-" else ""
      if mantissa == 0 then sign ++ "0.0"
      else sign ++ PointedDigits.text (shortestDigits mantissa exponent)

end Binary64

end QueryLoom
