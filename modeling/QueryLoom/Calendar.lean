/-!
Calendar dates, times of day and their combination. A time may carry its distance from universal
time; two times that carry one are compared as instants, and a time with a distance never equals one
without.
-/

namespace QueryLoom

structure Date where
  year : Nat
  month : Nat
  day : Nat
deriving DecidableEq, Repr

/-- A time of day; `offset` is the distance from universal time in microseconds. -/
structure Clock where
  hour : Nat
  minute : Nat
  second : Nat
  microsecond : Nat
  offset : Option Int
deriving DecidableEq, Repr

structure Moment where
  date : Date
  clock : Clock
deriving DecidableEq, Repr

def paddedNumber (width n : Nat) : String :=
  let digits := Nat.toDigits 10 n
  String.ofList (List.replicate (width - digits.length) '0' ++ digits)

private def microseconds (hours minutes seconds micro : Nat) : Nat :=
  ((hours * 60 + minutes) * 60 + seconds) * 1000000 + micro

namespace Date

/-- The text `2024-01-31`. -/
def text (d : Date) : String :=
  paddedNumber 4 d.year ++ "-" ++ paddedNumber 2 d.month ++ "-" ++ paddedNumber 2 d.day

/-- Days since the first of March of the year zero. -/
def dayNumber (d : Date) : Int :=
  let year : Int := if d.month ≤ 2 then d.year - 1 else d.year
  let month := if d.month ≤ 2 then d.month + 9 else d.month - 3
  365 * year + year.fdiv 4 - year.fdiv 100 + year.fdiv 400 + (153 * month + 2) / 5 + d.day - 1

def constructorText (d : Date) : String :=
  "datetime.date(" ++ toString d.year ++ ", " ++ toString d.month ++ ", " ++ toString d.day ++ ")"

end Date

namespace Clock

/-- The part of a time below the minute: nothing, or seconds with their microseconds. -/
private def subMinuteText (second microsecond : Nat) : String :=
  ":" ++ paddedNumber 2 second ++
    (if microsecond == 0 then "" else "." ++ paddedNumber 6 microsecond)

/-- The text `+02:00` of a distance from universal time. -/
def offsetText (offset : Int) : String :=
  let sign := if offset < 0 then "-" else "+"
  let size := offset.natAbs
  let micro := size % 1000000
  let seconds := size / 1000000
  let minutes := seconds / 60
  sign ++ paddedNumber 2 (minutes / 60) ++ ":" ++ paddedNumber 2 (minutes % 60) ++
    (if seconds % 60 == 0 && micro == 0 then "" else subMinuteText (seconds % 60) micro)

/-- The text `12:30:00`, with microseconds and distance where they are present. -/
def text (c : Clock) : String :=
  paddedNumber 2 c.hour ++ ":" ++ paddedNumber 2 c.minute ++
    subMinuteText c.second c.microsecond ++ (c.offset.map offsetText).getD ""

/-- Microseconds since midnight, in universal time if the distance is known. -/
def instant (c : Clock) : Int :=
  microseconds c.hour c.minute c.second c.microsecond - c.offset.getD 0

/-- Equality as instants; times of which one lacks its distance differ. -/
def same (a b : Clock) : Bool := a.offset.isSome == b.offset.isSome && a.instant == b.instant

private def offsetConstructorText (offset : Int) : String :=
  if offset == 0 then "datetime.timezone.utc"
  else
    let day : Int := 86400000000
    let days := offset.fdiv day
    let rest := (offset.fmod day).toNat
    let parts :=
      (if days == 0 then [] else ["days=" ++ toString days]) ++
      (if rest / 1000000 == 0 then [] else ["seconds=" ++ toString (rest / 1000000)]) ++
      (if rest % 1000000 == 0 then [] else ["microseconds=" ++ toString (rest % 1000000)])
    "datetime.timezone(datetime.timedelta(" ++ ", ".intercalate parts ++ "))"

def constructorArguments (c : Clock) : List String :=
  [toString c.hour, toString c.minute] ++
    (if c.microsecond != 0 then [toString c.second, toString c.microsecond]
      else if c.second != 0 then [toString c.second] else []) ++
    (c.offset.map fun o => "tzinfo=" ++ offsetConstructorText o).toList

def constructorText (c : Clock) : String :=
  "datetime.time(" ++ ", ".intercalate c.constructorArguments ++ ")"

end Clock

namespace Moment

def text (between : String) (m : Moment) : String := m.date.text ++ between ++ m.clock.text

/-- Equality as instants; moments of which one lacks its distance differ. -/
def same (a b : Moment) : Bool :=
  a.clock.offset.isSome == b.clock.offset.isSome &&
    a.date.dayNumber * 86400000000 + a.clock.instant ==
      b.date.dayNumber * 86400000000 + b.clock.instant

def constructorText (m : Moment) : String :=
  "datetime.datetime(" ++ ", ".intercalate
    ([toString m.date.year, toString m.date.month, toString m.date.day] ++
      m.clock.constructorArguments) ++ ")"

end Moment

/-! Reading the texts back. -/

private def number? (cs : List Char) : Option Nat :=
  if !cs.isEmpty && cs.all Char.isDigit then
    some (cs.foldl (fun n c => 10 * n + (c.toNat - 48)) 0)
  else none

private def pieces (separator : Char) : List Char → List (List Char)
  | [] => [[]]
  | c :: rest =>
      match pieces separator rest with
      | [] => [[c]]
      | first :: more => if c == separator then [] :: first :: more else (c :: first) :: more

def Date.ofText? (s : String) : Option Date :=
  match pieces '-' s.toList with
  | [y, m, d] => do return ⟨← number? y, ← number? m, ← number? d⟩
  | _ => none

/-- Seconds and microseconds of the text `05.000600`. -/
private def secondsOf? (cs : List Char) : Option (Nat × Nat) :=
  match pieces '.' cs with
  | [s] => do return (← number? s, 0)
  | [s, f] => do
      return (← number? s, ← number? ((f ++ List.replicate (6 - f.length) '0').take 6))
  | _ => none

private def clockParts? (cs : List Char) : Option (Nat × Nat × Nat × Nat) :=
  match pieces ':' cs with
  | [h, m] => do return (← number? h, ← number? m, 0, 0)
  | [h, m, s] => do
      let (second, micro) ← secondsOf? s
      return (← number? h, ← number? m, second, micro)
  | _ => none

private def offsetOf? : List Char → Option (Option Int)
  | [] => some none
  | 'Z' :: [] => some (some 0)
  | sign :: rest => do
      let (h, m, s, f) ← clockParts? rest
      let size : Int := microseconds h m s f
      return some (if sign == '-' then -size else size)

def Clock.ofText? (s : String) : Option Clock := do
  let isTimeChar (c : Char) : Bool := c.isDigit || c == ':' || c == '.'
  let (hour, minute, second, micro) ← clockParts? (s.toList.takeWhile isTimeChar)
  return ⟨hour, minute, second, micro, ← offsetOf? (s.toList.dropWhile isTimeChar)⟩

def Moment.ofText? (s : String) : Option Moment :=
  match pieces 'T' s.toList with
  | [d, t] => do return ⟨← Date.ofText? (String.ofList d), ← Clock.ofText? (String.ofList t)⟩
  | _ => none

end QueryLoom
