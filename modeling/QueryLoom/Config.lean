import QueryLoom.Key.Scan
import QueryLoom.Sql.Registry
import QueryLoom.Text.Encoding
import QueryLoom.Value.Convert

/-!
The configuration of a database: which dialect statements are compiled to, which prefix the names of
tables receive, and how many statements the history keeps. Options are given by name. A value of a
neighbouring kind is taken if nothing is lost: a whole number may come as a text, a truth value as a
word. All options that are unknown or have a value they cannot take are reported together.
-/

namespace QueryLoom

structure Config where
  dialect : String
  tablePrefix : String
  logging : Bool
  logSize : Int

namespace Config

/-- The options with their defaults, in the order in which they are reported. -/
def optionNames : List String := ["type", "prefix", "logging", "log_size"]

/-- A text, or the text that octets encode. -/
def text? : Value → Option String
  | .str s => some s
  | .bytes octets => (Text.decodeUtf8 (octets.map UInt8.toNat)).map String.ofList
  | _ => none

def dialect? (registry : Registry) : Value → Option String
  | .str s => some (registry.resolve s)
  | v => text? v

/-- A prefix: letters, digits and underscores. -/
def tablePrefix? (v : Value) : Option String :=
  (text? v).filter fun s => s.toList.all Key.isNameChar

def trueWords : List String := ["1", "on", "t", "true", "y", "yes"]

def falseWords : List String := ["0", "off", "f", "false", "n", "no"]

/-- A truth value, one of its words in any letter case, or zero or one. -/
def flag? (v : Value) : Option Bool :=
  match v with
  | .bool b => some b
  | .int _ | .float _ | .decimal _ =>
      if v == .int 0 then some false else if v == .int 1 then some true else none
  | v =>
      (text? v).bind fun s =>
        let word := String.ofList (s.toList.map Char.toLower)
        if trueWords.contains word then some true
        else if falseWords.contains word then some false
        else none

/-- Drops a point and the zeros after it. -/
def withoutZeroPlaces (cs : List Char) : List Char :=
  match cs.dropWhile (· != '.') with
  | _ :: places => if places.all (· == '0') then cs.takeWhile (· != '.') else cs
  | [] => cs

/-- The blanks around a number in an option. -/
def isOptionBlank (c : Char) : Bool := Text.isBlank c && !(28 ≤ c.toNat && c.toNat ≤ 31)

/-- A whole number, possibly given as a text or as a number whose digits after the point are
zeros. -/
def whole? (v : Value) : Option Int :=
  match v with
  | .int i => some i
  | .bool b => some (if b then 1 else 0)
  | .float x =>
      x.fraction?.bind fun f =>
        if f.numerator % f.denominator == 0 then some f.truncate else none
  | .decimal d => if d.isWhole then d.fraction?.map Fraction.truncate else none
  | v =>
      (text? v).bind fun s =>
        let cs := Text.trimWhile isOptionBlank s.toList
        if cs.all fun c => 32 < c.toNat && c.toNat < 127 then
          Reading.wholeOfAscii? (withoutZeroPlaces cs)
        else none

/-- A size of the history, of at least one statement. -/
def size? (v : Value) : Option Int := (whole? v).filter fun i => 1 ≤ i

def optionOr {α : Type} (options : Dict) (name : String) (default : α) (read : Value → Option α) :
    Option α :=
  match Dict.get? options name with
  | none => some default
  | some v => read v

def ofOptions (registry : Registry) (options : Dict) : Except Fault Config :=
  if !options.all fun (key, _) => (match key with | .str _ => true | _ => false) then
    .error .wrongKind
  else
    let unknown := (options.map fun (key, _) => key.plain).filter (!optionNames.contains ·)
    let dialect := optionOr options "type" "mysql" (dialect? registry)
    let tablePrefix := optionOr options "prefix" "" tablePrefix?
    let logging := optionOr options "logging" false flag?
    let logSize := optionOr options "log_size" 100 size?
    match dialect, tablePrefix, logging, logSize, unknown with
    | some dialect, some tablePrefix, some logging, some logSize, [] =>
        .ok ⟨dialect, tablePrefix, logging, logSize⟩
    | _, _, _, _, unknown =>
        let invalid := (optionNames.zip
          [dialect.isNone, tablePrefix.isNone, logging.isNone, logSize.isNone]).filterMap
            fun (name, isInvalid) => if isInvalid then some name else none
        .error (.invalidConfig (invalid ++ unknown))

end Config

end QueryLoom
