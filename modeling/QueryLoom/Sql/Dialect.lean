import QueryLoom.Sql.Piece
import QueryLoom.Text.Quoted
import QueryLoom.Value.Convert

/-!
The dialects of SQL: the operators that differ between them, how a column is ordered by a list of
values, and how a value is written as a literal. Identifiers stand between double quotes in all of
them.
-/

namespace QueryLoom

inductive Dialect
  | sqlite | postgres | mysql
deriving DecidableEq, Repr

namespace Dialect

def all : List Dialect := [.sqlite, .postgres, .mysql]

def name : Dialect → String
  | .sqlite => "sqlite"
  | .postgres => "postgres"
  | .mysql => "mysql"

/-- The operator of pattern matching that ignores the case of letters. -/
def likeOperator : Dialect → String
  | .postgres => "ILIKE"
  | .sqlite | .mysql => "LIKE"

def regexpOperator : Dialect → String
  | .postgres => "~"
  | .sqlite | .mysql => "REGEXP"

def randomFunction : Dialect → String
  | .mysql => "RAND()"
  | .sqlite | .postgres => "RANDOM()"

/-- Whether a backslash escapes the next character of a string literal. -/
def backslashEscapes : Dialect → Bool
  | .mysql => true
  | .sqlite | .postgres => false

/-- The content of a string literal: quotes are doubled, and backslashes too where they escape. -/
def literalContent (d : Dialect) (s : String) : List Char :=
  let cs := if d.backslashEscapes then doubled '\\' s.toList else s.toList
  doubled '\'' cs

def stringLiteral (d : Dialect) (s : String) : String :=
  String.ofList ('\'' :: d.literalContent s ++ ['\''])

/-- The text of a literal. Numbers stand as they are, octets in hexadecimal, and everything else as a
string literal of its plain text. -/
def literalText (d : Dialect) : Value → String
  | .null => "NULL"
  | .bool b => if b then "1" else "0"
  | .int i => toString i
  | .float x => x.text
  | .decimal x => x.text
  | .bytes octets =>
      "X'" ++ String.join (octets.map fun o => Text.hexadecimal 2 o.toNat) ++ "'"
  | v => d.stringLiteral v.plain

/-- A value as a literal, if it has a text. -/
def literal (d : Dialect) (v : Value) : Except Fault String :=
  if v.hasText then .ok (d.literalText v) else .error .badValue

/-- The pairs of a literal and its rank, from one on. -/
def ranked (rank : Nat) : List String → List Sql
  | [] => []
  | l :: rest =>
      [.text "WHEN ", .literal l, .text (" THEN " ++ toString rank)] :: ranked (rank + 1) rest

/-- The expression that ranks a column by a list of literals; values that are not listed come
first. -/
def customOrder (d : Dialect) (column : Sql) (literals : List String) : Sql :=
  match d with
  | .mysql =>
      [.text "FIELD("] ++ column ++ [.text ", "] ++
        Sql.join ", " (literals.map fun l => [.literal l]) ++ [.text ")"]
  | .sqlite | .postgres =>
      [.text "CASE "] ++ column ++ [.text " "] ++ Sql.join " " (ranked 1 literals) ++
        [.text " ELSE 0 END"]

end Dialect

end QueryLoom
