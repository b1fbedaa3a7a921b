/-!
SQL text as a row of lexical pieces. A compiled statement is such a row, so that what is a name, what
is a placeholder and what is copied text stays visible until the text itself is asked for.
-/

namespace QueryLoom

inductive Piece
  /-- Keywords, punctuation, numbers and calls of functions. -/
  | text (s : String)
  /-- An identifier, given without its quotes. -/
  | name (s : String)
  /-- A placeholder for the parameter of that name. -/
  | param (name : String)
  /-- The text of a literal. -/
  | literal (s : String)
  /-- Text that the caller vouches for. -/
  | fragment (s : String)
deriving DecidableEq, Repr

/-- A row of pieces. -/
abbrev Sql := List Piece

def doubled (c : Char) (cs : List Char) : List Char :=
  cs.flatMap fun x => if x == c then [c, c] else [x]

/-- An identifier between double quotes; a double quote inside it is doubled. -/
def quotedIdentifier (name : String) : String :=
  String.ofList ('"' :: doubled '"' name.toList ++ ['"'])

def placeholderToken (name : String) : String := ":" ++ name

def Piece.toText : Piece → String
  | .text s => s
  | .name s => quotedIdentifier s
  | .param p => placeholderToken p
  | .literal s => s
  | .fragment s => s

namespace Sql

def text (sql : Sql) : String := String.join (sql.map Piece.toText)

/-- The names of the placeholders, in order. -/
def params (sql : Sql) : List String :=
  sql.filterMap fun
    | .param p => some p
    | _ => none

/-- Rows of pieces with a text between each two. -/
def join (between : String) : List Sql → Sql
  | [] => []
  | [last] => last
  | first :: rest => first ++ .text between :: join between rest

end Sql

instance : Coe String Piece := ⟨.text⟩

end QueryLoom
