import QueryLoom.Key.Scan
import QueryLoom.Sql.Piece

/-!
Raw SQL fragments. A fragment is copied as it is, except that `<name>` and `<table.name>` outside
quotes stand for quoted identifiers. Directly after one of the words FROM, TABLE, INTO, UPDATE and
JOIN a bare name is a table, otherwise a column.
-/

namespace QueryLoom.Fragment

open Text

/-- A part of a fragment: a character to copy, or an identifier to quote. -/
inductive Part
  | verbatim (c : Char)
  | table (name : String)
  | column (name : String)
  | qualified (table column : String)
deriving DecidableEq, Repr

/-- The words after which a bare name is a table. -/
def tableKeywords : List String := ["FROM", "TABLE", "INTO", "UPDATE", "JOIN"]

/-- The characters of a word before a placeholder: letters and the underscore. -/
def isKeywordChar (c : Char) : Bool := c.isAlpha || c == '_'

/-- Whether the text before a placeholder, nearest character first, ends in a table keyword. -/
def followsTableKeyword (before : List Char) : Bool :=
  let word := ((before.dropWhile isBlank).takeWhile isKeywordChar).reverse
  tableKeywords.contains (String.ofList (word.map Char.toUpper))

/-- Reads the inside of a placeholder and its closing bracket. -/
def takePlaceholder? (cs : List Char) : Option (Key.Path × List Char) :=
  match Key.takePath? cs with
  | some (path, '>' :: rest) => some (path, rest)
  | _ => none

/-- A placeholder takes at least its closing bracket. -/
theorem length_takePlaceholder {cs rest : List Char} {path : Key.Path}
    (h : takePlaceholder? cs = some (path, rest)) : rest.length < cs.length := by
  unfold takePlaceholder? at h
  split at h
  · rename_i taken
    have bound := Key.length_takePath? taken
    simp only [Option.some.injEq, Prod.mk.injEq] at h
    rw [List.length_cons, h.2] at bound
    omega
  · simp at h

def placeholderPart (before : List Char) (path : Key.Path) : Part :=
  match path.table with
  | some table => .qualified table path.column
  | none => if followsTableKeyword before then .table path.column else .column path.column

def isQuote (c : Char) : Bool := c == '\'' || c == '"' || c == '`'

/-- The parts of a text. `before` is the text read so far, nearest character first, and `quote` the
quote that is open. -/
def parts (before : List Char) (quote : Option Char) : List Char → List Part
  | [] => []
  | c :: rest =>
      match quote with
      | some q =>
          .verbatim c :: parts (c :: before) (if c == q then none else some q) rest
      | none =>
          if isQuote c then .verbatim c :: parts (c :: before) (some c) rest
          else if c == '<' then
            match h : takePlaceholder? rest with
            | some (path, after) =>
                have := length_takePlaceholder h
                placeholderPart before path :: parts ['>'] none after
            | none => .verbatim c :: parts (c :: before) none rest
          else .verbatim c :: parts (c :: before) none rest
termination_by cs => cs.length

def text (tablePrefix : String) : Part → String
  | .verbatim c => String.singleton c
  | .table name => quotedIdentifier (tablePrefix ++ name)
  | .column name => quotedIdentifier name
  | .qualified table column =>
      quotedIdentifier (tablePrefix ++ table) ++ "." ++ quotedIdentifier column

/-- The text of a fragment with its placeholders expanded. -/
def expand (tablePrefix sql : String) : String :=
  String.join ((parts [] none sql.toList).map (text tablePrefix))

end QueryLoom.Fragment
