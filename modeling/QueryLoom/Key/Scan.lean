import QueryLoom.Fault
import QueryLoom.Text.Blank
import QueryLoom.Text.LetterCase

/-!
The pieces that all key grammars share: names, dotted names, brackets and an alias in parentheses.
Each piece takes what it needs from the front of the text and returns the rest.
-/

namespace QueryLoom.Key

open Text

/-- The characters of names: ASCII letters, digits and the underscore. -/
def isNameChar (c : Char) : Bool := c.isAlphanum || c == '_'

def isName (s : String) : Bool := !s.toList.isEmpty && s.toList.all isNameChar

/-- The longest run of name characters, and the rest. -/
def takeName (cs : List Char) : String × List Char :=
  (String.ofList (cs.takeWhile isNameChar), cs.dropWhile isNameChar)

theorem length_takeName (cs : List Char) : (takeName cs).2.length ≤ cs.length :=
  (List.dropWhile_sublist isNameChar).length_le

def skipBlanks (cs : List Char) : List Char := cs.dropWhile isBlank

structure Path where
  table : Option String
  column : String
deriving DecidableEq, Repr

def Path.text (p : Path) : String :=
  match p.table with
  | some t => t ++ "." ++ p.column
  | none => p.column

/-- Reads `name` or `name.name`. A dot that no name follows is left in the text. -/
def takePath? (cs : List Char) : Option (Path × List Char) :=
  let (first, rest) := takeName cs
  if first.isEmpty then none
  else
    match rest with
    | '.' :: more =>
        let (second, after) := takeName more
        if second.isEmpty then some (⟨none, first⟩, rest) else some (⟨some first, second⟩, after)
    | _ => some (⟨none, first⟩, rest)

theorem length_takePath? {cs rest : List Char} {path : Path}
    (h : takePath? cs = some (path, rest)) : rest.length ≤ cs.length := by
  have first := length_takeName cs
  unfold takePath? at h
  generalize takeName cs = taken at h first
  obtain ⟨name, after⟩ := taken
  dsimp only at h first
  split at h
  · simp at h
  · split at h
    · rename_i more
      have second := length_takeName more
      rw [List.length_cons] at first
      split at h <;> simp only [Option.some.injEq, Prod.mk.injEq] at h
      · exact h.2 ▸ first
      · have := h.2 ▸ second
        omega
    · simp only [Option.some.injEq, Prod.mk.injEq] at h
      exact h.2 ▸ first

/-- Reads `[…]` up to the first closing bracket; nothing is read if no bracket opens. -/
def takeBracketed : List Char → Except Reason (Option String × List Char)
  | '[' :: rest =>
      match rest.dropWhile (· != ']') with
      | _ :: after => .ok (some (String.ofList (rest.takeWhile (· != ']'))), after)
      | [] => .error .unterminatedBracket
  | rest => .ok (none, rest)

/-- Reads `(name)`; nothing is read if no parenthesis opens. -/
def takeAlias : List Char → Except Reason (Option String × List Char)
  | '(' :: rest =>
      let (name, after) := takeName rest
      match after with
      | ')' :: more =>
          if name.isEmpty then .error .expectedAliasInParentheses else .ok (some name, more)
      | _ => .error .expectedAliasInParentheses
  | rest => .ok (none, rest)

/-- Accepts the end of the text only. -/
def expectEnd : List Char → Except Reason Unit
  | [] => .ok ()
  | rest => .error (.trailingText (String.ofList rest))

/-- The result of a grammar, or its reason wrapped as a fault. -/
def orFault {α : Type} (fault : Reason → Fault) : Except Reason α → Except Fault α
  | .ok a => .ok a
  | .error reason => .error (fault reason)

end QueryLoom.Key
