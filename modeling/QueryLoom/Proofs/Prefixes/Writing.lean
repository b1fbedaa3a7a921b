import QueryLoom.Statement.Verb

/-!
A table prefix written into a call. The prefix is written before every name of a table, every name
that a table is given, and every qualifier of a column, wherever the arguments of a verb hold one.
Names of columns, the names that columns are given, and values are left as they are. How the calls of
functions in the keys of conditions are written is left open.
-/

namespace QueryLoom.Prefixed

open Key

/-! Texts. -/

/-- Whether a text begins with a name and a dot. -/
def qualifies (cs : List Char) : Bool :=
  !(cs.takeWhile isNameChar).isEmpty && (cs.dropWhile isNameChar).head? == some '.'

/-- What is written before a text: the prefix, if the text begins with a qualifier. -/
def mark (p cs : List Char) : List Char := if qualifies cs then p else []

/-- A path at the front of a text: blanks are left before it. -/
def path (p cs : List Char) : List Char :=
  cs.takeWhile Text.isBlank ++ (mark p (skipBlanks cs) ++ skipBlanks cs)

/-- What stands behind the first of a character, rewritten. -/
def behind (c : Char) (f : List Char → List Char) (cs : List Char) : List Char :=
  match cs.dropWhile (· != c) with
  | [] => cs
  | _ :: rest => cs.takeWhile (· != c) ++ c :: f rest

/-- A table that may be given another name: the prefix stands before both names. -/
def named (p cs : List Char) : List Char := p ++ behind '(' (p ++ ·) cs

def table (p cs : List Char) : List Char :=
  cs.takeWhile Text.isBlank ++ named p (skipBlanks cs)

/-- The table of a join stands behind the direction. -/
def joinKey (p cs : List Char) : List Char := behind ']' (named p) cs

/-- Both columns of a comparison, of which the second stands behind the operator. -/
def comparison (p cs : List Char) : List Char :=
  path p (behind ']' (fun rest => mark p rest ++ rest) cs)

/-- The prefix before every name that a dot follows; `inside` tells whether a name goes on. -/
def qualifiers (p : List Char) (inside : Bool) : List Char → List Char
  | [] => []
  | c :: rest =>
      (if !inside && qualifies (c :: rest) then p ++ [c] else [c]) ++
        qualifiers p (isNameChar c) rest

/-- Whether the key of a condition holds the call of a function. -/
def holdsCall (cs : List Char) : Bool :=
  (cs.takeWhile isConditionChar).contains '(' || (cs.takeWhile isConditionChar).contains ')'

/-- The key of a condition: the call of a function as it is said to be written, or a path. -/
def conditionKey (p : List Char) (call : List Char → List Char) (cs : List Char) : List Char :=
  if holdsCall cs then call (cs.takeWhile isConditionChar) ++ cs.dropWhile isConditionChar
  else path p cs

/-! Values. -/

/-- A text is rewritten, any other value stays. -/
def onText (f : List Char → List Char) : Value → Value
  | .str s => .str (String.ofList (f s.toList))
  | v => v

/-- The value of a column that may be qualified. -/
def column (p : List Char) : Value → Value := onText (path p)

/-- The keys of written data. -/
def data (p : List Char) : Value → Value
  | .dict entries => .dict (entries.map fun (key, v) => (column p key, v))
  | v => v

def rows (p : List Char) : Value → Value
  | .list items => .list (items.map (data p))
  | v => data p v

mutual

/-- The columns in a specification; keys of groups stay. -/
def columns (p : List Char) : Value → Value
  | .str s => column p (.str s)
  | .list items => .list (columnItems p items)
  | .dict entries => .dict (columnEntries p entries)
  | v => v
termination_by structural v => v

def columnItems (p : List Char) : List Value → List Value
  | [] => []
  | v :: rest => columns p v :: columnItems p rest
termination_by structural vs => vs

def columnEntries (p : List Char) : List (Value × Value) → List (Value × Value)
  | [] => []
  | (key, v) :: rest => (key, columns p v) :: columnEntries p rest
termination_by structural es => es

end

/-- A specification. The key of an index is a column. -/
def specification (p : List Char) : Value → Value
  | .dict [(key, .list items)] => .dict [(column p key, columns p (.list items))]
  | .dict [(key, .dict entries)] => .dict [(column p key, columns p (.dict entries))]
  | v => columns p v

/-- The relation of a join: the columns on the left may be qualified. -/
def relation (p : List Char) : Value → Value
  | .dict entries => .dict (entries.map fun (left, right) => (column p left, right))
  | v => v

def joins (p : List Char) : Value → Value
  | .dict entries => .dict (entries.map fun (key, v) => (onText (joinKey p) key, relation p v))
  | v => v

mutual

/-- The keys of conditions, and the comparisons in lists and under numbers. -/
def conditions (p : List Char) (call : List Char → List Char) : Value → Value
  | .str s => onText (comparison p) (.str s)
  | .list items => .list (conditionItems p call items)
  | .dict entries => .dict (conditionEntries p call entries)
  | v => v
termination_by structural v => v

def conditionItems (p : List Char) (call : List Char → List Char) : List Value → List Value
  | [] => []
  | v :: rest => conditions p call v :: conditionItems p call rest
termination_by structural vs => vs

def conditionEntries (p : List Char) (call : List Char → List Char) :
    List (Value × Value) → List (Value × Value)
  | [] => []
  | (key, v) :: rest =>
      (match Conditions.keyRole key with
        | .predicate => (onText (conditionKey p call) key, v)
        | _ => (key, conditions p call v)) :: conditionEntries p call rest
termination_by structural es => es

end

/-- A condition with its key. -/
def condition (p : List Char) (call : List Char → List Char) (entry : Value × Value) :
    Value × Value :=
  match Conditions.keyRole entry.1 with
  | .predicate => (onText (conditionKey p call) entry.1, entry.2)
  | _ => (entry.1, conditions p call entry.2)

def group (p : List Char) : Value → Value
  | .list items => .list (items.map (column p))
  | v => column p v

/-- An entry of an order: the column is the key, or the value under a number. -/
def orderEntry (p : List Char) (entry : Value × Value) : Value × Value :=
  match entry.1.integer?, entry.2 with
  | some _, .str s => (entry.1, column p (.str s))
  | _, v => (column p entry.1, v)

def orderItem (p : List Char) : Value → Value
  | .dict entries => .dict (entries.map (orderEntry p))
  | v => column p v

def order (p : List Char) : Value → Value
  | .list items => .list (items.map (orderItem p))
  | v => orderItem p v

/-- The clause under a reserved key. -/
def clause (p : List Char) (call : List Char → List Char) (key : Value) (v : Value) : Value :=
  if key == .str Tail.groupKey then group p v
  else if key == .str Tail.havingKey then conditions p call v
  else if key == .str Tail.orderKey then order p v
  else v

def tailEntry (p : List Char) (call : List Char → List Char) (entry : Value × Value) :
    Value × Value :=
  if Tail.isReserved entry.1 then (entry.1, clause p call entry.1 entry.2)
  else condition p call entry

/-- A where-specification. -/
def tail (p : List Char) (call : List Char → List Char) : Value → Value
  | .dict entries => .dict (entries.map (tailEntry p call))
  | v => v

/-! Calls. -/

/-- How the arguments of a verb are written. -/
def arguments (p : List Char) (call : List Char → List Char) : Verb → List (Value → Value)
  | .select | .get | .rand =>
      [onText (table p), specification p, tail p call, joins p]
  | .has => [onText (table p), tail p call, joins p]
  | .aggregate => [id, onText (table p), column p, tail p call, joins p]
  | .insert => [onText (table p), rows p]
  | .update | .replace => [onText (table p), data p, tail p call]
  | .delete => [onText (table p), tail p call]
  | .raw => [id]

/-- Each function at its value; values that no function is left for stay. -/
def each : List (Value → Value) → List Value → List Value
  | f :: fs, v :: vs => f v :: each fs vs
  | _, vs => vs

end QueryLoom.Prefixed

namespace QueryLoom.Verb

open Prefixed

/-- A call in which the prefix is written everywhere, and calls of functions as they are said to be
written. -/
def written (verb : Verb) (p : List Char) (call : List Char → List Char) (args : List Value) :
    List Value :=
  each (arguments p call verb) args

end QueryLoom.Verb
