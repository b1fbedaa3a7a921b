import QueryLoom.Key.Condition
import QueryLoom.Statement.Parameters

/-!
Conditions: the bodies of WHERE and HAVING. A dictionary holds conditions under their keys; a list
holds comparisons of two columns; the logical keys hold groups. Every value is bound as a parameter
and appears in the text as a placeholder only, raw values apart.
-/

namespace QueryLoom.Conditions

/-- Truth values are bound as the texts `1` and `0`, all other values as they are. -/
def bindScalar : Value → Value
  | .bool b => .str (if b then "1" else "0")
  | v => v

/-- Whether a text holds a bracketed set: an opening bracket, at least one character of the same
line, and a closing bracket. -/
def holdsBracketSet : List Char → Bool
  | [] => false
  | c :: rest =>
      (c == '[' && ((rest.takeWhile (· != '\n')).drop 1).contains ']') || holdsBracketSet rest

/-- The characters that make a text a pattern. -/
def wildcards : List Char := ['*', '?', '!', '%', '#', '^', '_']

/-- The pattern for a text: the text as it is if it holds a wildcard, otherwise the text anywhere in
the column. -/
def patternOf (s : String) : String :=
  if s.toList.any wildcards.contains || holdsBracketSet s.toList then s else "%" ++ s ++ "%"

/-- The pattern for a value, if the value has a text. -/
def likePattern (v : Value) : Except Fault String := v.toText.map patternOf

/-- Where conditions stand: for whom they are compiled, in which clause, and under which key. -/
structure Place where
  target : Target
  clause : Clause

namespace Place

def malformed {α : Type} (p : Place) (subject : Value) (reason : Reason) : Compile α :=
  throw (.showing subject (.malformedCondition subject reason p.clause))

def checkScalar (p : Place) (key v : Value) : Compile Unit :=
  match v with
  | .dict _ | .list _ | .raw _ _ => p.malformed key (.unsupportedValue v.kindName)
  | _ => pure ()

/-- The operand for a value: a raw value is spliced, a scalar is bound. -/
def operand (p : Place) (key : Value) : Value → Compile Sql
  | .raw sql parameters => p.target.splice sql parameters
  | v => do
      p.checkScalar key v
      Compile.bindValue v

def boundItems (p : Place) (key : Value) : List Value → Compile (List Sql)
  | [] => pure []
  | v :: rest => do
      p.checkScalar key v
      let item ← Compile.bindValue (bindScalar v)
      return item :: (← p.boundItems key rest)

/-- Equality with a value, or its negation: a test for null, a comparison, or membership in a
list. -/
def equality (p : Place) (key : Value) (column : Sql) (negated : Bool) : Value → Compile Sql
  | .null => return column ++ [.text (if negated then " IS NOT NULL" else " IS NULL")]
  | .list [] => p.malformed key .emptyList
  | .list items => do
      let bound ← p.boundItems key items
      return column ++ .text (if negated then " NOT IN (" else " IN (") ::
        Sql.join ", " bound ++ [.text ")"]
  | .raw sql parameters => do
      let right ← p.target.splice sql parameters
      return column ++ .text (if negated then " != " else " = ") :: right
  | v => do
      p.checkScalar key v
      let right ← Compile.bindValue (bindScalar v)
      return column ++ .text (if negated then " != " else " = ") :: right

def comparison (p : Place) (key : Value) (column : Sql) (operator : ConditionOperator) (v : Value) :
    Compile Sql :=
  match v with
  | .null | .list _ => p.malformed key (.needsScalar operator.text)
  | v => do
      let right ← p.operand key v
      return column ++ .text (" " ++ operator.text ++ " ") :: right

def likeItems (p : Place) (key : Value) (column : Sql) (operator : String) :
    List Value → Compile (List Sql)
  | [] => pure []
  | v :: rest => do
      let right ←
        match v with
        | .raw sql parameters => p.target.splice sql parameters
        | .null | .dict _ | .list _ => p.malformed key .likeNotScalar
        | v => do
            let pattern ← Compile.lift (likePattern v)
            Compile.bindValue (.str pattern)
      return (column ++ .text (" " ++ operator ++ " ") :: right) ::
        (← p.likeItems key column operator rest)

/-- How several patterns are joined, and which they are. -/
def likeGroup (p : Place) (key : Value) : Value → Compile (Connective × Value)
  | .dict [(.str name, items)] =>
      match Connective.ofText? name with
      | some connective => pure (connective, items)
      | none => p.malformed key .likeGroupKey
  | .dict _ => p.malformed key .likeGroupKey
  | v => pure (.or, v)

/-- The test of a column against patterns, of which any is enough unless said otherwise. -/
def like (p : Place) (key : Value) (column : Sql) (negated : Bool) (v : Value) : Compile Sql := do
  let (connective, patterns) ← p.likeGroup key v
  let items :=
    match patterns with
    | .list items => items
    | single => [single]
  if items.isEmpty then p.malformed key .likeEmpty
  else
    let like := p.target.dialect.likeOperator
    let tests ← p.likeItems key column (if negated then "NOT " ++ like else like) items
    return .text "(" :: Sql.join (" " ++ connective.text ++ " ") tests ++ [.text ")"]

def between (p : Place) (key : Value) (column : Sql) (negated : Bool) : Value → Compile Sql
  | .list [low, high] => do
      let low ← p.operand key low
      let high ← p.operand key high
      return .text "(" :: column ++ .text (if negated then " NOT BETWEEN " else " BETWEEN ") ::
        low ++ .text " AND " :: high ++ [.text ")"]
  | _ => p.malformed key .betweenNotPair

def regexp (p : Place) (key : Value) (column : Sql) (v : Value) : Compile Sql :=
  match v with
  | .null | .list _ => p.malformed key .regexpNotScalar
  | v => do
      let right ← p.operand key v
      return column ++ .text (" " ++ p.target.dialect.regexpOperator ++ " ") :: right

/-- The predicate for a key and its value. A call of a function is copied, a column is quoted. -/
def predicate (p : Place) (key v : Value) : Compile Sql :=
  match key with
  | .str text => do
      let parsed ← Compile.lift (Key.conditionKey text)
      let column ←
        if parsed.isFunction then pure [.text parsed.column] else p.target.column parsed.column
      match parsed.operator with
      | none => p.equality key column false v
      | some .not => p.equality key column true v
      | some .like => p.like key column false v
      | some .notLike => p.like key column true v
      | some .between => p.between key column false v
      | some .notBetween => p.between key column true v
      | some .regexp => p.regexp key column v
      | some .greater => p.comparison key column .greater v
      | some .greaterOrEqual => p.comparison key column .greaterOrEqual v
      | some .less => p.comparison key column .less v
      | some .lessOrEqual => p.comparison key column .lessOrEqual v
  | _ => p.malformed key .conditionKeyNotText

def columns (p : Place) (v : Value) : Compile Sql :=
  let parsed : Option ColumnComparison :=
    match v with
    | .str text => Key.columnComparison? text
    | _ => none
  match parsed with
  | none => p.malformed v .positionalNotComparison
  | some comparison => do
      let left ← p.target.column comparison.left
      let right ← p.target.column comparison.right
      return left ++ .text (" " ++ comparison.operator.text ++ " ") :: right

def columnsList (p : Place) : List Value → Compile (List Sql)
  | [] => pure []
  | v :: rest => do
      let first ← p.columns v
      return first :: (← p.columnsList rest)

/-- Joins the members of a group, of which there has to be one. -/
def joined (p : Place) (subject : Value) (connective : Connective) (members : List Sql) :
    Compile Sql :=
  if members.isEmpty then p.malformed subject .emptyGroup
  else pure (Sql.join (" " ++ connective.text ++ " ") members)

end Place

/-- What a key of a dictionary stands for. -/
inductive KeyRole
  | logical (connective : Connective)
  | position
  | predicate

/-- Logical keys are texts, numbers are positions of comparisons, and all else is a predicate. -/
def keyRole (key : Value) : KeyRole :=
  match key with
  | .str text =>
      match Key.logicalKey? text with
      | some connective => .logical connective
      | none => .predicate
  | .int _ | .bool _ => .position
  | _ => .predicate

def parenthesized (sql : Sql) : Sql := .text "(" :: sql ++ [.text ")"]

mutual

def entries (p : Place) (connective : Connective) : List (Value × Value) → Compile (List Sql)
  | [] => pure []
  | (key, v) :: rest => do
      let first ←
        match keyRole key with
        | .logical inner => logical p connective key inner v
        | .position => p.columns v
        | .predicate => p.predicate key v
      return first :: (← entries p connective rest)
termination_by structural es => es

/-- The group under a logical key. A list of dictionaries holds one group each; these are joined by
the connective around the key, and their members by the key's own. -/
def logical (p : Place) (outer : Connective) (key : Value) (inner : Connective) :
    Value → Compile Sql
  | .dict es => do
      let members ← entries p inner es
      return parenthesized (← p.joined (.dict es) inner members)
  | .list items =>
      if !items.isEmpty && items.all Value.isDict then do
        let found ← groups p inner items
        return parenthesized (Sql.join (" " ++ outer.text ++ " ") found)
      else do
        let members ← p.columnsList items
        return parenthesized (← p.joined (.list items) inner members)
  | _ => p.malformed key .logicalNeedsContainer
termination_by structural v => v

def groups (p : Place) (inner : Connective) : List Value → Compile (List Sql)
  | [] => pure []
  | .dict es :: rest => do
      let members ← entries p inner es
      let first := parenthesized (← p.joined (.dict es) inner members)
      return first :: (← groups p inner rest)
  | _ :: rest => groups p inner rest
termination_by structural vs => vs

end

/-- Compiles conditions whose members are joined by a connective. -/
def compile (p : Place) (connective : Connective) : Value → Compile Sql
  | .dict es => do
      let members ← entries p connective es
      p.joined (.dict es) connective members
  | .list items => do
      let members ← p.columnsList items
      p.joined (.list items) connective members
  | v => p.malformed v .conditionsNotContainer

end QueryLoom.Conditions
