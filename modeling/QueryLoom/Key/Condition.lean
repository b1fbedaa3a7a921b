import QueryLoom.Key.Scan

/-!
The keys of conditions: `column[operator]` with an optional operator, the logical keys `AND` and `OR`
with an optional comment, and comparisons of two columns.

    condition  := token [[operator]]
    logical    := (AND | OR) [blanks # anything]
    comparison := path [operator] path
-/

namespace QueryLoom

inductive ConditionOperator
  | greater | greaterOrEqual | less | lessOrEqual | not | between | notBetween | like | notLike
  | regexp
deriving DecidableEq, Repr

namespace ConditionOperator

def all : List ConditionOperator :=
  [.greater, .greaterOrEqual, .less, .lessOrEqual, .not, .between, .notBetween, .like, .notLike,
    .regexp]

def text : ConditionOperator → String
  | .greater => ">"
  | .greaterOrEqual => ">="
  | .less => "<"
  | .lessOrEqual => "<="
  | .not => "!"
  | .between => "<>"
  | .notBetween => "><"
  | .like => "~"
  | .notLike => "!~"
  | .regexp => "REGEXP"

/-- The operator written in a bracket, in any letter case. -/
def ofText? (s : String) : Option ConditionOperator :=
  all.find? fun op => op.text == Text.keywordForm s

end ConditionOperator

inductive ComparisonOperator
  | greater | greaterOrEqual | less | lessOrEqual | equal | notEqual
deriving DecidableEq, Repr

namespace ComparisonOperator

def all : List ComparisonOperator :=
  [.greater, .greaterOrEqual, .less, .lessOrEqual, .equal, .notEqual]

def text : ComparisonOperator → String
  | .greater => ">"
  | .greaterOrEqual => ">="
  | .less => "<"
  | .lessOrEqual => "<="
  | .equal => "="
  | .notEqual => "!="

def ofText? (s : String) : Option ComparisonOperator := all.find? fun op => op.text == s

end ComparisonOperator

inductive Connective
  | and | or
deriving DecidableEq, Repr

def Connective.text : Connective → String
  | .and => "AND"
  | .or => "OR"

/-- The connective with a name, in capitals. -/
def Connective.ofText? (s : String) : Option Connective :=
  [Connective.and, .or].find? fun c => c.text == s

/-- A condition key: a column or a function call, and an operator. -/
structure ConditionKey where
  column : String
  operator : Option ConditionOperator
  isFunction : Bool
deriving DecidableEq, Repr

structure ColumnComparison where
  left : String
  operator : ComparisonOperator
  right : String
deriving DecidableEq, Repr

namespace Key

open Text

/-- The characters of the column of a condition key. Parentheses and the asterisk admit calls of
aggregate functions. -/
def isConditionChar (c : Char) : Bool :=
  isNameChar c || c == '.' || c == '(' || c == ')' || c == '*'

/-- The depth of parentheses after a text, or nothing if a parenthesis closes too early. -/
def parenthesisDepth? (depth : Nat) : List Char → Option Nat
  | [] => some depth
  | '(' :: rest => parenthesisDepth? (depth + 1) rest
  | ')' :: rest => if depth == 0 then none else parenthesisDepth? (depth - 1) rest
  | _ :: rest => parenthesisDepth? depth rest

/-- Checks the form of a function call: a name, then a text that ends in a closing parenthesis and
whose parentheses are balanced. -/
def checkCall (token : List Char) : Except Reason Unit :=
  let name := token.takeWhile (· != '(')
  if name.isEmpty || !name.all isNameChar || token.getLast? != some ')' then .error .notACall
  else if parenthesisDepth? 0 token == some 0 then .ok ()
  else .error .unbalancedParentheses

def readConditionKey (cs : List Char) : Except Reason ConditionKey := do
  let token := cs.takeWhile isConditionChar
  let rest := cs.dropWhile isConditionChar
  if token.isEmpty then .error .expectedColumn
  else
    match takeBracketed rest with
    | .error _ => .error .unterminatedOperator
    | .ok (bracket, rest) =>
        let operator ←
          match bracket with
          | none => .ok none
          | some op =>
              match ConditionOperator.ofText? op with
              | some operator => .ok (some operator)
              | none => .error (.unknownOperator op)
        expectEnd rest
        let isFunction := token.contains '(' || token.contains ')'
        if isFunction then checkCall token
        .ok ⟨String.ofList token, operator, isFunction⟩

def conditionKey (key : String) : Except Fault ConditionKey :=
  orFault (.malformedCondition key · .filter) (readConditionKey key.toList)

/-- The text after a word at its front. -/
def afterWord? : List Char → List Char → Option (List Char)
  | [], cs => some cs
  | w :: ws, c :: cs => if w == c then afterWord? ws cs else none
  | _ :: _, [] => none

/-- Whether a key is the connective, alone or followed by blanks and a comment. -/
def isLogicalKey (connective : Connective) (cs : List Char) : Bool :=
  match afterWord? connective.text.toList cs with
  | none => false
  | some [] => true
  | some (c :: rest) =>
      isBlank c && (skipBlanks rest).head? == some '#'

/-- The connective that a key stands for, if it is a logical key. -/
def logicalKey? (key : String) : Option Connective :=
  [Connective.and, .or].find? fun c => isLogicalKey c key.toList

def columnComparison? (text : String) : Option ColumnComparison := do
  let (left, rest) ← takePath? (trim text.toList)
  match takeBracketed rest with
  | .ok (some op, rest) =>
      let (right, rest) ← takePath? rest
      if rest.isEmpty then
        let operator ← ComparisonOperator.ofText? op
        some ⟨left.text, operator, right.text⟩
      else none
  | _ => none

end Key

end QueryLoom
