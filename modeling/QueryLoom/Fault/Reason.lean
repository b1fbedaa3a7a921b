import QueryLoom.Columns.Tree
import QueryLoom.Value.Display

/-!
Why a specification is refused. Each cause is a constructor; its wording stands in one place.
-/

namespace QueryLoom

inductive Clause
  | select | join | filter | groupBy | having | orderBy | limit | set | insert
deriving DecidableEq, Repr

namespace Clause

def text : Clause → String
  | .select => "SELECT"
  | .join => "JOIN"
  | .filter => "WHERE"
  | .groupBy => "GROUP BY"
  | .having => "HAVING"
  | .orderBy => "ORDER BY"
  | .limit => "LIMIT"
  | .set => "SET"
  | .insert => "INSERT"

end Clause

/-- What is wrong with a key, or with the value under it. -/
inductive Reason
  -- Texts of keys.
  | expectedColumn
  | expectedColumnAfterDot
  | expectedAliasInParentheses
  | unterminatedBracket
  | unknownType (name : String)
  | trailingText (rest : String)
  | decoratedWildcard
  | rawNeedsAlias
  | unterminatedOperator
  | unknownOperator (text : String)
  | notACall
  | unbalancedParentheses
  | unterminatedDirection
  | missingDirection
  | unknownDirection (tag : String)
  | expectedTableAfterDirection
  | unknownSuffix (text : String)
  -- Column specifications.
  | referenceNotText
  | nameNotText
  | unsupportedSpecification (kind : String)
  | unsupportedEntry (kind : String)
  | groupNeedsKey
  | rawWithoutAlias
  | rawKeyNotText
  | unsupportedColumnValue
  | nothingSelected
  -- Conditions.
  | emptyGroup
  | conditionsNotContainer
  | logicalNeedsContainer
  | positionalNotComparison
  | conditionKeyNotText
  | needsScalar (operator : String)
  | likeGroupKey
  | likeEmpty
  | likeNotScalar
  | betweenNotPair
  | regexpNotScalar
  | emptyList
  | unsupportedValue (kind : String)
  -- The end of a statement.
  | whereNotDict
  | badGroup
  | badOrderEntry (entry : Value)
  | badOrder
  | badDirection
  | badLimit
  -- Joins.
  | joinsNotDict
  | joinKeyNotText
  | emptyOn
  | emptyUsing
  | badRelation
  -- Written data.
  | rowNotDict
  | arithmeticOutsideUpdate
  | arithmeticNeedsNumber
  | replacementsNotDict

namespace Reason

def text : Reason → String
  | .expectedColumn => "expected a column name"
  | .expectedColumnAfterDot => "expected a column name after '.'"
  | .expectedAliasInParentheses => "alias must be written as '(name)'"
  | .unterminatedBracket => "unterminated '['"
  | .unknownType name =>
      "unknown type '" ++ name ++ "' (expected one of " ++
        ", ".intercalate (ValueType.all.map ValueType.name) ++ ")"
  | .trailingText rest => "unexpected " ++ Text.quoted rest
  | .decoratedWildcard => "a wildcard cannot take an alias or a type"
  | .rawNeedsAlias => "a Raw column needs an alias key"
  | .unterminatedOperator => "unterminated operator bracket"
  | .unknownOperator op => "unknown operator '[" ++ op ++ "]'"
  | .notACall => "function keys must look like NAME(args)"
  | .unbalancedParentheses => "unbalanced parentheses"
  | .unterminatedDirection => "unterminated direction tag"
  | .missingDirection => "expected '[>]table', '[<]table', '[<>]table' or '[><]table'"
  | .unknownDirection tag => "unknown join direction '[" ++ tag ++ "]'"
  | .expectedTableAfterDirection => "expected a table name after the direction tag"
  | .unknownSuffix suffix => "unknown suffix '[" ++ suffix ++ "]'"
  | .referenceNotText => "column references must be strings"
  | .nameNotText => "column names must be strings"
  | .unsupportedSpecification kind => "unsupported column specification type " ++ kind
  | .unsupportedEntry kind => "unsupported column entry type " ++ kind
  | .groupNeedsKey => "nested column groups need a string key"
  | .rawWithoutAlias => "a Raw column needs an alias key, e.g. \x7b'total': Raw(...)\x7d"
  | .rawKeyNotText => "Raw column keys must be strings"
  | .unsupportedColumnValue => "mapping values must be Raw fragments or nested column lists"
  | .nothingSelected => "no columns selected"
  | .emptyGroup => "condition group is empty"
  | .conditionsNotContainer => "conditions must be a mapping or a list"
  | .logicalNeedsContainer => "logical groups need a mapping or a list"
  | .positionalNotComparison =>
      "positional entries must compare two columns, e.g. 'a.x[>]b.y'"
  | .conditionKeyNotText => "condition keys must be strings"
  | .needsScalar operator => "'[" ++ operator ++ "]' needs a single scalar value"
  | .likeGroupKey => "LIKE groups take a single 'AND' or 'OR' key"
  | .likeEmpty => "LIKE needs at least one pattern"
  | .likeNotScalar => "LIKE patterns must be scalar values"
  | .betweenNotPair => "BETWEEN needs a list of exactly two values"
  | .regexpNotScalar => "REGEXP needs a single pattern"
  | .emptyList => "IN lists must not be empty"
  | .unsupportedValue kind => "unsupported value of type " ++ kind
  | .whereNotDict => "where must be a mapping or a Raw fragment"
  | .badGroup => "GROUP takes a column, a list of columns or a Raw"
  | .badOrderEntry entry => "unsupported ORDER entry " ++ entry.shown
  | .badOrder => "ORDER takes a column, a list, a mapping or a Raw"
  | .badDirection => "direction must be 'ASC', 'DESC' or a list of values"
  | .badLimit => "LIMIT takes a count or an [offset, count] pair"
  | .joinsNotDict => "joins must be a non-empty mapping"
  | .joinKeyNotText => "join keys must be strings"
  | .emptyOn => "the ON mapping is empty"
  | .emptyUsing => "the USING list is empty"
  | .badRelation => "a relation must be a column name, a list of names, or a mapping"
  | .rowNotDict => "rows must be mappings"
  | .arithmeticOutsideUpdate => "arithmetic suffixes are only valid in UPDATE"
  | .arithmeticNeedsNumber => "arithmetic updates need a numeric value"
  | .replacementsNotDict => "replacements must map old text to new text"

end Reason

/-- Why a statement is refused as a whole. -/
inductive Refusal
  | unknownAggregate (name : String)
  | aggregateNeedsColumn (function : String)
  | randomNeedsDict
  | noRows
  | noColumns
  | noData
  | replaceNeedsDict
  | nothingToReplace
  | unknownDialect (name : String) (targets : List String)

namespace Refusal

def text : Refusal → String
  | .unknownAggregate name => "Unknown aggregate function '" ++ name ++ "'."
  | .aggregateNeedsColumn function => function ++ " needs a column."
  | .randomNeedsDict => "rand() needs a mapping where-specification."
  | .noRows => "INSERT needs at least one row."
  | .noColumns => "INSERT needs at least one column."
  | .noData => "UPDATE needs a non-empty data mapping."
  | .replaceNeedsDict => "REPLACE needs a mapping of columns."
  | .nothingToReplace => "REPLACE has nothing to replace."
  | .unknownDialect name targets =>
      "Unsupported dialect target: '" ++ name ++ "'. Registered targets: " ++
        Value.bracketed "[" "]" (targets.map Text.quoted) ++ "."

def clause? : Refusal → Option Clause
  | .aggregateNeedsColumn _ => some .select
  | .noRows | .noColumns => some .insert
  | .noData | .replaceNeedsDict | .nothingToReplace => some .set
  | .unknownAggregate _ | .randomNeedsDict | .unknownDialect _ _ => none

end Refusal

end QueryLoom
