import QueryLoom.Value.Convert

/-!
Reports: what a fault of this library tells its caller. A report has a message, a code that programs
can test, and details; reports of compilation also name the clause. The functions that build reports
take any values, so that a caller can report a fault of its own in the same form; they fail if a value
that the message shows has no text.
-/

namespace QueryLoom

/-- The family a report belongs to. -/
inductive ReportKind
  | general
  | config
  | compilation
  | invalidIdentifier
  | malformedCondition
  | malformedColumn
  | ambiguousWildcard
  | malformedJoin
  | duplicateParameter
  | execution
deriving DecidableEq, Repr

def ReportKind.defaultCode : ReportKind → String
  | .general => "SHAPEQL_ERROR"
  | .config => "CONFIG_ERROR"
  | .compilation => "COMPILATION_ERROR"
  | .invalidIdentifier => "INVALID_IDENTIFIER"
  | .malformedCondition => "MALFORMED_CONDITION"
  | .malformedColumn => "MALFORMED_COLUMN"
  | .ambiguousWildcard => "AMBIGUOUS_WILDCARD"
  | .malformedJoin => "MALFORMED_JOIN_KEY"
  | .duplicateParameter => "DUPLICATE_PARAMETER"
  | .execution => "EXECUTION_ERROR"

structure Report where
  kind : ReportKind
  message : String
  code : Value
  details : Value
  /-- The clause of a report of compilation; others have none. -/
  clause : Option Value

namespace Report

private def orElse (value fallback : Value) : Value := if value.truthy then value else fallback

def general (kind : ReportKind) (message code details : Value) (clause : Option Value) :
    Except Fault Report := do
  let message ← message.toText
  return ⟨kind, message, orElse code kind.defaultCode, orElse details (.dict []), clause⟩

/-- A report whose message shows values, all of which need a text. -/
private def fixed (kind : ReportKind) (shown : List Value) (message : String) (details : Dict)
    (clause : Value) : Except Fault Report := do
  Value.checkText (.list shown)
  return ⟨kind, message, kind.defaultCode, .dict details, some clause⟩

def invalidIdentifier (name kind : Value) : Except Fault Report :=
  fixed .invalidIdentifier [name, kind]
    ("Incorrect " ++ kind.plain ++ " name \"" ++ name.plain ++ "\".")
    [("identifier", name), ("kind", kind)] .null

def malformedCondition (key reason clause : Value) : Except Fault Report :=
  fixed .malformedCondition [key, reason]
    ("Malformed condition " ++ key.shown ++ ": " ++ reason.plain)
    [("key", key.plain), ("reason", reason)] clause

def malformedColumn (column reason clause : Value) : Except Fault Report :=
  fixed .malformedColumn [column, reason]
    ("Malformed column " ++ column.shown ++ ": " ++ reason.plain)
    [("column", column.plain), ("reason", reason)] clause

/-- A column tree in the place of a column. -/
def emptyProjection (tree : ColumnTree) : Except Fault Report :=
  let reason := Reason.nothingSelected.text
  fixed .malformedColumn [] ("Malformed column " ++ tree.shown ++ ": " ++ reason)
    [("column", tree.shown), ("reason", reason)] Clause.select.text

def ambiguousWildcard (column : Value) : Except Fault Report :=
  fixed .ambiguousWildcard [column]
    ("Cannot use '" ++ column.plain ++ "' to select all columns while joining tables.")
    [("column", column)] Clause.select.text

def malformedJoin (key reason : Value) : Except Fault Report :=
  fixed .malformedJoin [key, reason]
    ("Malformed join key " ++ key.shown ++ ": " ++ reason.plain)
    [("key", key), ("reason", reason)] Clause.join.text

def duplicateParameter (name existing new : Value) : Except Fault Report :=
  fixed .duplicateParameter [name, existing, new]
    ("Parameter ':" ++ name.plain ++ "' is already bound to " ++ existing.shown ++
      "; refusing to rebind it to " ++ new.shown ++ ".")
    [("name", name)] .null

/-- A failed statement; the statement stands in the details unless it is empty. -/
def execution (message sql : Value) : Except Fault Report :=
  general .execution message .null (if sql.truthy then .dict [("sql", sql)] else .null) none

def config (message : String) : Except Fault Report := general .config message .null .null none

end Report

/-- The report of a fault; faults of drivers and values have none. -/
def Fault.report? (f : Fault) : Option Report :=
  let report : Except Fault Report :=
    match f with
    | .invalidIdentifier name kind => Report.invalidIdentifier name kind.text
    | .malformedCondition subject reason clause =>
        Report.malformedCondition subject reason.text clause.text
    | .malformedColumn subject reason clause =>
        Report.malformedColumn subject reason.text clause.text
    | .emptyProjection tree => Report.emptyProjection tree
    | .ambiguousWildcard column => Report.ambiguousWildcard column
    | .malformedJoin key reason => Report.malformedJoin key reason.text
    | .duplicateParameter name existing new =>
        Report.duplicateParameter name existing new
    | .refused cause =>
        Report.general .compilation cause.text .null .null
          (some ((cause.clause?.map fun c => Value.str c.text).getD .null))
    | .invalidConfig _ => Report.config "Invalid database configuration"
    | .execution message sql => Report.execution message ((sql.map Value.str).getD .null)
    | f => .error f
  report.toOption

/-- The text of a fault; faults of values have none. -/
def Fault.message (f : Fault) : String :=
  match f with
  | .driver message => message
  | .badJson message => message
  | _ => (f.report?.map Report.message).getD ""

end QueryLoom
