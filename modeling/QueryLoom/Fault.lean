import QueryLoom.Fault.Reason

/-!
Everything that can go wrong, by cause. Faults of a specification come first and make up the
compilation faults; then come faults of configuration and execution, a fault that the database driver
raises itself, and the faults of values that an operation cannot take.
-/

namespace QueryLoom

/-- What a refused identifier would have named. -/
inductive NameKind
  | column | table
deriving DecidableEq, Repr

def NameKind.text : NameKind → String
  | .column => "column"
  | .table => "table"

inductive Fault
  | invalidIdentifier (name : String) (kind : NameKind)
  | malformedCondition (subject : Value) (reason : Reason) (clause : Clause)
  | malformedColumn (subject : Value) (reason : Reason) (clause : Clause)
  | emptyProjection (tree : ColumnTree)
  | ambiguousWildcard (column : String)
  | malformedJoin (key : String) (reason : Reason)
  | duplicateParameter (name : String) (existing new : Value)
  | refused (cause : Refusal)
  /-- Options of a configuration that are unknown or have a value they cannot take. -/
  | invalidConfig (fields : List String)
  /-- A statement or a transaction step that failed; the statement is kept if there is one. -/
  | execution (message : String) (sql : Option String)
  /-- A fault of the database driver that nothing has wrapped. -/
  | driver (message : String)
  /-- A value of a kind that the operation does not take. -/
  | wrongKind
  /-- A value of the right kind that the operation cannot take. -/
  | badValue
  /-- A JSON text that breaks off or goes wrong, with the reader's message. -/
  | badJson (message : String)
  /-- A number that is too large for the type asked for. -/
  | overflow
  /-- A text that is nested deeper than the stack reaches. -/
  | tooDeep
  /-- A value that lacks what the operation asks of it. -/
  | missingMember
  /-- An operation on a signalling decimal. -/
  | invalidOperation

namespace Fault

/-- Whether a fault is one of compilation: the specification is at fault, and nothing has been
sent to the database. -/
def isCompilation : Fault → Bool
  | .invalidIdentifier _ _ | .malformedCondition _ _ _ | .malformedColumn _ _ _
  | .emptyProjection _ | .ambiguousWildcard _ | .malformedJoin _ _ | .duplicateParameter _ _ _
  | .refused _ => true
  | _ => false

/-- Whether a fault is one of this library's own, as opposed to one of a driver or a value. -/
def isOwn : Fault → Bool
  | .invalidConfig _ | .execution _ _ => true
  | f => f.isCompilation

/-- A fault whose message shows a value. Where the value has no text, making the message is what
fails. -/
def showing (v : Value) (f : Fault) : Fault := if v.hasText then f else .badValue

end Fault

end QueryLoom
