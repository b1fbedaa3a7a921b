/-!
The journal: what a program reports about its work as it goes, in the order in which it was reported.
-/

namespace QueryLoom

inductive Level
  | debug | info | warning
deriving DecidableEq, Repr

inductive Reporter
  | compiler | database | mapper
deriving DecidableEq, Repr

/-- A line of the journal. -/
structure Note where
  level : Level
  reporter : Reporter
  message : String
deriving DecidableEq, Repr

abbrev Journal := List Note

namespace Level

def name : Level → String
  | .debug => "DEBUG"
  | .info => "INFO"
  | .warning => "WARNING"

end Level

namespace Reporter

def name : Reporter → String
  | .compiler => "shapeql.compile.builder"
  | .database => "shapeql.database"
  | .mapper => "shapeql.mapping.data_mapper"

end Reporter

namespace Note

def text (n : Note) : String := n.level.name ++ " " ++ n.reporter.name ++ ": " ++ n.message

end Note

end QueryLoom
