import QueryLoom.CommandLine.Run

/-!
The program. No database driver is linked into it: statements are compiled and shown, and a
connection to a database file refuses every statement.
-/

namespace QueryLoom.CommandLine

/-- A connection on which nothing can be run. -/
def refusingConnection : Connection Unit where
  execute _ _ := pure (.error "no database driver is available")
  closeCursor := pure ()
  commit := pure (.ok ())
  rollback := pure (.ok ())
  close := pure ()

def usage : String :=
  "usage: queryloom verb table [--columns JSON] [--where JSON] [--join JSON] [--data JSON]\n" ++
  "         [--dialect NAME] [--prefix TEXT] [--inline] [--sqlite PATH] [--verbose]\n" ++
  "verbs: " ++ ", ".intercalate (CommandVerb.all.map CommandVerb.name) ++ "\n"

end QueryLoom.CommandLine

open QueryLoom CommandLine

def main (argv : List String) : IO UInt32 := do
  match Arguments.parse argv with
  | .error .help =>
      (← IO.getStdout).putStr usage
      return 0
  | .error .misused =>
      (← IO.getStderr).putStr usage
      return 2
  | .ok arguments =>
      match ((run (fun _ => pure ()) refusingConnection arguments).run ()).1 with
      | .ok outcome =>
          (← IO.getStdout).putStr outcome.output
          (← IO.getStderr).putStr outcome.errors
          return outcome.exitCode.toUInt32
      | .error _ =>
          (← IO.getStderr).putStr "a value cannot be taken\n"
          return 1
