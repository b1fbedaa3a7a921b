import QueryLoom.CommandLine.Word
import QueryLoom.Database.Operation

/-!
The arguments of the command line: a verb, a table and options in any order. Words that nothing takes
are refused once all words have been read.
-/

namespace QueryLoom.CommandLine

inductive CommandVerb
  | read (kind : OperationKind)
  | rand | insert | update | delete | replace
deriving DecidableEq, Repr

namespace CommandVerb

def all : List CommandVerb :=
  OperationKind.all.map read ++ [.rand, .insert, .update, .delete, .replace]

def name : CommandVerb → String
  | .read kind => kind.name
  | .rand => "rand"
  | .insert => "insert"
  | .update => "update"
  | .delete => "delete"
  | .replace => "replace"

def ofName? (s : String) : Option CommandVerb := all.find? fun v => v.name == s

end CommandVerb

/-- What the options of a command line say. Specifications are JSON texts. -/
structure Settings where
  columns : Option String := none
  wheres : Option String := none
  join : Option String := none
  data : Option String := none
  dialect : String := "sqlite"
  tablePrefix : String := ""
  /-- The path of a database file that the statement is run on. -/
  sqlite : Option String := none
  /-- Whether the values are written into the statement. -/
  inline : Bool := false
  verbose : Bool := false

/-- The arguments of a command line. A verb or a table is missing if a separator stands in its
place. -/
structure Arguments where
  verb : Option CommandVerb
  table : Option String
  settings : Settings

/-- Why a command line gives no arguments. -/
inductive Dismissal
  | misused
  | help
deriving DecidableEq, Repr

def Settings.setText (s : Settings) (flag : Flag) (text : String) : Settings :=
  match flag with
  | .columns => { s with columns := some text }
  | .wheres => { s with wheres := some text }
  | .join => { s with join := some text }
  | .data => { s with data := some text }
  | .dialect => { s with dialect := text }
  | .tablePrefix => { s with tablePrefix := text }
  | .sqlite => { s with sqlite := some text }
  | .help | .inline | .verbose => s

def Settings.switch (s : Settings) (flag : Flag) : Except Dismissal Settings :=
  match flag with
  | .help => .error .help
  | .inline => .ok { s with inline := true }
  | .verbose => .ok { s with verbose := true }
  | _ => .ok s

/-- What has been read of a command line. -/
structure Gathered where
  verb : Option (Option CommandVerb) := none
  table : Option (Option String) := none
  settings : Settings := {}
  /-- Whether there was a word that nothing takes. -/
  hasExtra : Bool := false

namespace Gathered

def start : Gathered := {}

def wantsMore (g : Gathered) : Bool := g.verb.isNone || g.table.isNone

def extra (g : Gathered) : Gathered := { g with hasExtra := true }

/-- Takes a word in the place of the verb or the table; `none` if it is a separator. -/
def take (g : Gathered) (text : Option String) : Except Dismissal Gathered :=
  match g.verb, text with
  | some _, text => .ok { g with table := some text }
  | none, none => .ok { g with verb := some none }
  | none, some text =>
      match CommandVerb.ofName? text with
      | some verb => .ok { g with verb := some (some verb) }
      | none => .error .misused

/-- A value that no separator stands before: one that looks like a separator is one. -/
def unguarded (text : String) : Option String := if text == "--" then none else some text

def switchAll (g : Gathered) (flags : List Flag) : Except Dismissal Gathered := do
  return { g with settings := ← flags.foldlM Settings.switch g.settings }

/-- The options that letters directly behind each other stand for, and whether all of the letters
stand for one. -/
def cluster (flag : Flag) : List Char → Except Dismissal (List Flag × Bool)
  | [] => .ok ([flag], true)
  | '-' :: _ | '=' :: _ => .error .misused
  | c :: rest =>
      match Flag.ofLetter? c with
      | some next => do
          let (flags, known) ← cluster next rest
          return (flag :: flags, known)
      | none => .ok ([flag], false)

def words (g : Gathered) : List Word → Except Dismissal Gathered
  | [] => .ok g
  | .value text :: .separator :: rest =>
      if g.wantsMore then do words (← g.take (unguarded text)) rest else words g.extra rest
  | .value text :: rest =>
      if g.wantsMore then do words (← g.take (unguarded text)) rest else words g.extra rest
  | .separator :: .value text :: rest =>
      if g.wantsMore then do words (← g.take (some text)) rest else words g.extra rest
  | .separator :: rest | .unknown :: rest => words g.extra rest
  | .option flag none :: rest =>
      if flag.takesValue then
        match rest with
        | .value text :: more => words { g with settings := g.settings.setText flag text } more
        | _ => .error .misused
      else do words (← g.switchAll [flag]) rest
  | .option flag (some text) :: rest =>
      if flag.takesValue then words { g with settings := g.settings.setText flag text } rest
      else .error .misused
  | .letters flag more :: rest => do
      let (flags, known) ← cluster flag more
      let g ← g.switchAll flags
      words (if known then g else g.extra) rest

end Gathered

def Arguments.parse (argv : List String) : Except Dismissal Arguments := do
  match Word.classifyAll? argv with
  | none => throw .misused
  | some found =>
      let g ← Gathered.start.words found
      match g.verb, g.table, g.hasExtra with
      | some verb, some table, false => return ⟨verb, table, g.settings⟩
      | _, _, _ => throw .misused

end QueryLoom.CommandLine
