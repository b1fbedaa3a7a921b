import QueryLoom.Sql.Dialect
import QueryLoom.Sql.Fragment
import QueryLoom.Sql.Identifier
import QueryLoom.Value.Convert

/-!
The parameters of a statement that is being compiled. Every bound value gets a fresh name from a
counter that goes on from statement to statement; raw fragments bring parameters under names of their
own. A name is never bound to two different values. Numbers that a failing compilation has used stay
used, so the state outlives a fault.
-/

namespace QueryLoom

/-- The parameters bound so far, and where the counter stands. -/
structure Parameters where
  /-- What generated names begin with. -/
  stem : String
  /-- The number of the next generated name. -/
  next : Nat
  /-- The bound values in the order of their names. -/
  bound : List (String × Value)

namespace Parameters

def defaultStem : String := "param_"

def start (next : Nat) : Parameters := ⟨defaultStem, next, []⟩

def toDict (p : Parameters) : Dict := p.bound.map fun (name, value) => (.str name, value)

end Parameters

/-- A step of compilation. -/
abbrev Compile := ExceptT Fault (StateM Parameters)

namespace Compile

/-- A step that neither reads nor binds parameters. -/
def lift {α : Type} (result : Except Fault α) : Compile α :=
  match result with
  | .ok a => pure a
  | .error fault => throw fault

/-- Binds a value under a name. A value that equals the one bound before replaces it. -/
def bindName (name : String) (value : Value) : Compile Unit := do
  let state ← get
  match Assoc.get? name state.bound with
  | some existing =>
      match existing.equal? value with
      | some true => pure ()
      | some false =>
          throw (.showing existing (.showing value (.duplicateParameter name existing value)))
      | none => throw .invalidOperation
  | none => pure ()
  set { state with bound := Assoc.insert name value state.bound }

/-- Binds a value under a fresh name. -/
def addValue (value : Value) : Compile String := do
  let state ← get
  let name := state.stem ++ toString state.next
  set { state with next := state.next + 1 }
  bindName name value
  return name

def bindValue (value : Value) : Compile Sql := do
  return [.param (← addValue value)]

/-- The name of a parameter of a raw fragment: colons at its front do not count. -/
def parameterName (key : Value) : String :=
  String.ofList (key.plain.toList.dropWhile (· == ':'))

/-- A step for which a value needs a text. -/
def requireText (v : Value) : Compile Unit := lift v.checkText

/-- Binds the parameters of a raw fragment. -/
def merge : Dict → Compile Unit
  | [] => pure ()
  | (key, value) :: rest => do
      requireText key
      bindName (parameterName key) value
      merge rest

/-- A raw fragment with its placeholders expanded and its parameters bound. -/
def splice (tablePrefix sql : String) (parameters : Dict) : Compile Sql := do
  merge parameters
  return [.fragment (Fragment.expand tablePrefix sql)]

def bareName (name : Value) : Compile Sql := lift (Identifier.bare name)

end Compile

structure Target where
  dialect : Dialect
  tablePrefix : String

namespace Target

def table (t : Target) (name : Value) : Compile Sql :=
  Compile.lift (Identifier.table t.tablePrefix name)

def column (t : Target) (name : Value) : Compile Sql :=
  Compile.lift (Identifier.column t.tablePrefix name)

def tableRef (t : Target) (ref : TableRef) : Compile Sql :=
  Compile.lift (Identifier.tableRef t.tablePrefix ref)

def splice (t : Target) (sql : String) (parameters : Dict) : Compile Sql :=
  Compile.splice t.tablePrefix sql parameters

end Target

end QueryLoom
